import Mathlib.Data.List.Sort

namespace KeyedMap
open Std

variable {α β : Type*} {cmp : α → α → Ordering} [TransCmp cmp] [LawfulEqCmp cmp] [DecidableEq α]

theorem getElem?_insert (t : ExtTreeMap α β cmp) (k a : α) (v : β) :
    (t.insert k v)[a]? = if k = a then some v else t[a]? := by
  rw [ExtTreeMap.getElem?_insert]
  simp only [LawfulEqCmp.compare_eq_iff_eq]

theorem getElem?_erase (t : ExtTreeMap α β cmp) (k a : α) :
    (t.erase k)[a]? = if k = a then none else t[a]? := by
  rw [ExtTreeMap.getElem?_erase]
  simp only [LawfulEqCmp.compare_eq_iff_eq]

omit [LawfulEqCmp cmp] [DecidableEq α] in
theorem mem_iff (t : ExtTreeMap α β cmp) (k : α) : k ∈ t ↔ ∃ v, t[k]? = some v := by
  rw [ExtTreeMap.mem_iff_isSome_getElem?, Option.isSome_iff_exists]

omit [LawfulEqCmp cmp] [DecidableEq α] in
theorem eq_empty_of_size {t : ExtTreeMap α β cmp} (h : t.size = 0) : t = ∅ := by
  rw [← ExtTreeMap.isEmpty_iff, ExtTreeMap.isEmpty_eq_size_beq_zero]
  simpa using h

omit [LawfulEqCmp cmp] [DecidableEq α] in
theorem size_eq_zero_iff (t : ExtTreeMap α β cmp) : t.size = 0 ↔ ∀ k, k ∉ t := by
  constructor
  · intro h k
    rw [eq_empty_of_size h]
    exact ExtTreeMap.not_mem_empty
  · intro h
    rw [ExtTreeMap.eq_empty_iff_forall_not_mem.mpr h]
    exact ExtTreeMap.size_empty

omit [DecidableEq α] in
theorem mem_filter_iff (t : ExtTreeMap α β cmp) (f : α → β → Bool) (k : α) (v : β) :
    (t.filter f)[k]? = some v ↔ t[k]? = some v ∧ f k v = true := by
  rw [ExtTreeMap.getElem?_filter', Option.filter_eq_some_iff]

def descending (t : ExtTreeMap α β cmp) (p : α → Bool) : List (α × β) :=
  (t.toList.filter fun e => p e.1).reverse

omit [DecidableEq α] in
theorem mem_descending {t : ExtTreeMap α β cmp} {p : α → Bool} {e : α × β} :
    e ∈ descending t p ↔ t[e.1]? = some e.2 ∧ p e.1 = true := by
  rw [descending, List.mem_reverse, List.mem_filter, ExtTreeMap.mem_toList_iff_getElem?_eq_some]

omit [LawfulEqCmp cmp] [DecidableEq α] in
theorem descending_ordered (t : ExtTreeMap α β cmp) (p : α → Bool) :
    (descending t p).Pairwise fun a b => cmp b.1 a.1 = .lt := by
  rw [descending, List.pairwise_reverse]
  exact ExtTreeMap.ordered_keys_toList.filter _

omit [LawfulEqCmp cmp] [DecidableEq α] in
theorem size_sub_filter (t : ExtTreeMap α β cmp) (p : α → Bool) :
    t.size - (t.filter fun k _ => !p k).size = (descending t p).length := by
  have hsplit := List.length_eq_length_filter_add (l := t.toList) fun e => p e.1
  rw [descending, List.length_reverse, ← ExtTreeMap.length_toList, ← ExtTreeMap.length_toList,
    ExtTreeMap.toList_filter]
  omega

section OfList
variable {l : List (α × β)} {keys : List α} {values : List β} {k : α} {v : β}

omit [DecidableEq α] in
theorem getElem?_ofList (hkeys : (l.map Prod.fst).Nodup) (h : (k, v) ∈ l) :
    (ExtTreeMap.ofList l cmp)[k]? = some v :=
  ExtTreeMap.getElem?_ofList_of_mem ReflCmp.compare_self ((List.pairwise_map.mp hkeys).imp
    fun hne heq => hne (LawfulEqCmp.compare_eq_iff_eq.mp heq)) h

theorem isSome_ofList : ((ExtTreeMap.ofList l cmp)[k]?).isSome ↔ k ∈ l.map Prod.fst := by
  rw [← ExtTreeMap.mem_iff_isSome_getElem?, ExtTreeMap.mem_ofList, List.contains_iff_mem]

omit [DecidableEq α] in
theorem ofList_zip (hkeys : keys.Nodup) (hlength : values.length = keys.length) :
    keys.map (fun k => (ExtTreeMap.ofList (keys.zip values) cmp)[k]?) = values.map some := by
  have hfst : ((keys.zip values).map Prod.fst).Nodup := by rwa [List.map_fst_zip (by omega)]
  apply List.ext_getElem
  · simp [hlength]
  · intro i hi hi'
    rw [List.length_map] at hi hi'
    have hmem : (keys[i], values[i]) ∈ keys.zip values :=
      List.mem_iff_getElem.mpr ⟨i, by simp; omega, List.getElem_zip⟩
    rw [List.getElem_map, List.getElem_map]
    exact getElem?_ofList hfst hmem

end OfList

end KeyedMap

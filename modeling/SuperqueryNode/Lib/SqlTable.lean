import Mathlib.Logic.Function.Basic
import SuperqueryNode.Lib.Sql

namespace Sql

section Represents
variable {R K I E : Type} (key : R → K) (code : I → Option K) (holds : E → R → Prop)

structure Represents (rows : Multiset R) (m : I → Option E) : Prop where
  unique : (rows.map key).Nodup
  row : ∀ r ∈ rows, ∃ i e, code i = some (key r) ∧ m i = some e ∧ holds e r
  entry : ∀ i e, m i = some e → ∃ r ∈ rows, code i = some (key r)

variable {key code holds} {rows : Multiset R} {m : I → Option E} {i : I} {k : K}

theorem represents_empty : Represents key code holds 0 fun _ => none where
  unique := Multiset.nodup_zero
  row := fun r hr => absurd hr (Multiset.notMem_zero r)
  entry := fun _ _ h => by cases h

theorem represents_keyed [DecidableEq K] [DecidableEq I] (h : Represents key code holds rows m)
    (hinj : ∀ i j k, code i = some k → code j = some k → i = j) {row : R} {e : E}
    (hi : code i = some (key row)) (hrow : holds e row) :
    Represents key code holds (keyed key row rows) (Function.update m i (some e)) where
  unique := keyed_unique h.unique
  row := by
    intro r hr
    rcases Multiset.mem_cons.mp hr with rfl | hr
    · exact ⟨i, e, hi, Function.update_self .., hrow⟩
    · obtain ⟨hmem, hne⟩ := Multiset.mem_filter.mp hr
      obtain ⟨j, e', hj, hm, hholds⟩ := h.row r hmem
      have hji : j ≠ i := by
        rintro rfl
        exact hne (Option.some.inj (hj.symm.trans hi))
      exact ⟨j, e', hj, by rw [Function.update_of_ne hji, hm], hholds⟩
  entry := by
    intro j e' hj
    by_cases hji : j = i
    · subst hji
      exact ⟨row, Multiset.mem_cons_self .., hi⟩
    · rw [Function.update_of_ne hji] at hj
      obtain ⟨r, hr, hcode⟩ := h.entry j e' hj
      have hne : key r ≠ key row := fun heq => hji (hinj j i _ (heq ▸ hcode) hi)
      exact ⟨r, Multiset.mem_cons_of_mem (Multiset.mem_filter.mpr ⟨hr, hne⟩), hcode⟩

theorem represents_delete (h : Represents key code holds rows m) {deleted : R → Bool}
    {gone : I → Prop} [DecidablePred gone]
    (hgone : ∀ r ∈ rows, ∀ i, code i = some (key r) → (deleted r = true ↔ gone i)) :
    Represents key code holds (deleteWhere deleted rows) fun i => if gone i then none else m i where
  unique := Multiset.nodup_of_le (Multiset.map_le_map (Multiset.filter_le _ _)) h.unique
  row := by
    intro r hr
    obtain ⟨hmem, hkept⟩ := Multiset.mem_filter.mp hr
    obtain ⟨i, e, hi, hm, hholds⟩ := h.row r hmem
    have hstays : ¬gone i := fun hi' => by simp [(hgone r hmem i hi).mpr hi'] at hkept
    exact ⟨i, e, hi, by rw [if_neg hstays, hm], hholds⟩
  entry := by
    intro i e hi
    split_ifs at hi with hstays
    obtain ⟨r, hr, hcode⟩ := h.entry i e hi
    have hkept : ¬deleted r = true := fun hd => hstays ((hgone r hr i hcode).mp hd)
    exact ⟨r, Multiset.mem_filter.mpr ⟨hr, by simpa using hkept⟩, hcode⟩

theorem filter_eq_singleton [DecidableEq K] (hunique : (rows.map key).Nodup) {r : R}
    (hr : r ∈ rows) :
    (rows.filter fun s => key s = key r) = {r} := by
  obtain ⟨others, rfl⟩ := Multiset.exists_cons_of_mem hr
  rw [Multiset.map_cons, Multiset.nodup_cons] at hunique
  have hnone : (others.filter fun s => key s = key r) = 0 :=
    Multiset.filter_eq_nil.mpr fun s hs heq => hunique.1 (heq ▸ Multiset.mem_map_of_mem key hs)
  rw [Multiset.filter_cons_of_pos (p := fun s => key s = key r) _ rfl, hnone]
  rfl

theorem represents_find [DecidableEq K] (h : Represents key code holds rows m)
    (hinj : ∀ i j k, code i = some k → code j = some k → i = j) (hi : code i = some k) :
    (m i = none ∧ (rows.filter fun r => key r = k) = 0) ∨
      ∃ e r, m i = some e ∧ holds e r ∧ (rows.filter fun r => key r = k) = {r} := by
  cases hm : m i with
  | none =>
    refine .inl ⟨rfl, Multiset.filter_eq_nil.mpr fun r hr heq => ?_⟩
    obtain ⟨j, e, hj, hmj, -⟩ := h.row r hr
    rw [hinj j i k (heq ▸ hj) hi, hm] at hmj
    cases hmj
  | some e =>
    obtain ⟨r, hr, hcode⟩ := h.entry i e hm
    cases Option.some.inj (hi.symm.trans hcode)
    obtain ⟨j, e', hj, hmj, hholds⟩ := h.row r hr
    rw [hinj j i _ hj hi, hm] at hmj
    cases hmj
    exact .inr ⟨e, r, rfl, hholds, filter_eq_singleton h.unique hr⟩

end Represents

section Rows
variable {R O : Type} {f : R → O}

theorem exists_rows {answer : List O} {rows : Multiset R} (h : ↑answer = rows.map f) :
    ∃ order : List R, ↑order = rows ∧ order.map f = answer := by
  induction answer generalizing rows with
  | nil => exact ⟨[], (Multiset.map_eq_zero.mp h.symm).symm, rfl⟩
  | cons a answer ih =>
    obtain ⟨r, hr, rfl⟩ := Multiset.mem_map.mp (h ▸ Multiset.mem_coe.mpr List.mem_cons_self)
    obtain ⟨others, rfl⟩ := Multiset.exists_cons_of_mem hr
    rw [Multiset.map_cons, ← Multiset.cons_coe, Multiset.cons_inj_right] at h
    obtain ⟨order, rfl, rfl⟩ := ih h
    exact ⟨r :: order, rfl, rfl⟩

end Rows

end Sql

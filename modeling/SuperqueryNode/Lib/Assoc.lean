import Mathlib.Data.List.Nodup

namespace Assoc

variable {K V : Type*}

def Functional (ds : List (K × V)) : Prop :=
  ∀ k v w, (k, v) ∈ ds → (k, w) ∈ ds → v = w

theorem Functional.mono {ds es : List (K × V)} (h : Functional es) (hsub : ∀ q ∈ ds, q ∈ es) :
    Functional ds :=
  fun k v w hv hw => h k v w (hsub _ hv) (hsub _ hw)

theorem Functional.eq_of_keys_eq {ds xs ys : List (K × V)} (h : Functional ds)
    (hx : ∀ q ∈ xs, q ∈ ds) (hy : ∀ q ∈ ys, q ∈ ds)
    (hkeys : xs.map Prod.fst = ys.map Prod.fst) : xs = ys := by
  induction xs generalizing ys with
  | nil => simpa using hkeys.symm
  | cons x xs ih =>
    cases ys with
    | nil => simp at hkeys
    | cons y ys =>
      simp only [List.map_cons, List.cons.injEq] at hkeys
      obtain ⟨a, v⟩ := x
      obtain ⟨b, w⟩ := y
      obtain ⟨rfl, hrest⟩ := hkeys
      have hvw : v = w := h a v w (hx _ (by simp)) (hy _ (by simp))
      have htail : xs = ys := ih (fun q hq => hx q (by simp [hq]))
        (fun q hq => hy q (by simp [hq])) hrest
      rw [hvw, htail]

theorem Functional.of_keys_nodup {ds : List (K × V)} (h : (ds.map Prod.fst).Nodup) :
    Functional ds := by
  intro k v w hv hw
  have := List.inj_on_of_nodup_map h hv hw rfl
  exact congrArg Prod.snd this

theorem mem_of_lookup [BEq K] [LawfulBEq K] {ds : List (K × V)} {k : K} {v : V}
    (h : ds.lookup k = some v) : (k, v) ∈ ds := by
  obtain ⟨pre, post, rfl, -⟩ := List.lookup_eq_some_iff.mp h
  exact List.mem_append_right pre List.mem_cons_self

theorem lookup_of_mem [BEq K] [LawfulBEq K] {ds : List (K × V)} {k : K} {v : V}
    (h : (ds.map Prod.fst).Nodup) (hmem : (k, v) ∈ ds) : ds.lookup k = some v := by
  induction ds with
  | nil => cases hmem
  | cons d ds ih =>
    obtain ⟨a, w⟩ := d
    obtain ⟨ha, hds⟩ := List.nodup_cons.mp h
    rcases List.mem_cons.mp hmem with heq | hrest
    · cases heq
      exact List.lookup_cons_self
    · have hne : (k == a) = false := by
        rw [beq_eq_false_iff_ne]
        rintro rfl
        exact ha (List.mem_map.mpr ⟨_, hrest, rfl⟩)
      rw [List.lookup_cons, hne]
      exact ih hds hrest

end Assoc

import Mathlib.Tactic.Common

namespace LabelledRun

variable {S L : Type*} {step : S → L → Option S}

def run (step : S → L → Option S) : S → List L → Option S
  | s, [] => some s
  | s, l :: ls => (step s l).bind fun t => run step t ls

theorem run_cons {s u : S} {l : L} {ls : List L} :
    run step s (l :: ls) = some u ↔ ∃ t, step s l = some t ∧ run step t ls = some u := by
  simp [run, Option.bind_eq_some_iff]

theorem run_append {s u : S} {xs ys : List L} :
    run step s (xs ++ ys) = some u ↔ ∃ t, run step s xs = some t ∧ run step t ys = some u := by
  induction xs generalizing s with
  | nil => simp [run]
  | cons x xs ih =>
    simp only [List.cons_append, run_cons, ih]
    constructor
    · rintro ⟨v, hv, t, ht, hu⟩
      exact ⟨t, ⟨v, hv, ht⟩, hu⟩
    · rintro ⟨t, ⟨v, hv, ht⟩, hu⟩
      exact ⟨v, hv, t, ht, hu⟩

theorem run_invariant {P : S → Prop} (hstep : ∀ s l t, P s → step s l = some t → P t)
    {ls : List L} {s t : S} (hs : P s) (h : run step s ls = some t) : P t := by
  induction ls generalizing s with
  | nil =>
    have he : s = t := by simpa [run] using h
    exact he ▸ hs
  | cons l ls ih =>
    obtain ⟨u, hu, ht⟩ := run_cons.mp h
    exact ih (hstep s l u hs hu) ht

theorem run_preorder {P : S → Prop} {R : S → S → Prop} (hrefl : ∀ s, R s s)
    (htrans : ∀ s t u, R s t → R t u → R s u)
    (hstep : ∀ s l t, P s → step s l = some t → P t ∧ R s t)
    {ls : List L} {s t : S} (hs : P s) (h : run step s ls = some t) : R s t := by
  induction ls generalizing s with
  | nil =>
    have he : s = t := by simpa [run] using h
    exact he ▸ hrefl s
  | cons l ls ih =>
    obtain ⟨u, hu, ht⟩ := run_cons.mp h
    obtain ⟨hp, hr⟩ := hstep s l u hs hu
    exact htrans s u t hr (ih hp ht)

theorem run_history {P : List L → S → Prop}
    (hstep : ∀ before s l t, P before s → step s l = some t → P (before ++ [l]) t)
    {before ls : List L} {s t : S} (hs : P before s) (h : run step s ls = some t) :
    P (before ++ ls) t := by
  induction ls generalizing s before with
  | nil =>
    have he : s = t := by simpa [run] using h
    rw [List.append_nil]
    exact he ▸ hs
  | cons l ls ih =>
    obtain ⟨u, hu, ht⟩ := run_cons.mp h
    have hnext := ih (hstep before s l u hs hu) ht
    rwa [List.append_assoc] at hnext

def Guarded (step : S → L → Option S) (ok : S → L → Prop) : S → List L → Prop
  | _, [] => True
  | s, l :: ls => ok s l ∧ ∀ t, step s l = some t → Guarded step ok t ls

instance decidableGuarded {ok : S → L → Prop} [∀ s l, Decidable (ok s l)] :
    ∀ s ls, Decidable (Guarded step ok s ls)
  | _, [] => isTrue trivial
  | s, l :: ls =>
    match h : step s l with
    | none => decidable_of_iff (ok s l) (by simp [Guarded, h])
    | some t =>
      have : Decidable (Guarded step ok t ls) := decidableGuarded t ls
      decidable_of_iff (ok s l ∧ Guarded step ok t ls) (by simp [Guarded, h])

theorem run_guarded_invariant {ok : S → L → Prop} {P : S → Prop}
    (hstep : ∀ s l t, P s → ok s l → step s l = some t → P t)
    {ls : List L} {s t : S} (hs : P s) (hg : Guarded step ok s ls)
    (h : run step s ls = some t) : P t := by
  induction ls generalizing s with
  | nil =>
    have he : s = t := by simpa [run] using h
    exact he ▸ hs
  | cons l ls ih =>
    obtain ⟨u, hu, ht⟩ := run_cons.mp h
    exact ih (hstep s l u hs hg.1 hu) (hg.2 u hu) ht

theorem guarded_congr {ok ok' : S → L → Prop} {P : S → Prop} {ls : List L}
    (hiff : ∀ s, ∀ l ∈ ls, P s → (ok s l ↔ ok' s l))
    (hstep : ∀ s, ∀ l ∈ ls, ∀ t, P s → ok s l → step s l = some t → P t) {s : S} (hs : P s) :
    Guarded step ok s ls ↔ Guarded step ok' s ls := by
  induction ls generalizing s with
  | nil => exact Iff.rfl
  | cons l ls ih =>
    have hrest : ∀ t, P t → (Guarded step ok t ls ↔ Guarded step ok' t ls) := fun t ht =>
      ih (fun s l hl => hiff s l (List.mem_cons_of_mem _ hl))
        (fun s l hl => hstep s l (List.mem_cons_of_mem _ hl)) ht
    have hhead := hiff s l List.mem_cons_self hs
    constructor
    · rintro ⟨hok, hg⟩
      exact ⟨hhead.mp hok, fun t ht =>
        (hrest t (hstep s l List.mem_cons_self t hs hok ht)).mp (hg t ht)⟩
    · rintro ⟨hok, hg⟩
      exact ⟨hhead.mpr hok, fun t ht =>
        (hrest t (hstep s l List.mem_cons_self t hs (hhead.mpr hok) ht)).mpr (hg t ht)⟩

end LabelledRun

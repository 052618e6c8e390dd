import SuperqueryNode.Lib.LabelledRun

namespace Ranked
open LabelledRun

variable {S L : Type*} {step : S → L → Option S} {ok : S → L → Prop} {P goal : S → Prop}
  {rank : S → Nat} {s t : S} {ls : List L}

structure Descending (step : S → L → Option S) (ok : S → L → Prop) (P goal : S → Prop)
    (rank : S → Nat) : Prop where
  keeps : ∀ s l t, goal s → ok s l → step s l = some t → goal t
  lowers : ∀ s l t, P s → ¬goal s → ok s l → step s l = some t →
    goal t ∨ P t ∧ rank t < rank s

theorem guarded_keeps (h : Descending step ok P goal rank) (hs : goal s)
    (hg : Guarded step ok s ls) (hrun : run step s ls = some t) : goal t :=
  run_guarded_invariant h.keeps hs hg hrun

theorem guarded_reaches (h : Descending step ok P goal rank) (hs : goal s ∨ P s)
    (hg : Guarded step ok s ls) (hrun : run step s ls = some t)
    (hlong : rank s < ls.length) : goal t := by
  induction ls generalizing s with
  | nil => exact absurd hlong (Nat.not_lt_zero _)
  | cons l ls ih =>
    obtain ⟨u, hu, ht⟩ := run_cons.mp hrun
    by_cases hgoal : goal s
    · exact guarded_keeps h (h.keeps s l u hgoal hg.1 hu) (hg.2 u hu) ht
    · have hp : P s := hs.resolve_left hgoal
      rcases h.lowers s l u hp hgoal hg.1 hu with hdone | ⟨hpu, hlt⟩
      · exact guarded_keeps h hdone (hg.2 u hu) ht
      · rw [List.length_cons] at hlong
        exact ih (.inr hpu) (hg.2 u hu) ht (by omega)

theorem guarded_extends (hlive : ∀ s, P s → ∃ l t, ok s l ∧ step s l = some t ∧ P t) (hs : P s)
    (n : Nat) : ∃ ls t, ls.length = n ∧ Guarded step ok s ls ∧ run step s ls = some t := by
  induction n generalizing s with
  | zero => exact ⟨[], s, rfl, trivial, rfl⟩
  | succ n ih =>
    obtain ⟨l, u, hok, hu, hpu⟩ := hlive s hs
    obtain ⟨ls, t, hlen, hg, ht⟩ := ih hpu
    refine ⟨l :: ls, t, by rw [List.length_cons, hlen], ⟨hok, fun v hv => ?_⟩,
      run_cons.mpr ⟨u, hu, ht⟩⟩
    rw [hu] at hv
    cases hv
    exact hg

end Ranked

import Mathlib.Data.List.Nodup
import Mathlib.Order.Lattice

namespace Ascending

variable {κ T : Type} [LinearOrder κ]

def Ordered (l : List (κ × T)) : Prop := l.Pairwise fun a b => a.1 < b.1

def floor (l : List (κ × T)) (h : κ) : Option (κ × T) := (l.filter (·.1 ≤ h)).getLast?

def above (l : List (κ × T)) (k : κ) : Option (κ × T) := (l.filter (k < ·.1)).head?

structure InEffect (l : List (κ × T)) (h : κ) (pre : List (κ × T)) (e : κ × T)
    (post : List (κ × T)) : Prop where
  split : l = pre ++ e :: post
  reached : e.1 ≤ h
  pending : ∀ p ∈ post, h < p.1

section Split
variable {l pre post : List (κ × T)} {e : κ × T} {h : κ}

theorem ordered_before (hl : Ordered (pre ++ e :: post)) {p : κ × T} (hp : p ∈ pre) :
    p.1 < e.1 := (List.pairwise_append.mp hl).2.2 p hp e List.mem_cons_self

theorem ordered_after (hl : Ordered (pre ++ e :: post)) {p : κ × T} (hp : p ∈ post) :
    e.1 < p.1 :=
  (List.pairwise_cons.mp (List.pairwise_append.mp hl).2.1).1 p hp

theorem exists_inEffect (hl : Ordered l) (hreached : ∃ p ∈ l, p.1 ≤ h) :
    ∃ pre e post, InEffect l h pre e post := by
  induction l with
  | nil => simp at hreached
  | cons x l ih =>
    obtain ⟨hx, hrest⟩ := List.pairwise_cons.mp hl
    by_cases hlater : ∃ p ∈ l, p.1 ≤ h
    · obtain ⟨pre, e, post, heffect⟩ := ih hrest hlater
      exact ⟨x :: pre, e, post, by rw [heffect.split, List.cons_append], heffect.reached,
        heffect.pending⟩
    · have hpending : ∀ p ∈ l, h < p.1 := fun p hp => not_le.mp fun hle => hlater ⟨p, hp, hle⟩
      refine ⟨[], x, l, rfl, ?_, hpending⟩
      obtain ⟨p, hp, hle⟩ := hreached
      rcases List.mem_cons.mp hp with rfl | hp
      · exact hle
      · exact absurd hle (not_le.mpr (hpending p hp))

theorem filter_reached (hl : Ordered l) (heffect : InEffect l h pre e post) :
    l.filter (·.1 ≤ h) = pre ++ [e] := by
  obtain ⟨rfl, hreached, hpending⟩ := heffect
  have hpre : pre.filter (·.1 ≤ h) = pre := List.filter_eq_self.mpr fun p hp =>
    decide_eq_true ((ordered_before hl hp).le.trans hreached)
  have hpost : post.filter (·.1 ≤ h) = [] := List.filter_eq_nil_iff.mpr fun p hp => by
    simpa using hpending p hp
  rw [List.filter_append, List.filter_cons, hpre, hpost, if_pos (decide_eq_true hreached)]

theorem filter_pending (hl : Ordered l) (heffect : InEffect l h pre e post) :
    l.filter (h < ·.1) = post := by
  obtain ⟨rfl, hreached, hpending⟩ := heffect
  have hpre : pre.filter (h < ·.1) = [] := List.filter_eq_nil_iff.mpr fun p hp => by
    simpa using (ordered_before hl hp).le.trans hreached
  have hpost : post.filter (h < ·.1) = post := List.filter_eq_self.mpr fun p hp =>
    decide_eq_true (hpending p hp)
  have he : ¬decide (h < e.1) = true := by simpa using hreached
  rw [List.filter_append, List.filter_cons, hpre, hpost, if_neg he, List.nil_append]

theorem floor_inEffect (hl : Ordered l) (heffect : InEffect l h pre e post) :
    floor l h = some e := by
  rw [floor, filter_reached hl heffect, List.getLast?_append]
  rfl

theorem floor_eq_none : floor l h = none ↔ ∀ p ∈ l, h < p.1 := by
  rw [floor, List.getLast?_eq_none_iff, List.filter_eq_nil_iff]
  simp only [decide_eq_true_eq, not_le]

theorem inEffect_key (heffect : InEffect l h pre e post) (hl : Ordered l) :
    InEffect l e.1 pre e post := by
  refine ⟨heffect.split, le_rfl, fun p hp => ?_⟩
  rw [heffect.split] at hl
  exact ordered_after hl hp

theorem above_inEffect (hl : Ordered l) (heffect : InEffect l h pre e post) :
    above l e.1 = post.head? := by
  rw [above, filter_pending hl (inEffect_key heffect hl)]

theorem key_inj (hl : Ordered l) {e e' : κ × T} (he : e ∈ l) (he' : e' ∈ l) (hkey : e.1 = e'.1) :
    e = e' := by
  have hnodup : (l.map (·.1)).Nodup := List.pairwise_map.mpr (hl.imp fun hlt => hlt.ne)
  exact List.inj_on_of_nodup_map hnodup he he' hkey

theorem floor_eq_some (hl : Ordered l) : floor l h = some e ↔
    e ∈ l ∧ e.1 ≤ h ∧ ∀ p ∈ l, p.1 ≤ h → p.1 ≤ e.1 := by
  constructor
  · intro hfloor
    have hmem := List.mem_of_getLast? hfloor
    obtain ⟨he, hle⟩ := List.mem_filter.mp hmem
    obtain ⟨pre, e', post, heffect⟩ := exists_inEffect hl ⟨e, he, of_decide_eq_true hle⟩
    cases (floor_inEffect hl heffect).symm.trans hfloor
    refine ⟨he, heffect.reached, fun p hp hple => ?_⟩
    have hreached : p ∈ l.filter (·.1 ≤ h) := List.mem_filter.mpr ⟨hp, decide_eq_true hple⟩
    rw [filter_reached hl heffect, List.mem_append, List.mem_singleton] at hreached
    rcases hreached with hpre | rfl
    · rw [heffect.split] at hl
      exact (ordered_before hl hpre).le
    · exact le_rfl
  · rintro ⟨he, hle, hmax⟩
    obtain ⟨pre, e', post, heffect⟩ := exists_inEffect hl ⟨e, he, hle⟩
    have hfloor := floor_inEffect hl heffect
    obtain ⟨he', hreached⟩ := List.mem_filter.mp (List.mem_of_getLast? hfloor)
    have hkey : e'.1 = e.1 := by
      apply le_antisymm (hmax e' he' heffect.reached)
      by_contra hlt
      have hpending : e ∈ l.filter (e'.1 < ·.1) :=
        List.mem_filter.mpr ⟨he, decide_eq_true (not_le.mp hlt)⟩
      rw [filter_pending hl (inEffect_key heffect hl)] at hpending
      exact absurd hle (not_le.mpr (heffect.pending e hpending))
    rw [hfloor, key_inj hl he' he hkey]

end Split

end Ascending

import Mathlib.Data.Nat.Find
import Mathlib.Data.List.Range
import Mathlib.Data.List.Pairwise

namespace Descent

def descend (high low : Nat) : List Nat := (List.range' low (high + 1 - low)).reverse

section Descend
variable {high low h x : Nat}

@[simp] theorem mem_descend : x ∈ descend high low ↔ low ≤ x ∧ x ≤ high := by
  rw [descend, List.mem_reverse, List.mem_range'_1]
  omega

theorem descend_descending (high low : Nat) : (descend high low).Pairwise fun a b => b < a := by
  rw [descend, List.pairwise_reverse]
  exact List.pairwise_lt_range'

@[simp] theorem length_descend : (descend high low).length = high + 1 - low := by
  rw [descend, List.length_reverse, List.length_range']

theorem descend_split (hlow : low ≤ h) (hhigh : h ≤ high) :
    ∃ post, descend high low = descend high (h + 1) ++ h :: post := by
  have hlen : high + 1 - low = (h - low) + (high - h + 1) := by omega
  have hstart : low + 1 * (h - low) = h := by omega
  have hrest : high + 1 - (h + 1) = high - h := by omega
  refine ⟨(List.range' low (h - low)).reverse, ?_⟩
  rw [descend, descend, hrest, hlen, ← List.range'_append, hstart, List.range'_succ,
    List.reverse_append, List.reverse_cons, List.append_assoc]
  rfl

theorem descend_last (hle : low ≤ high) : descend high low = descend high (low + 1) ++ [low] := by
  have hlen : high + 1 - low = high + 1 - (low + 1) + 1 := by omega
  rw [descend, descend, hlen, List.range'_succ, List.reverse_cons]

end Descend

section Property
variable {P : Nat → Prop} {low high : Nat}

theorem downward (hstep : ∀ h, low ≤ h → h < high → P (h + 1) → P h) {a b : Nat} (ha : low ≤ a)
    (hab : a ≤ b) (hb : b ≤ high) (h : P b) : P a := by
  induction b, hab using Nat.le_induction with
  | base => exact h
  | succ b hab ih => exact ih (by omega) (hstep b (by omega) (by omega) h)

theorem highest_or_none (P : Nat → Prop) [DecidablePred P] (low high : Nat) :
    (∀ h, low ≤ h → h ≤ high → ¬P h) ∨
      ∃ h, low ≤ h ∧ h ≤ high ∧ P h ∧ ∀ k, h < k → k ≤ high → ¬P k := by
  by_cases hsome : ∃ h, low ≤ h ∧ h ≤ high ∧ P h
  · obtain ⟨h, hlow, hhigh, hp⟩ := hsome
    have hspec := Nat.findGreatest_spec (P := fun k => low ≤ k ∧ P k) hhigh ⟨hlow, hp⟩
    refine .inr ⟨_, hspec.1, Nat.findGreatest_le high, hspec.2, fun k hlt hk hpk => ?_⟩
    exact Nat.findGreatest_is_greatest hlt hk ⟨by omega, hpk⟩
  · left
    intro h hlow hhigh hp
    exact hsome ⟨h, hlow, hhigh, hp⟩

end Property
end Descent

import Mathlib.Algebra.Group.Int.Defs
import Mathlib.Algebra.Group.Nat.Defs
import Mathlib.Tactic.Common

namespace Unsigned

def maxValue (w : Nat) : Nat := 2 ^ w - 1

def wrappingAdd (w a b : Nat) : Nat := (a + b) % 2 ^ w

def saturatingAdd (w a b : Nat) : Nat := min (a + b) (maxValue w)

def saturatingMul (w a b : Nat) : Nat := min (a * b) (maxValue w)

def checkedAdd (w a b : Nat) : Option Nat :=
  if a + b ≤ maxValue w then some (a + b) else none

def checkedSub (a b : Nat) : Option Nat :=
  if b ≤ a then some (a - b) else none

theorem wrappingAdd_of_le {w a b : Nat} (h : a + b ≤ maxValue w) :
    wrappingAdd w a b = a + b := by
  have hpos : 0 < 2 ^ w := Nat.two_pow_pos w
  rw [maxValue] at h
  exact Nat.mod_eq_of_lt (by omega)

theorem wrappingAdd_one_of_lt {w a : Nat} (h : a < maxValue w) :
    wrappingAdd w a 1 = a + 1 := wrappingAdd_of_le h

theorem saturatingAdd_of_le {w a b : Nat} (h : a + b ≤ maxValue w) :
    saturatingAdd w a b = a + b := Nat.min_eq_left h

theorem checkedAdd_eq_some {w a b c : Nat} :
    checkedAdd w a b = some c ↔ a + b ≤ maxValue w ∧ a + b = c := by
  simp [checkedAdd]

theorem checkedAdd_eq_none {w a b : Nat} :
    checkedAdd w a b = none ↔ maxValue w < a + b := by
  simp [checkedAdd]

theorem checkedSub_of_le {a b : Nat} (h : b ≤ a) : checkedSub a b = some (a - b) := if_pos h

def trySigned (w n : Nat) : Option Int := if n < 2 ^ (w - 1) then some n else none

def asSigned (w n : Nat) : Int := (BitVec.ofNat w n).toInt

theorem asSigned_of_trySigned {w n : Nat} {i : Int} (h : trySigned w n = some i) :
    asSigned w n = i := by
  have hsmall : n < 2 ^ (w - 1) ∧ (n : Int) = i := by simpa [trySigned] using h
  have hpow : 2 ^ (w - 1) ≤ 2 ^ w := Nat.pow_le_pow_right (by decide) (Nat.sub_le w 1)
  have hn : n < 2 ^ w := Nat.lt_of_lt_of_le hsmall.1 hpow
  have hdouble : 2 * n < 2 ^ w := by
    cases w with
    | zero => simp only [Nat.pow_zero] at hn hsmall ⊢; omega
    | succ w => rw [Nat.pow_succ]; simp only [Nat.add_sub_cancel] at hsmall; omega
  rw [asSigned, BitVec.toInt_eq_toNat_of_lt, BitVec.toNat_ofNat, Nat.mod_eq_of_lt hn]
  · exact hsmall.2
  · rwa [BitVec.toNat_ofNat, Nat.mod_eq_of_lt hn]

end Unsigned

import Mathlib.Tactic.Common

namespace Ascii
variable {c : Char}

theorem isUpper_iff : c.isUpper = true ↔ 65 ≤ c.toNat ∧ c.toNat ≤ 90 := by
  change decide (65 ≤ c.val ∧ c.val ≤ 90) = true ↔ _
  rw [decide_eq_true_eq, UInt32.le_iff_toNat_le, UInt32.le_iff_toNat_le]
  rfl

theorem isLower_iff : c.isLower = true ↔ 97 ≤ c.toNat ∧ c.toNat ≤ 122 := by
  change (decide (97 ≤ c.val) && decide (c.val ≤ 122)) = true ↔ _
  rw [Bool.and_eq_true_iff, decide_eq_true_eq, decide_eq_true_eq, UInt32.le_iff_toNat_le,
    UInt32.le_iff_toNat_le]
  rfl

theorem isDigit_iff : c.isDigit = true ↔ 48 ≤ c.toNat ∧ c.toNat ≤ 57 := Char.isDigit_iff_toNat

theorem isAlpha_eq : c.isAlpha = (c.isUpper || c.isLower) := rfl

theorem not_lower_of_upper (h : c.isUpper = true) : c.isLower = false := by
  rw [isUpper_iff] at h
  rw [Bool.eq_false_iff, Ne, isLower_iff]
  omega

theorem not_upper_of_lower (h : c.isLower = true) : c.isUpper = false := by
  rw [Bool.eq_false_iff]
  intro hupper
  rw [not_lower_of_upper hupper] at h
  cases h

theorem toLower_of_not_upper (h : c.isUpper = false) : c.toLower = c :=
  dif_neg (of_decide_eq_false h)

theorem toLower_toNat (h : c.isUpper = true) : c.toLower.toNat = c.toNat + 32 := by
  have hc := isUpper_iff.mp h
  have hlower : c.toLower.val = c.val + ('a'.val - 'A'.val) :=
    congrArg Char.val (dif_pos (of_decide_eq_true h))
  change c.toLower.val.toNat = _
  rw [hlower, UInt32.toNat_add]
  change (c.toNat + 32) % 2 ^ 32 = _
  omega

theorem toUpper_toNat (h : c.isLower = true) : c.toUpper.toNat = c.toNat - 32 := by
  have hc := isLower_iff.mp h
  have hval : 'a'.val ≤ c.val ∧ c.val ≤ 'z'.val := by
    rw [UInt32.le_iff_toNat_le, UInt32.le_iff_toNat_le]
    exact hc
  have hupper : c.toUpper = _ := dif_pos hval
  rw [hupper]
  change (c.val + ('A'.val - 'a'.val)).toNat = _
  rw [UInt32.toNat_add]
  change (c.toNat + 4294967264) % 4294967296 = _
  omega

theorem isLower_toLower (h : c.isUpper = true) : c.toLower.isLower = true := by
  have hc := isUpper_iff.mp h
  rw [isLower_iff, toLower_toNat h]
  omega

theorem toLower_ascii (h : c.toNat < 128) : c.toLower.toNat < 128 := by
  cases hc : c.isUpper with
  | false => rwa [toLower_of_not_upper hc]
  | true =>
    rw [toLower_toNat hc]
    have := isUpper_iff.mp hc
    omega

theorem toLower_utf8Size (c : Char) : c.toLower.utf8Size = c.utf8Size := by
  cases hc : c.isUpper with
  | false => rw [toLower_of_not_upper hc]
  | true =>
    have hupper := isUpper_iff.mp hc
    have hascii : ∀ d : Char, d.toNat < 128 → d.utf8Size = 1 := fun d hd => by
      rw [Char.utf8Size_eq_one_iff, UInt32.le_iff_toNat_le]
      exact Nat.le_of_lt_succ hd
    rw [hascii c (by omega), hascii c.toLower (toLower_ascii (by omega))]

theorem not_upper_toLower : c.toLower.isUpper = false := by
  cases hc : c.isUpper with
  | false => rwa [toLower_of_not_upper hc]
  | true => exact not_upper_of_lower (isLower_toLower hc)

theorem toLower_eq_iff {d : Char} (hd : d.isAlpha = false) : c.toLower = d ↔ c = d := by
  cases hc : c.isUpper with
  | false => rw [toLower_of_not_upper hc]
  | true =>
    rw [isAlpha_eq, Bool.or_eq_false_iff] at hd
    constructor
    · rintro rfl
      rw [isLower_toLower hc] at hd
      cases hd.2
    · rintro rfl
      rw [hc] at hd
      cases hd.1

theorem utf8ByteSize_ascii (s : List Char) (h : ∀ c ∈ s, c.toNat < 128) :
    (String.ofList s).utf8ByteSize = s.length := by
  induction s with
  | nil => rfl
  | cons c s ih =>
    have hc : c.utf8Size = 1 := by
      rw [Char.utf8Size_eq_one_iff, UInt32.le_iff_toNat_le]
      exact Nat.le_of_lt_succ (h c List.mem_cons_self)
    rw [String.ofList_cons, String.utf8ByteSize_append, String.utf8ByteSize_singleton, hc,
      ih fun d hd => h d (List.mem_cons_of_mem c hd), List.length_cons, Nat.add_comm]

end Ascii

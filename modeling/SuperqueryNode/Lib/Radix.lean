import Mathlib.Data.List.Induction
import SuperqueryNode.Lib.Unsigned

namespace Radix
open Unsigned

def toDigit (radix : Nat) (c : Char) : Option Nat :=
  let digit :=
    if '0' ≤ c ∧ c ≤ '9' then some (c.toNat - '0'.toNat)
    else if 'a' ≤ c ∧ c ≤ 'z' then some (c.toNat - 'a'.toNat + 10)
    else if 'A' ≤ c ∧ c ≤ 'Z' then some (c.toNat - 'A'.toNat + 10)
    else none
  digit.filter (· < radix)

def digitsValue (radix : Nat) : Nat → List Char → Option Nat
  | acc, [] => some acc
  | acc, c :: cs => (toDigit radix c).bind fun d => digitsValue radix (radix * acc + d) cs

-- One leading `+` is allowed, as for Rust's unsigned integers.
def unsignedDigits : List Char → List Char
  | '+' :: cs => cs
  | cs => cs

def fromStrRadix (w radix : Nat) (s : String) : Option Nat :=
  match unsignedDigits s.toList with
  | [] => none
  | digits => (digitsValue radix 0 digits).filter (· ≤ maxValue w)

theorem fromStrRadix_le {w radix n : Nat} {s : String} (h : fromStrRadix w radix s = some n) :
    n ≤ maxValue w := by
  rw [fromStrRadix] at h
  split at h
  · cases h
  · simpa using (Option.filter_eq_some_iff.mp h).2

theorem toDigit_decimal {c : Char} (h : c.isDigit = true) :
    toDigit 10 c = some (c.toNat - '0'.toNat) := by
  rw [Char.isDigit_iff_toNat] at h
  have hlo : '0' ≤ c := by
    rw [Char.le_def, UInt32.le_iff_toNat_le]
    exact h.1
  have hhi : c ≤ '9' := by
    rw [Char.le_def, UInt32.le_iff_toNat_le]
    exact h.2
  rw [toDigit]
  rw [if_pos ⟨hlo, hhi⟩, Option.filter_some, if_pos]
  have hzero : '0'.toNat = 48 := rfl
  have hnine : '9'.toNat = 57 := rfl
  simp only [decide_eq_true_eq]
  omega

theorem digitsValue_decimal {cs : List Char} (h : ∀ c ∈ cs, c.isDigit = true) (acc : Nat) :
    digitsValue 10 acc cs = some (Nat.ofDigitChars 10 cs acc) := by
  induction cs generalizing acc with
  | nil => rfl
  | cons c cs ih =>
    rw [digitsValue, toDigit_decimal (h c List.mem_cons_self), Option.bind_some,
      ih (fun d hd => h d (List.mem_cons_of_mem _ hd)), Nat.ofDigitChars_cons]

theorem fromStrRadix_repr {w n : Nat} (h : n ≤ maxValue w) :
    fromStrRadix w 10 n.repr = some n := by
  have hdigits : ∀ c ∈ Nat.toDigits 10 n, c.isDigit = true := fun c hc =>
    Nat.isDigit_of_mem_toDigits (by omega) Nat.le.refl hc
  have hne : Nat.toDigits 10 n ≠ [] := Nat.toDigits_ne_nil
  have hplus : unsignedDigits (Nat.toDigits 10 n) = Nat.toDigits 10 n := by
    unfold unsignedDigits
    split
    next heq =>
      have := hdigits '+' (heq ▸ List.mem_cons_self)
      cases this
    next => rfl
  rw [fromStrRadix]
  rw [Nat.toList_repr, hplus]
  split
  next heq => exact absurd heq hne
  next =>
    rw [digitsValue_decimal hdigits, Nat.ofDigitChars_toDigits (by omega) Nat.le.refl,
      Option.filter_some, if_pos (decide_eq_true h)]

section Spelling
variable {radix : Nat}

theorem toDigit_digitChar (hr : radix ≤ 16) {d : Nat} (hd : d < radix) :
    toDigit radix d.digitChar = some d := by
  have hdigit : ∀ e < 16, toDigit 16 (Nat.digitChar e) = some e := by decide
  have h16 := hdigit d (by omega)
  rw [toDigit, Option.filter_eq_some_iff] at h16 ⊢
  exact ⟨h16.1, decide_eq_true hd⟩

theorem toDigit_cases {c : Char} {d : Nat} (h : toDigit radix c = some d) :
    d < radix ∧ (c.toNat = 48 + d ∧ d < 10 ∨ c.toNat = 87 + d ∧ 10 ≤ d ∨ c.toNat = 55 + d ∧ 10 ≤ d) := by
  rw [toDigit] at h
  obtain ⟨hdigit, hlt⟩ := Option.filter_eq_some_iff.mp h
  refine ⟨of_decide_eq_true hlt, ?_⟩
  simp only [Char.le_def, UInt32.le_iff_toNat_le] at hdigit
  change (if 48 ≤ c.toNat ∧ c.toNat ≤ 57 then some (c.toNat - 48)
    else if 97 ≤ c.toNat ∧ c.toNat ≤ 122 then some (c.toNat - 97 + 10)
    else if 65 ≤ c.toNat ∧ c.toNat ≤ 90 then some (c.toNat - 65 + 10) else none) = some d at hdigit
  split_ifs at hdigit <;> cases hdigit <;> omega

theorem toLower_of_toDigit (hr : radix ≤ 16) {c : Char} {d : Nat} (h : toDigit radix c = some d) :
    c.toLower = d.digitChar := by
  have hlow : ∀ e < 16, (e < 10 → (Char.ofNat (48 + e)).toLower = Nat.digitChar e) ∧
      (10 ≤ e → (Char.ofNat (87 + e)).toLower = Nat.digitChar e ∧
        (Char.ofNat (55 + e)).toLower = Nat.digitChar e) := by decide
  obtain ⟨hd, hcode⟩ := toDigit_cases h
  obtain ⟨hdecimal, hletter⟩ := hlow d (by omega)
  rw [← Char.ofNat_toNat c]
  rcases hcode with ⟨hc, hlt⟩ | ⟨hc, hge⟩ | ⟨hc, hge⟩
  · rw [hc, hdecimal hlt]
  · rw [hc, (hletter hge).1]
  · rw [hc, (hletter hge).2]

theorem toDigit_eq_zero {c : Char} (h : toDigit radix c = some 0) : c = '0' := by
  obtain ⟨_, hc⟩ := toDigit_cases h
  have hzero : c.toNat = 48 := by omega
  rw [← Char.ofNat_toNat c, hzero]

theorem digitsValue_concat (cs : List Char) (c : Char) (acc : Nat) :
    digitsValue radix acc (cs ++ [c]) =
      (digitsValue radix acc cs).bind fun v => (toDigit radix c).map (radix * v + ·) := by
  induction cs generalizing acc with
  | nil =>
    rw [List.nil_append, digitsValue, digitsValue, Option.bind_some]
    cases toDigit radix c <;> rfl
  | cons d cs ih =>
    rw [List.cons_append, digitsValue, digitsValue]
    cases toDigit radix d with
    | none => rfl
    | some e => exact ih (radix * acc + e)

theorem digitsValue_toDigits (hr : 1 < radix) (hr16 : radix ≤ 16) (n : Nat) :
    digitsValue radix 0 (Nat.toDigits radix n) = some n := by
  induction n using Nat.strongRecOn with
  | ind n ih =>
    by_cases hn : n < radix
    · rw [Nat.toDigits_of_lt_base hn, digitsValue, toDigit_digitChar hr16 hn, Option.bind_some,
        digitsValue, Nat.mul_zero, Nat.zero_add]
    · have hpos : 0 < n / radix := Nat.div_pos (by omega) (by omega)
      have hmod : n % radix < radix := Nat.mod_lt n (by omega)
      have hlt : n / radix < n := Nat.div_lt_self (by omega) hr
      have hsplit := Nat.toDigits_append_toDigits hr hpos hmod
      rw [Nat.div_add_mod, Nat.toDigits_of_lt_base hmod] at hsplit
      rw [← hsplit, digitsValue_concat, ih _ hlt, Option.bind_some, toDigit_digitChar hr16 hmod,
        Option.map_some, Nat.div_add_mod]

theorem mem_toDigits (hr : 1 < radix) {n : Nat} {c : Char} (h : c ∈ Nat.toDigits radix n) :
    ∃ d < radix, c = d.digitChar := by
  induction n using Nat.strongRecOn with
  | ind n ih =>
    by_cases hn : n < radix
    · rw [Nat.toDigits_of_lt_base hn, List.mem_singleton] at h
      exact ⟨n, hn, h⟩
    · have hpos : 0 < n / radix := Nat.div_pos (by omega) (by omega)
      have hmod : n % radix < radix := Nat.mod_lt n (by omega)
      have hsplit := Nat.toDigits_append_toDigits hr hpos hmod
      rw [Nat.div_add_mod, Nat.toDigits_of_lt_base hmod] at hsplit
      rw [← hsplit, List.mem_append, List.mem_singleton] at h
      rcases h with h | h
      · exact ih _ (Nat.div_lt_self (by omega) hr) h
      · exact ⟨n % radix, hmod, h⟩

theorem toLower_of_digitsValue (hr : 1 < radix) (hr16 : radix ≤ 16) {c : Char} {cs : List Char}
    {n : Nat} (hlead : c ≠ '0') (h : digitsValue radix 0 (c :: cs) = some n) :
    0 < n ∧ (c :: cs).map Char.toLower = Nat.toDigits radix n := by
  induction cs using List.reverseRecOn generalizing n with
  | nil =>
    rw [digitsValue, Option.bind_eq_some_iff] at h
    obtain ⟨d, hd, hn⟩ := h
    rw [digitsValue, Nat.mul_zero, Nat.zero_add, Option.some.injEq] at hn
    subst hn
    refine ⟨Nat.pos_of_ne_zero fun hz => hlead (toDigit_eq_zero (hz ▸ hd)), ?_⟩
    rw [Nat.toDigits_of_lt_base (toDigit_cases hd).1, List.map_singleton, toLower_of_toDigit hr16 hd]
  | append_singleton cs last ih =>
    rw [← List.cons_append, digitsValue_concat, Option.bind_eq_some_iff] at h
    obtain ⟨v, hv, hn⟩ := h
    obtain ⟨d, hd, rfl⟩ := Option.map_eq_some_iff.mp hn
    obtain ⟨hpos, hdigits⟩ := ih hv
    have hdr := (toDigit_cases hd).1
    constructor
    · have : 0 < radix * v := Nat.mul_pos (by omega) hpos
      omega
    · rw [← Nat.toDigits_append_toDigits hr hpos hdr, ← List.cons_append, List.map_append, hdigits,
        Nat.toDigits_of_lt_base hdr, List.map_singleton, toLower_of_toDigit hr16 hd]

theorem toDigits_leading (hr : 1 < radix) (hr16 : radix ≤ 16) {n : Nat} (hn : 0 < n) :
    ∃ c cs, Nat.toDigits radix n = c :: cs ∧ c ≠ '0' := by
  induction n using Nat.strongRecOn with
  | ind n ih =>
    by_cases hlt : n < radix
    · refine ⟨n.digitChar, [], Nat.toDigits_of_lt_base hlt, fun hz => ?_⟩
      rw [Nat.digitChar_eq_zero] at hz
      omega
    · have hpos : 0 < n / radix := Nat.div_pos (by omega) (by omega)
      have hmod : n % radix < radix := Nat.mod_lt n (by omega)
      have hsplit := Nat.toDigits_append_toDigits hr hpos hmod
      obtain ⟨c, cs, hcs, hne⟩ := ih _ (Nat.div_lt_self (by omega) hr) hpos
      rw [Nat.div_add_mod, hcs] at hsplit
      exact ⟨c, cs ++ Nat.toDigits radix (n % radix), hsplit.symm, hne⟩

end Spelling

end Radix

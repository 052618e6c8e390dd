import SuperqueryNode.Lib.Json
import SuperqueryNode.Lib.Radix

namespace JsonText
open Radix

inductive Part where
  | start
  | sign
  | zero
  | whole
  | point
  | fraction
  | mark
  | markSign
  | exponent
deriving DecidableEq, Repr

structure Numeral where
  part : Part
  negative : Bool
  whole : Nat
deriving DecidableEq, Repr

namespace Numeral

def start : Numeral := ⟨.start, false, 0⟩

def digit (r : Numeral) (d : Nat) : Option Numeral :=
  match r.part with
  | .start | .sign => some { r with part := if d = 0 then .zero else .whole, whole := d }
  | .zero => none
  | .whole => some { r with whole := 10 * r.whole + d }
  | .point | .fraction => some { r with part := .fraction }
  | .mark | .markSign | .exponent => some { r with part := .exponent }

def step (r : Numeral) (c : Char) : Option Numeral :=
  if c = '-' then
    match r.part with
    | .start => some { r with part := .sign, negative := true }
    | .mark => some { r with part := .markSign }
    | _ => none
  else if c = '+' then
    if r.part = .mark then some { r with part := .markSign } else none
  else if c = '.' then
    if r.part = .zero ∨ r.part = .whole then some { r with part := .point } else none
  else if c = 'e' ∨ c = 'E' then
    if r.part = .zero ∨ r.part = .whole ∨ r.part = .fraction then some { r with part := .mark }
    else none
  else (toDigit 10 c).bind r.digit

def integral (r : Numeral) : Bool := r.part = .zero ∨ r.part = .whole

def complete (r : Numeral) : Bool := r.integral || r.part = .fraction || r.part = .exponent

end Numeral

def numeral (text : List Char) : Option Numeral :=
  (text.foldlM Numeral.step .start).filter Numeral.complete

-- The numbers a program holds: 64-bit integers and finite doubles.
def FiniteDouble (bits : BitVec 64) : Prop := bits.extractLsb' 52 11 ≠ 0x7ff

instance (bits : BitVec 64) : Decidable (FiniteDouble bits) := inferInstanceAs (Decidable (_ ≠ _))

def Valid : JsonNumber → Prop
  | .posInt n => n < 2 ^ 64
  | .negInt i => -2 ^ 63 ≤ i ∧ i < 0
  | .float bits => FiniteDouble bits

instance : (n : JsonNumber) → Decidable (Valid n)
  | .posInt n => inferInstanceAs (Decidable (n < 2 ^ 64))
  | .negInt i => inferInstanceAs (Decidable (-2 ^ 63 ≤ i ∧ i < 0))
  | .float bits => inferInstanceAs (Decidable (FiniteDouble bits))

-- How doubles are written and read: always with a point or an exponent, and without loss.
structure FloatText where
  write : BitVec 64 → List Char
  read : List Char → Option (BitVec 64)
  written : ∀ bits, FiniteDouble bits →
    ∃ r, numeral (write bits) = some r ∧ r.integral = false
  read_write : ∀ bits, FiniteDouble bits → read (write bits) = some bits

def numberText (floats : FloatText) : JsonNumber → List Char
  | .posInt n => Nat.toDigits 10 n
  | .negInt i => '-' :: Nat.toDigits 10 i.natAbs
  | .float bits => floats.write bits

-- An integer that fits 64 bits is one; what does not, and negative zero, is read as a double.
def readNumber (floats : FloatText) (text : List Char) : Option JsonNumber :=
  (numeral text).bind fun r =>
    if r.integral ∧ ¬ r.negative ∧ r.whole < 2 ^ 64 then some (.posInt r.whole)
    else if r.integral ∧ r.negative ∧ 0 < r.whole ∧ r.whole ≤ 2 ^ 63 then
      some (.negInt (-r.whole))
    else (floats.read text).map .float

section Digits
variable {c : Char} {cs : List Char} {d m n : Nat} {r t : Numeral}

def marks : List Char := ['+', '-', '.', 'e', 'E']

theorem step_other (h : c ∉ marks) : r.step c = (toDigit 10 c).bind r.digit := by
  have hne (x : Char) (hx : x ∈ marks) : c ≠ x := fun heq => h (heq ▸ hx)
  rw [Numeral.step, if_neg (hne '-' (by decide)), if_neg (hne '+' (by decide)),
    if_neg (hne '.' (by decide)), if_neg (not_or.mpr ⟨hne 'e' (by decide), hne 'E' (by decide)⟩)]

theorem step_digit (h : toDigit 10 c = some d) : r.step c = r.digit d := by
  have hother : ∀ x ∈ marks, (toDigit 10 x).isNone = true := List.all_eq_true.mp rfl
  rw [step_other, h, Option.bind_some]
  intro hc
  have hnone := hother c hc
  rw [h] at hnone
  cases hnone

theorem foldlM_whole (negative : Bool) (h : digitsValue 10 m cs = some n) :
    cs.foldlM Numeral.step ⟨.whole, negative, m⟩ =
      some ⟨.whole, negative, n⟩ := by
  induction cs generalizing m with
  | nil =>
    cases h
    rfl
  | cons c cs ih =>
    obtain ⟨d, hd, hrest⟩ := Option.bind_eq_some_iff.mp h
    rw [List.foldlM_cons, step_digit hd]
    exact ih hrest

theorem foldlM_toDigits (negative : Bool) {part : Part} (hpart : part = .start ∨ part = .sign)
    (n : Nat) : (Nat.toDigits 10 n).foldlM Numeral.step ⟨part, negative, 0⟩ =
      some ⟨if n = 0 then .zero else .whole, negative, n⟩ := by
  have hfirst (d : Nat) : Numeral.digit ⟨part, negative, 0⟩ d =
      some ⟨if d = 0 then .zero else .whole, negative, d⟩ := by
    rcases hpart with rfl | rfl <;> rfl
  rcases Nat.eq_zero_or_pos n with rfl | hpos
  · rw [Nat.toDigits_zero, List.foldlM_cons, step_digit (d := 0) (by decide), hfirst]
    rfl
  · obtain ⟨c, cs, hcs, hzero⟩ : ∃ c cs, Nat.toDigits 10 n = c :: cs ∧ c ≠ '0' :=
      toDigits_leading (by decide) (by decide) hpos
    have hvalue : digitsValue 10 0 (Nat.toDigits 10 n) = some n :=
      digitsValue_toDigits (by decide) (by decide) n
    rw [hcs, digitsValue, Option.bind_eq_some_iff] at hvalue
    obtain ⟨d, hd, hrest⟩ := hvalue
    have hd0 : d ≠ 0 := fun h => hzero (toDigit_eq_zero (h ▸ hd))
    rw [hcs, List.foldlM_cons, step_digit hd, hfirst, if_neg hd0, if_neg (Nat.ne_of_gt hpos)]
    rw [Nat.mul_zero, Nat.zero_add] at hrest
    exact foldlM_whole negative hrest

def numberChars : List Char :=
  ['0', '1', '2', '3', '4', '5', '6', '7', '8', '9', '+', '-', '.', 'e', 'E']

theorem toDigit_mem (h : toDigit 10 c = some d) : c ∈ numberChars := by
  have hdigit : ∀ e < 10, Char.ofNat (48 + e) ∈ numberChars := by decide
  obtain ⟨hd, hc⟩ := toDigit_cases h
  have hcode : c.toNat = 48 + d := by omega
  rw [← Char.ofNat_toNat c, hcode]
  exact hdigit d hd

theorem step_mem (h : r.step c = some t) : c ∈ numberChars := by
  by_contra hc
  have hdigit : toDigit 10 c = none :=
    Option.eq_none_iff_forall_ne_some.mpr fun d hd => hc (toDigit_mem hd)
  have hmarks : marks ⊆ numberChars := List.subset_append_right (numberChars.take 10) marks
  rw [step_other fun h => hc (hmarks h), hdigit] at h
  cases h

theorem foldlM_mem (h : cs.foldlM Numeral.step r = some t) : ∀ c ∈ cs, c ∈ numberChars := by
  induction cs generalizing r with
  | nil => exact fun _ hc => absurd hc List.not_mem_nil
  | cons c cs ih =>
    rw [List.foldlM_cons] at h
    obtain ⟨r', hstep, hrest⟩ := Option.bind_eq_some_iff.mp h
    exact List.forall_mem_cons.mpr ⟨step_mem hstep, ih hrest⟩

theorem numeral_chars (h : numeral cs = some r) : cs ≠ [] ∧ ∀ c ∈ cs, c ∈ numberChars := by
  obtain ⟨hfold, hcomplete⟩ := Option.filter_eq_some_iff.mp h
  refine ⟨?_, foldlM_mem hfold⟩
  rintro rfl
  cases hfold
  cases hcomplete

end Digits

section RoundTrip
variable {floats : FloatText}

theorem numeral_posInt (n : Nat) : numeral (Nat.toDigits 10 n) =
    some ⟨if n = 0 then .zero else .whole, false, n⟩ := by
  rw [numeral, Numeral.start, foldlM_toDigits false (.inl rfl), Option.filter_some, if_pos]
  split_ifs <;> rfl

theorem numeral_point (n : Nat) : numeral (Nat.toDigits 10 n ++ ['.', '0']) =
    some ⟨.fraction, false, n⟩ := by
  have hpoint (part : Part) (hpart : part = .zero ∨ part = .whole) :
      ['.', '0'].foldlM Numeral.step ⟨part, false, n⟩ = some ⟨.fraction, false, n⟩ := by
    rcases hpart with rfl | rfl <;> rfl
  rw [numeral, Numeral.start, List.foldlM_append, foldlM_toDigits false (.inl rfl)]
  rw [Option.bind_eq_bind, Option.bind_some, hpoint _ (by split_ifs <;> simp)]
  rfl

theorem numeral_negInt {n : Nat} (h : 0 < n) : numeral ('-' :: Nat.toDigits 10 n) =
    some ⟨.whole, true, n⟩ := by
  have hsign : Numeral.start.step '-' = some ⟨.sign, true, 0⟩ := rfl
  rw [numeral, List.foldlM_cons, hsign]
  rw [Option.bind_eq_bind, Option.bind_some, foldlM_toDigits true (.inr rfl),
    if_neg (Nat.ne_of_gt h)]
  rfl

theorem readNumber_text (n : JsonNumber) (h : Valid n) :
    readNumber floats (numberText floats n) = some n := by
  cases n with
  | posInt n =>
    have hintegral : Numeral.integral ⟨if n = 0 then .zero else .whole, false, n⟩ = true := by
      split_ifs <;> rfl
    rw [readNumber, numberText, numeral_posInt, Option.bind_some,
      if_pos ⟨hintegral, Bool.false_ne_true, h⟩]
  | negInt i =>
    obtain ⟨hlow, hneg⟩ := h
    have hpos : 0 < i.natAbs := by omega
    have hle : i.natAbs ≤ 2 ^ 63 := by omega
    have hvalue : -(i.natAbs : Int) = i := by omega
    rw [readNumber, numberText, numeral_negInt hpos, Option.bind_some, if_neg (by simp),
      if_pos ⟨rfl, rfl, hpos, hle⟩, hvalue]
  | float bits =>
    obtain ⟨r, hr, hintegral⟩ := floats.written bits h
    rw [readNumber, numberText, hr, Option.bind_some, if_neg (by simp [hintegral]),
      if_neg (by simp [hintegral]), floats.read_write bits h]
    rfl

theorem numberText_chars (n : JsonNumber) (h : Valid n) :
    numberText floats n ≠ [] ∧ ∀ c ∈ numberText floats n, c ∈ numberChars := by
  have hread : readNumber floats (numberText floats n) = some n := readNumber_text n h
  obtain ⟨r, hr, -⟩ := Option.bind_eq_some_iff.mp hread
  exact numeral_chars hr

end RoundTrip

end JsonText

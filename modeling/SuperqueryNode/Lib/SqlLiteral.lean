import Mathlib.Data.List.TakeWhile
import Mathlib.Data.Rat.Cast.Defs
import SuperqueryNode.Lib.Radix

namespace Sql
open Radix

-- Spellings that every server reads alike; it may accept more than these.
section Numbers

def natural (digits : List Char) : Option Nat :=
  if digits = [] then none else digitsValue 10 0 digits

def integer : List Char → Option Int
  | '-' :: digits => (natural digits).map fun n : Nat => -(n : Int)
  | digits => (natural digits).map fun n : Nat => (n : Int)

-- The digits a `numeric` has room for, before the point and after it.
def wholeDigits : Nat := 131072

def fractionDigits : Nat := 16383

def magnitude (text : List Char) : Option ℚ :=
  let whole := text.takeWhile (· ≠ '.')
  if wholeDigits < whole.length then none
  else match text.dropWhile (· ≠ '.') with
  | [] => (natural whole).map fun n : Nat => (n : ℚ)
  | _ :: fraction =>
    if fractionDigits < fraction.length then none
    else (natural whole).bind fun n : Nat =>
      (natural fraction).map fun m : Nat => (n : ℚ) + (m : ℚ) / 10 ^ fraction.length

def decimal : List Char → Option ℚ
  | '-' :: text => (magnitude text).map fun q : ℚ => -q
  | text => magnitude text

variable {n : Nat}

theorem natural_toDigits (n : Nat) : natural (Nat.toDigits 10 n) = some n := by
  rw [natural, if_neg Nat.toDigits_ne_nil, digitsValue_toDigits (by decide) (by decide)]

theorem toDigits_head (n : Nat) : ∃ c digits, Nat.toDigits 10 n = c :: digits ∧ c ≠ '-' := by
  obtain ⟨c, digits, hdigits⟩ := List.exists_cons_of_ne_nil (Nat.toDigits_ne_nil (n := n) (b := 10))
  refine ⟨c, digits, hdigits, ?_⟩
  rintro rfl
  have hdigit := Nat.isDigit_of_mem_toDigits (b := 10) (by omega) Nat.le.refl
    (hdigits ▸ List.mem_cons_self : '-' ∈ Nat.toDigits 10 n)
  cases hdigit

theorem integer_toDigits (n : Nat) : integer (Nat.toDigits 10 n) = some (n : Int) := by
  obtain ⟨c, digits, hdigits, hc⟩ := toDigits_head n
  have hnatural := natural_toDigits n
  rw [hdigits] at hnatural ⊢
  rw [integer, hnatural]
  · rfl
  · rintro _ h
    exact hc (List.cons.inj h).1

theorem integer_negative (n : Nat) : integer ('-' :: Nat.toDigits 10 n) = some (-(n : Int)) := by
  rw [integer, natural_toDigits]
  rfl

theorem magnitude_toDigits (h : n < 10 ^ wholeDigits) :
    magnitude (Nat.toDigits 10 n) = some (n : ℚ) := by
  have hpoint : ∀ c ∈ Nat.toDigits 10 n, decide (c ≠ '.') = true := by
    intro c hc
    have hdigit := Nat.isDigit_of_mem_toDigits (b := 10) (by omega) Nat.le.refl hc
    rw [decide_eq_true_eq]
    rintro rfl
    cases hdigit
  have hlength : (Nat.toDigits 10 n).length ≤ wholeDigits :=
    (Nat.length_toDigits_le_iff (by omega) (by decide)).mpr h
  simp only [magnitude, List.takeWhile_eq_self_iff.mpr hpoint, List.dropWhile_eq_nil_iff.mpr hpoint,
    natural_toDigits, if_neg (Nat.not_lt.mpr hlength), Option.map_some]

theorem decimal_toDigits (h : n < 10 ^ wholeDigits) :
    decimal (Nat.toDigits 10 n) = some (n : ℚ) := by
  obtain ⟨c, digits, hdigits, hc⟩ := toDigits_head n
  have hmagnitude := magnitude_toDigits h
  rw [hdigits] at hmagnitude ⊢
  rw [decimal, hmagnitude]
  rintro _ heq
  exact hc (List.cons.inj heq).1

theorem decimal_negative (h : n < 10 ^ wholeDigits) :
    decimal ('-' :: Nat.toDigits 10 n) = some (-(n : ℚ)) := by
  rw [decimal, magnitude_toDigits h, Option.map_some]

end Numbers

section Dates

structure Timestamp where
  year : Nat
  month : Nat
  day : Nat
  hour : Nat
  minute : Nat
  second : Nat
  micros : Nat
deriving DecidableEq, Repr

def isLeap (year : Nat) : Bool := year % 4 == 0 && (year % 100 != 0 || year % 400 == 0)

def daysIn (year month : Nat) : Nat :=
  if month = 2 then if isLeap year then 29 else 28
  else if month ∈ [4, 6, 9, 11] then 30
  else 31

def Timestamp.exists (t : Timestamp) : Bool :=
  1 ≤ t.year && (1 ≤ t.month && t.month ≤ 12) && (1 ≤ t.day && t.day ≤ daysIn t.year t.month) &&
    t.hour < 24 && t.minute < 60 && t.second < 60

def micros : List Char → Option Nat
  | [] => some 0
  | '.' :: digits =>
    if digits.length ≤ 6 then (natural digits).map fun n => n * 10 ^ (6 - digits.length) else none
  | _ => none

-- A timestamp has no zone: the one a text ends in is not looked at.
def zoneless (text : List Char) : List Char :=
  if text.getLast? = some 'Z' then text.dropLast else text

-- `YYYY-MM-DD hh:mm:ss`, with a fraction or without; a `T` may stand between the date and the time.
def timestamp (text : List Char) : Option Timestamp :=
  let shaped := 19 ≤ text.length ∧ text[4]? = some '-' ∧ text[7]? = some '-' ∧
    (text[10]? = some 'T' ∨ text[10]? = some ' ') ∧ text[13]? = some ':' ∧ text[16]? = some ':'
  let part (start length : Nat) := natural ((text.drop start).take length)
  if shaped then do
    let t := ⟨← part 0 4, ← part 5 2, ← part 8 2, ← part 11 2, ← part 14 2, ← part 17 2,
      ← micros (zoneless (text.drop 19))⟩
    if t.exists then some t else none
  else none

end Dates

section Bytes

def hexBytes : List Char → Option (List (BitVec 8))
  | [] => some []
  | [_] => none
  | a :: b :: rest => do
    let high ← toDigit 16 a
    let low ← toDigit 16 b
    let bytes ← hexBytes rest
    some (.ofNat 8 (16 * high + low) :: bytes)

end Bytes

end Sql

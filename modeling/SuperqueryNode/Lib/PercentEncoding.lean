import SuperqueryNode.Lib.Radix

namespace PercentEncoding
open Radix

def percent : UInt8 := 37

def HexDigit (x : UInt8) (d : Nat) : Prop :=
  d < 16 ∧ (x.toNat = d.digitChar.toNat ∨ x.toNat = d.digitChar.toUpper.toNat)

instance (x : UInt8) (d : Nat) : Decidable (HexDigit x d) := inferInstanceAs (Decidable (_ ∧ _))

inductive Encodes : List UInt8 → List UInt8 → Prop
  | nil : Encodes [] []
  | kept {b bytes encoded} : b ≠ percent → Encodes bytes encoded → Encodes (b :: bytes) (b :: encoded)
  | written {b x y hi lo bytes encoded} : HexDigit x hi → HexDigit y lo → b.toNat = hi * 16 + lo →
      Encodes bytes encoded → Encodes (b :: bytes) (percent :: x :: y :: encoded)

def digit (x : UInt8) : Option Nat := toDigit 16 (Char.ofNat x.toNat)

-- A percent sign that fewer than two bytes follow stands for itself.
def undo : List UInt8 → Option (List UInt8)
  | [] => some []
  | [b] => some [b]
  | [b, x] => some [b, x]
  | b :: x :: y :: rest =>
    if b = percent then
      (digit x).bind fun hi => (digit y).bind fun lo =>
        (undo rest).map (UInt8.ofNat (hi * 16 + lo) :: ·)
    else (undo (x :: y :: rest)).map (b :: ·)

theorem undo_kept {b : UInt8} {rest : List UInt8} (h : b ≠ percent ∨ rest.length < 2) :
    undo (b :: rest) = (undo rest).map (b :: ·) := by
  match rest, h with
  | [], _ => rfl
  | [_], _ => rfl
  | x :: y :: rest, h =>
    have hb : b ≠ percent := h.resolve_right (by simp)
    rw [undo, if_neg hb]

theorem digit_hex {x : UInt8} {d : Nat} (h : HexDigit x d) : digit x = some d := by
  have hdigits : ∀ e < 16, toDigit 16 e.digitChar = some e ∧
      toDigit 16 e.digitChar.toUpper = some e := by decide
  obtain ⟨hd, hx⟩ := h
  obtain ⟨hlower, hupper⟩ := hdigits d hd
  rw [digit]
  rcases hx with hx | hx
  · rw [hx, Char.ofNat_toNat, hlower]
  · rw [hx, Char.ofNat_toNat, hupper]

theorem undo_encodes {bytes encoded : List UInt8} (h : Encodes bytes encoded) :
    undo encoded = some bytes := by
  induction h with
  | nil => rfl
  | kept hb _ ih => rw [undo_kept (.inl hb), ih, Option.map_some]
  | written hx hy hb _ ih =>
    simp only [undo, if_true, digit_hex hx, digit_hex hy, ih, Option.bind_some, Option.map_some,
      ← hb, UInt8.ofNat_toNat]

end PercentEncoding

import SuperqueryNode.Lib.Fallible
import SuperqueryNode.Lib.PercentEncoding

namespace SuperqueryNode.Config
open Radix Fallible PercentEncoding

structure DbConfig where
  host : String
  port : UInt16
  username : String
  password : String
  database : String
  schema : String
deriving DecidableEq, Repr

-- How a run of the byte cursor can go wrong: a panic, or turns that do not suffice.
inductive Fault where
  | indexOutOfBounds
  | outOfTurns
deriving DecidableEq, Repr

def asBytes (s : String) : List UInt8 := s.toByteArray.data.toList

def fromUtf8 (bytes : List UInt8) : Option String := String.fromUTF8? ⟨bytes.toArray⟩

def index (bytes : List UInt8) (i : Nat) : Except Fault UInt8 :=
  match bytes[i]? with
  | some b => .ok b
  | none => .error .indexOutOfBounds

def percentLoop (bytes : List UInt8) : Nat → Nat → List UInt8 → Except Fault (Option (List UInt8))
  | 0, i, out => if i < bytes.length then .error .outOfTurns else .ok (some out)
  | turns + 1, i, out =>
    if i < bytes.length then do
      let b ← index bytes i
      if b = percent ∧ i + 2 < bytes.length then
        let x ← index bytes (i + 1)
        match toDigit 16 (Char.ofNat x.toNat) with
        | none => return none
        | some hi =>
          let y ← index bytes (i + 2)
          match toDigit 16 (Char.ofNat y.toNat) with
          | none => return none
          | some lo => percentLoop bytes turns (i + 3) (out ++ [UInt8.ofNat (hi * 16 + lo)])
      else percentLoop bytes turns (i + 1) (out ++ [b])
    else return some out

def percentDecode (s : String) : Except Fault (Option String) := do
  let out ← percentLoop (asBytes s) (asBytes s).length 0 []
  return out.bind fromUtf8

def decode (s : String) : Except Fault String := do
  let decoded ← percentDecode s
  return decoded.getD s

section Decode

theorem fromUtf8_eq_some {bytes : List UInt8} {s : String} :
    fromUtf8 bytes = some s ↔ asBytes s = bytes := by
  rw [fromUtf8, asBytes, String.fromUTF8?]
  constructor
  · intro h
    split_ifs at h with hvalid
    cases h
    rfl
  · rintro rfl
    rw [dif_pos s.isValidUTF8]
    rfl

theorem index_drop {bytes rest : List UInt8} {b : UInt8} {i : Nat} (h : bytes.drop i = b :: rest) :
    index bytes i = .ok b ∧ bytes.drop (i + 1) = rest ∧ bytes.length = i + (rest.length + 1) := by
  have hget : bytes[i]? = some b := by rw [← List.head?_drop, h, List.head?_cons]
  have hlength := congrArg List.length h
  rw [List.length_drop, List.length_cons] at hlength
  refine ⟨by rw [index, hget], by rw [← List.tail_drop, h, List.tail_cons], by omega⟩

theorem percentLoop_triplet {bytes tail : List UInt8} {x y : UInt8} {i : Nat}
    (hrest : bytes.drop i = percent :: x :: y :: tail) (turns : Nat) (out : List UInt8) :
    percentLoop bytes (turns + 1) i out =
      match digit x, digit y with
      | some hi, some lo =>
        percentLoop bytes turns (i + 3) (out ++ [UInt8.ofNat (hi * 16 + lo)])
      | _, _ => .ok none := by
  obtain ⟨hb, hrest, hlength⟩ := index_drop hrest
  obtain ⟨hx, hrest, _⟩ := index_drop hrest
  obtain ⟨hy, _, _⟩ := index_drop hrest
  rw [List.length_cons, List.length_cons] at hlength
  rw [percentLoop, if_pos (by omega), hb, ok_bind, if_pos ⟨rfl, by omega⟩, hx, ok_bind, ← digit]
  cases digit x with
  | none => rfl
  | some hi =>
    simp only
    rw [hy, ok_bind, ← digit]
    cases digit y with
    | none => rfl
    | some lo => rfl

theorem percentLoop_kept {bytes rest : List UInt8} {b : UInt8} {i : Nat}
    (hrest : bytes.drop i = b :: rest) (hb : b ≠ percent ∨ rest.length < 2) (turns : Nat)
    (out : List UInt8) :
    percentLoop bytes (turns + 1) i out = percentLoop bytes turns (i + 1) (out ++ [b]) := by
  obtain ⟨hget, _, hlength⟩ := index_drop hrest
  have hplain : ¬(b = percent ∧ i + 2 < bytes.length) := by
    rintro ⟨rfl, hlt⟩
    rcases hb with hb | hb
    · exact hb rfl
    · omega
  rw [percentLoop, if_pos (by omega), hget, ok_bind, if_neg hplain]

theorem percentLoop_end {bytes : List UInt8} {i : Nat} (hrest : bytes.drop i = []) (turns : Nat)
    (out : List UInt8) : percentLoop bytes turns i out = .ok (some out) := by
  have hend : ¬i < bytes.length := by
    have := List.drop_eq_nil_iff.mp hrest
    omega
  cases turns with
  | zero => rw [percentLoop, if_neg hend]
  | succ turns =>
    rw [percentLoop, if_neg hend]
    rfl

theorem percentLoop_eq {bytes rest : List UInt8} {turns i : Nat} (hrest : bytes.drop i = rest)
    (hturns : rest.length ≤ turns) (out : List UInt8) :
    percentLoop bytes turns i out = .ok ((undo rest).map (out ++ ·)) := by
  induction turns generalizing rest i out with
  | zero =>
    obtain rfl : rest = [] := List.length_eq_zero_iff.mp (by omega)
    rw [percentLoop_end hrest, undo, Option.map_some, List.append_nil]
  | succ turns ih =>
    cases rest with
    | nil => rw [percentLoop_end hrest, undo, Option.map_some, List.append_nil]
    | cons b rest =>
      obtain ⟨_, hnext, _⟩ := index_drop hrest
      rw [List.length_cons] at hturns
      by_cases hb : b ≠ percent ∨ rest.length < 2
      · rw [percentLoop_kept hrest hb, ih hnext (by omega), undo_kept hb, Option.map_map]
        simp [Function.comp_def]
      · obtain ⟨hpercent, hshort⟩ := not_or.mp hb
        obtain rfl : b = percent := Decidable.not_not.mp hpercent
        obtain ⟨x, y, tail, rfl⟩ : ∃ x y tail, rest = x :: y :: tail := by
          obtain _ | ⟨x, _ | ⟨y, tail⟩⟩ := rest
          · simp at hshort
          · simp at hshort
          · exact ⟨x, y, tail, rfl⟩
        obtain ⟨_, hnext, _⟩ := index_drop hnext
        obtain ⟨_, hnext, _⟩ := index_drop hnext
        rw [List.length_cons, List.length_cons] at hturns
        rw [percentLoop_triplet hrest, undo, if_pos rfl]
        cases digit x with
        | none => rfl
        | some hi =>
          cases digit y with
          | none => rfl
          | some lo => simp [ih hnext (by omega), Function.comp_def]

def decodedText (s : String) : String := ((undo (asBytes s)).bind fromUtf8).getD s

theorem percentDecode_eq (s : String) :
    percentDecode s = .ok ((undo (asBytes s)).bind fromUtf8) := by
  rw [percentDecode, percentLoop_eq List.drop_zero (Nat.le_refl _)]
  simp only [List.nil_append, Option.map_id_fun', id_eq]
  rfl

theorem decode_eq (s : String) : decode s = .ok (decodedText s) := by
  rw [decode, percentDecode_eq]
  rfl

theorem decodedText_encodes {s e : String} (h : Encodes (asBytes s) (asBytes e)) :
    decodedText e = s := by
  rw [decodedText, undo_encodes h, Option.bind_some, fromUtf8_eq_some.mpr rfl, Option.getD_some]

theorem decodedText_cases (s : String) : undo (asBytes s) = some (asBytes (decodedText s)) ∨
    decodedText s = s ∧ ∀ t, undo (asBytes s) ≠ some (asBytes t) := by
  rw [decodedText]
  cases hread : (undo (asBytes s)).bind fromUtf8 with
  | some t =>
    obtain ⟨bytes, hbytes, ht⟩ := Option.bind_eq_some_iff.mp hread
    exact .inl (by rw [hbytes, ← fromUtf8_eq_some.mp ht, Option.getD_some])
  | none =>
    refine .inr ⟨rfl, fun t ht => ?_⟩
    rw [ht, Option.bind_some, fromUtf8_eq_some.mpr rfl] at hread
    cases hread

theorem decode_undoes_encoding (s : String) :
    (∀ e : String, Encodes (asBytes s) (asBytes e) → decode e = .ok s) ∧
    ∃ t, decode s = .ok t ∧
      (undo (asBytes s) = some (asBytes t) ∨
        t = s ∧ ∀ t', undo (asBytes s) ≠ some (asBytes t')) :=
  ⟨fun e h => by rw [decode_eq, decodedText_encodes h],
    decodedText s, decode_eq s, decodedText_cases s⟩

theorem decode_undoes_last_triplet : decode "a%C3%a9%2f" = .ok "aé/" := by
  refine (decode_undoes_encoding "aé/").1 "a%C3%a9%2f" ?_
  change Encodes [97, 195, 169, 47] [97, 37, 67, 51, 37, 97, 57, 37, 50, 102]
  exact .kept (by decide) <|
    .written (show HexDigit 67 12 by decide) (show HexDigit 51 3 by decide) (by decide) <|
    .written (show HexDigit 97 10 by decide) (show HexDigit 57 9 by decide) (by decide) <|
    .written (show HexDigit 50 2 by decide) (show HexDigit 102 15 by decide) (by decide) .nil

end Decode
end SuperqueryNode.Config

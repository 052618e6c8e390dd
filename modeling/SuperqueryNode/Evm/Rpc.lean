import SuperqueryNode.ChainApi.Types
import SuperqueryNode.Lib.Json
import SuperqueryNode.Lib.Radix

namespace SuperqueryNode.Evm
open Unsigned Radix ChainApi

def stripHexMarker (s : String) : Option String :=
  match s.toList with
  | '0' :: 'x' :: digits => some (String.ofList digits)
  | _ => none

def quantityDigits (value : Json) : Option String :=
  (value.asStr.bind stripHexMarker).filter fun s =>
    s ≠ "" ∧ (s.utf8ByteSize = 1 ∨ s.front? ≠ some '0')

def quantity (value : Json) : Except ChainError Nat :=
  match quantityDigits value with
  | none => .error (.decode "invalid RPC quantity")
  | some raw =>
    match fromStrRadix 64 16 raw with
    | none => .error (.decode "RPC quantity exceeds u64")
    | some n => .ok n

theorem quantity_le {value : Json} {n : Nat} (h : quantity value = .ok n) : n ≤ maxValue 64 := by
  rw [quantity] at h
  split at h
  · cases h
  · split at h
    · cases h
    · cases h
      exact fromStrRadix_le ‹_›

end SuperqueryNode.Evm

import SuperqueryNode.Lib.Unsigned

namespace SuperqueryNode.ChainApi
open Unsigned

structure DateTime where
  nanos : Int
deriving DecidableEq, Repr

structure BlockPtr where
  height : Nat
  hash : String
deriving DecidableEq, Repr

structure Header where
  height : Nat
  hash : String
  parentHash : Option String
  timestamp : Option DateTime
deriving DecidableEq, Repr

namespace Header

def ptr (h : Header) : BlockPtr := ⟨h.height, h.hash⟩

def isChildOf (h parent : Header) : Bool :=
  some h.height == checkedAdd 64 parent.height 1 && h.parentHash == some parent.hash

theorem isChildOf_iff {h parent : Header} : h.isChildOf parent = true ↔
    h.height = parent.height + 1 ∧ h.height ≤ maxValue 64 ∧ h.parentHash = some parent.hash := by
  rw [isChildOf]
  simp only [Bool.and_eq_true, beq_iff_eq]
  rw [eq_comm, checkedAdd_eq_some]
  constructor
  · rintro ⟨⟨hmax, hheight⟩, hparent⟩
    exact ⟨hheight.symm, hheight ▸ hmax, hparent⟩
  · rintro ⟨hheight, hmax, hparent⟩
    exact ⟨⟨hheight ▸ hmax, hheight.symm⟩, hparent⟩

end Header

inductive FinalityState where
  | unfinalized
  | final
deriving DecidableEq, Repr

structure GenericBlock (B : Type) where
  header : Header
  inner : B
deriving DecidableEq, Repr

inductive ChainError where
  | transport (message : String)
  | rateLimited (retryAfterMs : Option Nat)
  | blockUnavailable (height : Nat)
  | chainIdMismatch (expected actual : String)
  | decode (message : String)
  | rpc (code : Int)
  | other (message : String)
deriving DecidableEq, Repr

def ChainError.isRetryable : ChainError → Bool
  | .transport _ => true
  | .rateLimited _ => true
  | _ => false

end SuperqueryNode.ChainApi

import Mathlib.Tactic.Common

namespace SuperqueryNode.Dispatcher

structure QueuedBlock (B : Type) where
  height : Nat
  block : B
deriving DecidableEq, Repr

structure Channel (B : Type) where
  maxCapacity : Nat
  queued : List (QueuedBlock B)
  sendersGone : Bool
  receiverGone : Bool

variable {B : Type}

def queue (capacity : Nat) : Channel B where
  maxCapacity := max capacity 1
  queued := []
  sendersGone := false
  receiverGone := false

namespace QueueSender

-- `none`: the call is still waiting, since the queue is full.
def send (c : Channel B) (height : Nat) (block : B) : Option (Bool × Channel B) :=
  if c.receiverGone then some (false, c)
  else if c.queued.length < c.maxCapacity then
    some (true, { c with queued := c.queued ++ [⟨height, block⟩] })
  else none

end QueueSender

namespace QueueReceiver

def tryRecv (c : Channel B) : Option (QueuedBlock B × Channel B) :=
  match c.queued with
  | [] => none
  | q :: rest => some (q, { c with queued := rest })

-- `none`: the call is still waiting for a block.
def recv (c : Channel B) : Option (Option (QueuedBlock B) × Channel B) :=
  match tryRecv c with
  | some (q, rest) => some (some q, rest)
  | none => if c.sendersGone then some (none, c) else none

end QueueReceiver

end SuperqueryNode.Dispatcher

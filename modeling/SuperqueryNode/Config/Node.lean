import SuperqueryNode.Lib.Fallible
import SuperqueryNode.Lib.Unsigned

namespace SuperqueryNode.Config
open Unsigned Fallible

inductive HistoricalMode where
  | height
  | timestamp
  | disabled
deriving DecidableEq, Repr

def HistoricalMode.isEnabled : HistoricalMode → Bool
  | disabled => false
  | _ => true

structure NodeConfig where
  project : String
  databaseUrl : Option String
  rpcUrls : List String
  ingestOnly : Bool
  startHeight : Option UInt64
  endHeight : Option UInt64
  batchSize : UInt32
  maxInFlight : UInt32
  rpcTimeoutSecs : UInt64
  rpcMaxRetries : UInt32
  queueCapacity : UInt32
  workers : Option UInt32
  historical : HistoricalMode
  queryLimit : UInt32
  unfinalizedBlocks : Bool
  finalityConfirmations : UInt64
  mappingFuel : UInt64
  mappingTimeoutMs : UInt64
  mappingMemoryMb : UInt32
deriving DecidableEq, Repr

namespace NodeConfig
variable (c : NodeConfig) (parallelism : Nat)

-- `parallelism` is what the machine reports, at least one.
def resolvedWorkers : Nat := (c.workers.map UInt32.toNat).getD parallelism

def budgets : List (String × Nat) := [
  ("batch-size", c.batchSize.toNat), ("max-in-flight", c.maxInFlight.toNat),
  ("queue-capacity", c.queueCapacity.toNat), ("rpc-timeout-secs", c.rpcTimeoutSecs.toNat),
  ("rpc-max-retries", c.rpcMaxRetries.toNat), ("workers", c.resolvedWorkers parallelism),
  ("query-limit", c.queryLimit.toNat), ("mapping-fuel", c.mappingFuel.toNat),
  ("mapping-timeout-ms", c.mappingTimeoutMs.toNat), ("mapping-memory-mb", c.mappingMemoryMb.toNat)]

def heights : List UInt64 := c.startHeight.toList ++ c.endHeight.toList

def checkBudget (budget : String × Nat) : Except String Unit :=
  ensure (budget.2 != 0) s!"--{budget.1} must be greater than zero"

def checkOrder : Except String Unit :=
  match c.startHeight, c.endHeight with
  | some start, some stop => ensure (start ≤ stop)
      s!"--end-height ({stop.toNat}) is below --start-height ({start.toNat})"
  | _, _ => .ok ()

def validate : Except String Unit := do
  let _ ← (c.budgets parallelism).mapM checkBudget
  ensure (c.heights.all fun h => h.toNat ≤ maxValue 63) "block heights must fit PostgreSQL bigint"
  ensure (!(c.ingestOnly && c.unfinalizedBlocks)) "--ingest-only currently requires finalized blocks"
  c.checkOrder
  ensure (!(c.unfinalizedBlocks && !c.historical.isEnabled))
    "--unfinalized-blocks requires entity history for rewind; remove --historical disabled"
  ensure (c.batchSize ≤ c.queueCapacity)
    (s!"--queue-capacity ({c.queueCapacity.toNat}) is below --batch-size ({c.batchSize.toNat}), " ++
      "which would stall the dispatcher")

structure Sound (c : NodeConfig) (parallelism : Nat) : Prop where
  budgets : ∀ budget ∈ c.budgets parallelism, 0 < budget.2
  heights : ∀ h ∈ c.heights, h.toNat ≤ maxValue 63
  finalized : c.ingestOnly = true → c.unfinalizedBlocks = false
  ordered : ∀ start stop, c.startHeight = some start → c.endHeight = some stop → start ≤ stop
  rewindable : c.unfinalizedBlocks = true → c.historical.isEnabled = true
  roomy : c.batchSize ≤ c.queueCapacity

section Valid
variable {c : NodeConfig} {parallelism : Nat}

theorem checkOrder_eq_ok : c.checkOrder = .ok () ↔
    ∀ start stop, c.startHeight = some start → c.endHeight = some stop → start ≤ stop := by
  rw [checkOrder]
  cases c.startHeight <;> cases c.endHeight <;> simp

theorem checkBudgets_eq_ok : (∃ done, (c.budgets parallelism).mapM checkBudget = .ok done) ↔
    ∀ budget ∈ c.budgets parallelism, 0 < budget.2 := by
  simp only [mapM_eq_ok, exists_forall₂]
  refine forall₂_congr fun budget _ => ?_
  simp [checkBudget, Nat.pos_iff_ne_zero]

theorem validate_eq_ok : c.validate parallelism = .ok () ↔ c.Sound parallelism := by
  constructor
  · intro h
    obtain ⟨done, hbudgets, h⟩ := bind_eq_ok.mp h
    obtain ⟨_, hheights, h⟩ := bind_eq_ok.mp h
    obtain ⟨_, hfinalized, h⟩ := bind_eq_ok.mp h
    obtain ⟨_, hordered, h⟩ := bind_eq_ok.mp h
    obtain ⟨_, hrewindable, h⟩ := bind_eq_ok.mp h
    simp only [ensure_eq_ok, List.all_eq_true, decide_eq_true_eq, Bool.not_eq_true',
      Bool.and_eq_false_iff] at hheights hfinalized hrewindable h
    refine ⟨checkBudgets_eq_ok.mp ⟨done, hbudgets⟩, hheights, fun hi => ?_,
      checkOrder_eq_ok.mp hordered, fun hu => ?_, h⟩
    · simpa [hi] using hfinalized
    · simpa [hu] using hrewindable
  · intro h
    obtain ⟨done, hbudgets⟩ := checkBudgets_eq_ok.mpr h.budgets
    refine bind_eq_ok.mpr ⟨done, hbudgets, bind_eq_ok.mpr ⟨⟨⟩, ?_, bind_eq_ok.mpr
      ⟨⟨⟩, ?_, bind_eq_ok.mpr ⟨⟨⟩, checkOrder_eq_ok.mpr h.ordered, bind_eq_ok.mpr
        ⟨⟨⟩, ?_, ensure_eq_ok.mpr (decide_eq_true h.roomy)⟩⟩⟩⟩⟩
    · exact ensure_eq_ok.mpr (List.all_eq_true.mpr fun x hx => decide_eq_true (h.heights x hx))
    · have hfinalized := h.finalized
      cases hi : c.ingestOnly <;> simp_all
    · have hrewindable := h.rewindable
      cases hu : c.unfinalizedBlocks <;> simp_all

end Valid
end NodeConfig

end SuperqueryNode.Config

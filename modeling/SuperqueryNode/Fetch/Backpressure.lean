import SuperqueryNode.Lib.Unsigned

namespace SuperqueryNode.Fetch
open Unsigned

structure Backpressure where
  maxInFlight : Nat
  queueCapacity : Nat
deriving DecidableEq, Repr

namespace Backpressure

def new (maxInFlight queueCapacity : Nat) : Backpressure := ⟨max maxInFlight 1, max queueCapacity 1⟩

def available (bp : Backpressure) (inFlight queued : Nat) : Nat :=
  min (bp.maxInFlight - inFlight) (bp.queueCapacity - saturatingAdd 32 queued inFlight)

def clampBatch (bp : Backpressure) (desired inFlight queued : Nat) : Nat :=
  min desired (bp.available inFlight queued)

theorem clampBatch_fits (bp : Backpressure) (desired : Nat) {inFlight queued : Nat}
    (hcap : bp.queueCapacity ≤ maxValue 32) (hflight : inFlight ≤ bp.maxInFlight)
    (hqueue : inFlight + queued ≤ bp.queueCapacity) :
    inFlight + bp.clampBatch desired inFlight queued ≤ bp.maxInFlight ∧
      inFlight + queued + bp.clampBatch desired inFlight queued ≤ bp.queueCapacity := by
  unfold clampBatch available
  rw [saturatingAdd_of_le (by omega)]
  omega

theorem clampBatch_idle (maxInFlight queueCapacity : Nat) {desired : Nat} (hd : 1 ≤ desired) :
    1 ≤ (new maxInFlight queueCapacity).clampBatch desired 0 0 := by
  have hsat : saturatingAdd 32 0 0 = 0 := saturatingAdd_of_le (Nat.zero_le _)
  simp only [clampBatch, available, hsat, new]
  omega

end Backpressure
end SuperqueryNode.Fetch

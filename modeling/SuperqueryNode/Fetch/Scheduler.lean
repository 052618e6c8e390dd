import SuperqueryNode.Lib.Fallible
import SuperqueryNode.Core.Error
import SuperqueryNode.Fetch.Backpressure
import SuperqueryNode.Fetch.Range

namespace SuperqueryNode.Fetch
open Unsigned Enumeration Fallible ChainApi

structure SchedulerConfig where
  startHeight : Nat
  endHeight : Option Nat
  batchSize : Nat
  indexUnfinalized : Bool
  finalityConfirmations : Nat
  backpressure : Backpressure
  start_le : startHeight ≤ maxValue 64
  end_le : ∀ e ∈ endHeight, e ≤ maxValue 64

def SchedulerConfig.last (config : SchedulerConfig) : Nat := config.endHeight.getD (maxValue 64)

theorem SchedulerConfig.last_le (config : SchedulerConfig) : config.last ≤ maxValue 64 := by
  rw [last]
  cases he : config.endHeight with
  | none => exact le_refl _
  | some e => exact config.end_le e he

theorem SchedulerConfig.last_le_end (config : SchedulerConfig) {e : Nat}
    (he : e ∈ config.endHeight) : config.last ≤ e := by
  rw [last, Option.mem_def.mp he, Option.getD_some]

theorem SchedulerConfig.ceiling_le_last (config : SchedulerConfig) {head : Nat}
    (hhead : head ≤ maxValue 64) : RangePlan.ceilingOf head config.endHeight ≤ config.last := by
  rw [last]
  cases config.endHeight with
  | none => exact hhead
  | some e => exact Nat.min_le_right _ _

structure FetchScheduler where
  config : SchedulerConfig
  plan : RangePlan
  nextHeight : Nat
  exhausted : Bool
  pending : List Nat

namespace FetchScheduler

def new (config : SchedulerConfig) (plan : RangePlan) : FetchScheduler where
  config := config
  plan := plan
  nextHeight := config.startHeight
  exhausted := false
  pending := []

def resumeFrom (s : FetchScheduler) (lastIndexed : Nat) : FetchScheduler :=
  { s with
    exhausted := lastIndexed == maxValue 64
    nextHeight := max (saturatingAdd 64 lastIndexed 1) s.config.startHeight
    pending := [] }

def safeHead (s : FetchScheduler) (latest finalized : Except ChainError UInt64) :
    Except CoreError Nat := do
  let latest ← latest.mapError .chain
  let finalized ← finalized.mapError .chain
  return Fetch.safeHead latest.toNat finalized.toNat s.config.indexUnfinalized
    s.config.finalityConfirmations

def isComplete (s : FetchScheduler) : Bool :=
  s.exhausted || (s.pending.isEmpty && s.config.endHeight.any fun e =>
    (s.plan.nextBatch s.nextHeight e s.config.batchSize (some e)).isNone)

def nextHeights (s : FetchScheduler) (inFlight queued : Nat)
    (latest finalized : Except ChainError UInt64) : Except CoreError (List Nat × FetchScheduler) :=
  if s.isComplete then .ok ([], s)
  else
    let budget := s.config.backpressure.clampBatch s.config.batchSize inFlight queued
    if budget = 0 then .ok ([], s)
    else if s.pending.isEmpty then do
      let head ← s.safeHead latest finalized
      match s.plan.nextBatch s.nextHeight head budget s.config.endHeight with
      | none => return ([], s)
      | some range => return (s.plan.heightsIn range, { s with pending := s.plan.heightsIn range })
    else .ok (s.pending.take budget, s)

def acknowledge (s : FetchScheduler) (height : Nat) : Except CoreError FetchScheduler :=
  if s.pending.head? ≠ some height then .error (.other "out-of-order scheduler acknowledgement")
  else
    .ok { s with
      pending := s.pending.tail
      exhausted := height == maxValue 64
      nextHeight := saturatingAdd 64 height 1 }

end FetchScheduler

section FetchNext
variable {B : Type}

def fetchOne (fetchBlock : Nat → Except ChainError (GenericBlock B)) (height : Nat) :
    Except CoreError (GenericBlock B) := do
  let block ← (fetchBlock height).mapError .chain
  if block.header.height ≠ height then .error (.other "adapter returned the wrong block height")
  else return block

def consistent : List (GenericBlock B) → Bool
  | a :: b :: rest => b.header.isChildOf a.header && consistent (b :: rest)
  | _ => true

def fetchNext (fetchBlock : Nat → Except ChainError (GenericBlock B)) (heights : List Nat) :
    Except CoreError (List (GenericBlock B)) := do
  let blocks ← heights.mapM (fetchOne fetchBlock)
  if consistent blocks then return blocks
  else .error (.other "fetched batch contains inconsistent parent hashes")

theorem fetchOne_height {fetchBlock : Nat → Except ChainError (GenericBlock B)} {height : Nat}
    {block : GenericBlock B} (h : fetchOne fetchBlock height = .ok block) :
    block.header.height = height := by
  obtain ⟨b, _, hb⟩ := bind_eq_ok.mp h
  simp only [ite_error_eq_ok, pure_eq_ok, not_not] at hb
  exact hb.2 ▸ hb.1

theorem fetchNext_heights {fetchBlock : Nat → Except ChainError (GenericBlock B)}
    {heights : List Nat} {blocks : List (GenericBlock B)}
    (h : fetchNext fetchBlock heights = .ok blocks) :
    blocks.map (·.header.height) = heights := by
  obtain ⟨bs, hm, hbs⟩ := bind_eq_ok.mp h
  simp only [ite_ok_eq_ok, pure_eq_ok] at hbs
  rw [← hbs.2, map_eq_of_mapM hm fun _ _ => fetchOne_height, List.map_id']

end FetchNext

namespace FetchScheduler

def remaining (s : FetchScheduler) (cursor : Nat) : List Nat :=
  enumerate s.plan.legal cursor s.config.last

structure Positioned (s : FetchScheduler) (cursor : Nat) : Prop where
  wellFormed : s.plan.WellFormed
  next : s.nextHeight = min cursor (maxValue 64)
  exhausted : s.exhausted = decide (maxValue 64 < cursor)
  pending : s.pending <+: s.remaining cursor

variable {s : FetchScheduler} {cursor : Nat}

theorem remaining_congr {t : FetchScheduler} (hc : t.config = s.config) (hp : t.plan = s.plan)
    (cursor : Nat) : t.remaining cursor = s.remaining cursor := by
  unfold remaining
  rw [hc, hp]

theorem positioned_new (config : SchedulerConfig) {plan : RangePlan} (hw : plan.WellFormed) :
    (new config plan).Positioned config.startHeight where
  wellFormed := hw
  next := (Nat.min_eq_left config.start_le).symm
  exhausted := by
    have := config.start_le
    simp [new]
    omega
  pending := List.nil_prefix

theorem positioned_resumeFrom (hw : s.plan.WellFormed) {lastIndexed : Nat}
    (hlast : lastIndexed ≤ maxValue 64) (hstart : s.config.startHeight ≤ lastIndexed + 1) :
    (s.resumeFrom lastIndexed).Positioned (lastIndexed + 1) where
  wellFormed := hw
  next := by
    have := s.config.start_le
    simp only [resumeFrom, saturatingAdd]
    omega
  exhausted := by
    simp only [resumeFrom, beq_eq_decide, decide_eq_decide]
    omega
  pending := List.nil_prefix

theorem Positioned.remaining_exhausted (hs : s.Positioned cursor) (hx : s.exhausted = true) :
    s.remaining cursor = [] := by
  have hlast := s.config.last_le
  rw [hs.exhausted, decide_eq_true_eq] at hx
  exact enumerate_of_lt (by omega)

theorem Positioned.next_eq (hs : s.Positioned cursor) (hx : s.exhausted = false) :
    s.nextHeight = cursor := by
  have hnext := hs.next
  rw [hs.exhausted, decide_eq_false_iff_not] at hx
  omega

theorem Positioned.complete (hs : s.Positioned cursor) (hb : 0 < s.config.batchSize)
    (hc : s.isComplete = true) : s.remaining cursor = [] := by
  cases hx : s.exhausted with
  | true => exact hs.remaining_exhausted hx
  | false =>
    simp only [isComplete, hx, Bool.false_or, Bool.and_eq_true, Option.any_eq_true,
      Option.isNone_iff_eq_none] at hc
    obtain ⟨_, e, he, hnone⟩ := hc
    have hceil : RangePlan.ceilingOf e (some e) ≤ maxValue 64 :=
      (Nat.min_le_left e e).trans (s.config.end_le e he)
    rcases (RangePlan.nextBatch_eq_none hs.wellFormed hceil).mp hnone with hz | hall
    · omega
    · rw [hs.next_eq hx] at hall
      have hlast : s.config.last = e := by
        rw [SchedulerConfig.last, he, Option.getD_some]
      refine enumerate_eq_nil fun x hcx hxe => RangePlan.legal_eq_false.mpr (hall x hcx ?_)
      rw [hlast] at hxe
      exact Nat.le_min.mpr ⟨hxe, hxe⟩

theorem Positioned.acknowledge (hs : s.Positioned cursor) {height : Nat} {rest : List Nat}
    (hp : s.pending = height :: rest) :
    ∃ t, s.acknowledge height = .ok t ∧ t.Positioned (height + 1) ∧ t.config = s.config ∧
      t.plan = s.plan ∧ t.pending = rest ∧
      s.remaining cursor = height :: s.remaining (height + 1) := by
  obtain ⟨tail, htail⟩ := hs.pending
  rw [hp, List.cons_append] at htail
  obtain ⟨⟨_, hle, _⟩, hrest⟩ := enumerate_uncons htail.symm
  have hmax := hle.trans s.config.last_le
  refine ⟨{ s with
    pending := rest
    exhausted := height == maxValue 64
    nextHeight := saturatingAdd 64 height 1 }, ?_, ?_, rfl, rfl, rfl, ?_⟩
  · simp [FetchScheduler.acknowledge, hp]
  · refine ⟨hs.wellFormed, rfl, ?_, ?_⟩
    · simp only [beq_eq_decide, decide_eq_decide]
      omega
    · exact ⟨tail, hrest⟩
  · rw [← htail, hrest]
    rfl

theorem safeHead_le {latest finalized : Except ChainError UInt64} {head : Nat}
    (h : s.safeHead latest finalized = .ok head) : head ≤ maxValue 64 := by
  obtain ⟨l, _, h⟩ := bind_eq_ok.mp h
  obtain ⟨f, _, h⟩ := bind_eq_ok.mp h
  rw [← pure_eq_ok.mp h]
  have := l.toNat_lt
  exact (Fetch.safeHead_le _ _ _ _).trans (by unfold maxValue; omega)

structure Extended (s : FetchScheduler) (latest finalized : Except ChainError UInt64)
    (hs : List Nat) (t : FetchScheduler) : Prop where
  config : t.config = s.config
  plan : t.plan = s.plan
  proposed : hs <+: t.pending
  planned : t.pending = s.pending ∨ s.pending = [] ∧
    ∃ head, s.safeHead latest finalized = .ok head ∧ ∀ h ∈ t.pending, h ≤ head

theorem Positioned.nextHeights (hs : s.Positioned cursor) {inFlight queued : Nat}
    {latest finalized : Except ChainError UInt64} {heights : List Nat} {t : FetchScheduler}
    (h : s.nextHeights inFlight queued latest finalized = .ok (heights, t)) :
    t.Positioned cursor ∧ Extended s latest finalized heights t := by
  have hkeep : s.Positioned cursor ∧ Extended s latest finalized [] s :=
    ⟨hs, rfl, rfl, List.nil_prefix, .inl rfl⟩
  simp only [FetchScheduler.nextHeights] at h
  split at h
  · cases h
    exact hkeep
  next hc =>
  split at h
  · cases h
    exact hkeep
  split at h
  next hp =>
    obtain ⟨head, hhead, h⟩ := bind_eq_ok.mp h
    split at h
    · cases h
      exact hkeep
    next range hbatch =>
      cases h
      have hx : s.exhausted = false := by
        simp only [isComplete, Bool.or_eq_true, not_or, Bool.not_eq_true] at hc
        exact hc.1
      have hceil : RangePlan.ceilingOf head s.config.endHeight ≤ maxValue 64 :=
        (RangePlan.ceilingOf_le_head _ _).trans (safeHead_le hhead)
      have hplanned := RangePlan.nextBatch_some hs.wellFormed hceil hbatch
      rw [hs.next_eq hx] at hplanned
      refine ⟨⟨hs.wellFormed, hs.next, hs.exhausted,
        RangePlan.heightsIn_prefix hplanned (hplanned.capped.trans ?_)⟩,
        rfl, rfl, List.prefix_refl _, .inr ⟨List.isEmpty_iff.mp hp, head, hhead, ?_⟩⟩
      · exact s.config.ceiling_le_last (safeHead_le hhead)
      · intro x hx
        exact (RangePlan.le_of_mem_heightsIn hx).trans
          (hplanned.capped.trans (RangePlan.ceilingOf_le_head _ _))
  · cases h
    exact ⟨hs, rfl, rfl, List.take_prefix _ _, .inl rfl⟩

end FetchScheduler
end SuperqueryNode.Fetch

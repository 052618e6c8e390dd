import SuperqueryNode.Lib.LabelledRun
import SuperqueryNode.Fetch.Range
import SuperqueryNode.Fetch.Backpressure
import SuperqueryNode.Dispatcher.RunContract

namespace SuperqueryNode.Pipeline
open Unsigned Assoc Enumeration LabelledRun Fetch Dispatcher

structure Flow (T : Type) where
  next : Nat
  inFlight : List Nat
  session : Session T

inductive Action (T : Type) where
  | plan (head : Nat)
  | complete (height : Nat) (value : T)

structure Limits where
  backpressure : Backpressure
  batchSize : Nat

namespace Flow
variable {T : Type}

def start (startHeight capacity : Nat) : Flow T := ⟨startHeight, [], .start startHeight capacity⟩

def pendingCount (s : Flow T) : Nat := s.session.buffer.pendingCount

def budget (limits : Limits) (s : Flow T) : Nat :=
  limits.backpressure.clampBatch limits.batchSize s.inFlight.length s.pendingCount

def step (limits : Limits) (s : Flow T) : Action T → Option (Flow T)
  | .plan head =>
    if head < maxValue 64 then
      match RangePlan.new.nextBatch s.next head (s.budget limits) none with
      | some r =>
        some { s with next := r.stop + 1, inFlight := s.inFlight ++ RangePlan.new.heightsIn r }
      | none => some s
    else none
  | .complete height value =>
    if height ∈ s.inFlight then
      some { s with
        inFlight := s.inFlight.erase height
        session := s.session.call (.completeFrom s.session.buffer.generation height value) }
    else none

structure Invariant (limits : Limits) (startHeight : Nat) (s : Flow T) : Prop where
  settled : s.session.Settled
  resume : s.session.resume = startHeight
  begun : startHeight ≤ s.next
  bounded : s.next ≤ maxValue 64
  moved : (s.inFlight ++ s.session.delivered.map Prod.fst).Perm
    (List.range' startHeight (s.next - startHeight))
  flight : s.inFlight.length ≤ limits.backpressure.maxInFlight
  queue : s.inFlight.length + s.pendingCount ≤ limits.backpressure.queueCapacity

theorem invariant_start {limits : Limits} {startHeight : Nat} (hstart : startHeight < maxValue 64)
    (capacity : Nat) : Invariant limits startHeight (start startHeight capacity : Flow T) where
  settled := Session.settled_start hstart capacity
  resume := rfl
  begun := le_refl _
  bounded := le_of_lt hstart
  moved := by simp [start, Session.start]
  flight := Nat.zero_le _
  queue := Nat.zero_le _

section Steps
variable {limits : Limits} {startHeight : Nat} {s t : Flow T}

theorem invariant_plan (hcap : limits.backpressure.queueCapacity ≤ maxValue 32)
    (hs : Invariant limits startHeight s) {head : Nat}
    (h : step limits s (.plan head) = some t) : Invariant limits startHeight t := by
  simp only [step, Option.ite_none_right_eq_some] at h
  obtain ⟨hhead, h⟩ := h
  cases hbatch : RangePlan.new.nextBatch s.next head (s.budget limits) none with
  | none =>
    rw [hbatch] at h
    exact Option.some.inj h ▸ hs
  | some r =>
    rw [hbatch, Option.some.injEq] at h
    subst h
    have hc : RangePlan.ceilingOf head none ≤ maxValue 64 := le_of_lt hhead
    have hp := RangePlan.nextBatch_some RangePlan.new_wellFormed hc hbatch
    have hstart : r.start = s.next := by
      by_contra hne
      have hahead := hp.ahead
      have hskip := hp.skipped s.next (le_refl _) (by omega)
      cases hskip
    have hne := hp.nonempty
    have hstop : r.stop ≤ head := hp.capped
    have hlist : RangePlan.new.heightsIn r = List.range' s.next (r.stop + 1 - s.next) := by
      rw [RangePlan.heightsIn_planned hp, hstart]
    have hlen : (RangePlan.new.heightsIn r).length ≤ s.budget limits := by
      rw [hlist, List.length_range']
      have hsized := hp.sized
      omega
    have hfits := limits.backpressure.clampBatch_fits limits.batchSize hcap hs.flight hs.queue
    have hbegun := hs.begun
    refine ⟨hs.settled, hs.resume, ?_, ?_, ?_, ?_, ?_⟩
    · simp only
      omega
    · simp only
      omega
    · have hsplit : r.stop + 1 - startHeight =
          (s.next - startHeight) + (r.stop + 1 - s.next) := by omega
      simp only
      rw [hsplit, ← List.range'_append_1, show startHeight + (s.next - startHeight) = s.next by omega,
        ← hlist]
      refine List.Perm.trans ?_ (hs.moved.append_right _)
      rw [List.append_assoc, List.append_assoc]
      exact List.perm_append_comm.append_left _
    · simp only [List.length_append]
      rw [budget] at hlen
      omega
    · simp only [List.length_append, pendingCount] at hfits ⊢
      unfold budget pendingCount at hlen
      omega

theorem completed_keys (hs : Invariant limits startHeight s) {height : Nat} (value : T)
    (hmem : height ∈ s.inFlight) :
    (s.inFlight.erase height ++ (s.session.delivered ++ [(height, value)]).map Prod.fst).Perm
      (List.range' startHeight (s.next - startHeight)) := by
  refine List.Perm.trans ?_ hs.moved
  rw [List.map_append, ← List.append_assoc]
  refine List.perm_append_comm.trans ?_
  exact (List.perm_cons_erase hmem).symm.append_right _

theorem invariant_complete (hs : Invariant limits startHeight s) {height : Nat} {value : T}
    (h : step limits s (.complete height value) = some t) : Invariant limits startHeight t := by
  simp only [step, Option.ite_none_right_eq_some, Option.some.injEq] at h
  obtain ⟨hmem, rfl⟩ := h
  have hkeys := completed_keys hs value hmem
  have hrange : height ∈ List.range' startHeight (s.next - startHeight) :=
    hs.moved.mem_iff.mp (List.mem_append_left _ hmem)
  have hbounded := hs.bounded
  have hlt : height < maxValue 64 := by
    have := List.mem_range'_1.mp hrange
    omega
  have hdel : (s.session.call (.completeFrom s.session.buffer.generation height value)).delivered =
      s.session.delivered ++ [(height, value)] := if_pos rfl
  have hnodup : ((s.session.delivered ++ [(height, value)]).map Prod.fst).Nodup := by
    have := hkeys.nodup_iff.mpr List.nodup_range'
    exact (List.nodup_append.mp this).2.1
  have hlen : (s.inFlight.erase height).length + 1 = s.inFlight.length := by
    rw [List.length_erase_of_mem hmem]
    have := List.length_pos_of_mem hmem
    omega
  have hpend := s.session.buffer.completeFrom_pendingCount s.session.buffer.generation height value
  have hflight := hs.flight
  have hqueue := hs.queue
  refine ⟨Session.settled_complete hs.settled hlt ?_, hs.resume, hs.begun, hs.bounded, ?_, ?_, ?_⟩
  · rw [hdel]
    exact .of_keys_nodup hnodup
  · simp only
    rw [hdel]
    exact hkeys
  · simp only
    omega
  · simp only [pendingCount, Session.call] at hqueue ⊢
    omega

theorem invariant_step (hcap : limits.backpressure.queueCapacity ≤ maxValue 32)
    (hs : Invariant limits startHeight s) {a : Action T} (h : step limits s a = some t) :
    Invariant limits startHeight t := by
  cases a with
  | plan head => exact invariant_plan hcap hs h
  | complete height value => exact invariant_complete hs h

theorem Invariant.partition (hs : Invariant limits startHeight s) :
    (s.inFlight ++ s.session.buffer.pendingHeights ++ s.session.released.map Prod.fst).Perm
      (List.range' startHeight (s.next - startHeight)) := by
  refine List.Perm.trans ?_ hs.moved
  rw [List.append_assoc]
  refine List.Perm.append_left _ ?_
  have hnodup : (s.inFlight ++ s.session.delivered.map Prod.fst).Nodup :=
    hs.moved.nodup_iff.mpr List.nodup_range'
  have hpending : ∀ h, h ∈ s.session.buffer.pendingHeights ↔
      h ∈ s.session.delivered.map Prod.fst ∧ s.session.buffer.nextExpected ≤ h := fun h => by
    rw [← hs.settled.pending_iff]
    exact Std.ExtTreeMap.mem_keys
  have hreleased : ∀ h, h ∈ s.session.released.map Prod.fst ↔
      h ∈ s.session.delivered.map Prod.fst ∧ h < s.session.buffer.nextExpected := by
    intro h
    constructor
    · intro hh
      obtain ⟨q, hq, rfl⟩ := List.mem_map.mp hh
      exact ⟨List.mem_map_of_mem (hs.settled.fromDelivered q hq), (hs.settled.released_bounds hq).2⟩
    · rintro ⟨hh, hlt⟩
      have hlow := List.mem_range'_1.mp (hs.moved.mem_iff.mp (List.mem_append_right _ hh))
      have hcur := hs.settled.cursor
      have hres := hs.resume
      rw [hs.settled.inOrder, List.mem_range'_1]
      omega
  rw [List.perm_ext_iff_of_nodup ?_ (List.nodup_append.mp hnodup).2.1]
  · intro h
    rw [List.mem_append, hpending, hreleased]
    constructor
    · rintro (⟨hh, _⟩ | ⟨hh, _⟩) <;> exact hh
    · intro hh
      rcases Nat.lt_or_ge h s.session.buffer.nextExpected with hlt | hge
      · exact .inr ⟨hh, hlt⟩
      · exact .inl ⟨hh, hge⟩
  · rw [List.nodup_append]
    refine ⟨OrderedCommitBuffer.pendingHeights_nodup _, ?_, ?_⟩
    · rw [hs.settled.inOrder]
      exact List.nodup_range'
    · rintro a ha b hb rfl
      have := ((hpending a).mp ha).2
      have := ((hreleased a).mp hb).2
      omega

theorem Invariant.idle_empty (hs : Invariant limits startHeight s) (hidle : s.inFlight = []) :
    s.pendingCount = 0 := by
  have hmoved := hs.moved
  rw [hidle, List.nil_append] at hmoved
  have hcur : s.next ≤ s.session.buffer.nextExpected := by
    by_contra hlt
    have hgap := hs.settled.cursor_firstMissing
    have hnot := firstMissing_notMem (s.session.delivered.map Prod.fst) s.session.resume
    have hle := le_firstMissing (s.session.delivered.map Prod.fst) s.session.resume
    rw [← hgap] at hnot hle
    apply hnot
    rw [hmoved.mem_iff, List.mem_range'_1]
    have := hs.resume
    omega
  rw [pendingCount, OrderedCommitBuffer.pendingCount, KeyedMap.size_eq_zero_iff]
  intro h hh
  obtain ⟨hd, hle⟩ := hs.settled.pending_iff.mp hh
  have := List.mem_range'_1.mp (hmoved.mem_iff.mp hd)
  have := hs.begun
  omega

end Steps

theorem bounded_and_deadlock_free (maxInFlight queueCapacity batchSize startHeight capacity : Nat)
    (hqueue : queueCapacity ≤ maxValue 32) (hstart : startHeight < maxValue 64)
    (actions : List (Action T)) (s : Flow T)
    (hrun : run (step ⟨.new maxInFlight queueCapacity, batchSize⟩) (start startHeight capacity)
      actions = some s) :
    let bp := Backpressure.new maxInFlight queueCapacity
    (s.inFlight.length ≤ bp.maxInFlight ∧
      s.inFlight.length + s.pendingCount ≤ bp.queueCapacity) ∧
    (startHeight ≤ s.next ∧
      (s.inFlight ++ s.session.buffer.pendingHeights ++ s.session.released.map Prod.fst).Perm
        (List.range' startHeight (s.next - startHeight))) ∧
    (s.inFlight = [] → s.pendingCount = 0 ∧
      (1 ≤ batchSize → 1 ≤ bp.clampBatch batchSize s.inFlight.length s.pendingCount ∧
        ∀ head, s.next ≤ head → head < maxValue 64 →
          ∃ r, RangePlan.new.nextBatch s.next head
            (bp.clampBatch batchSize s.inFlight.length s.pendingCount) none = some r)) := by
  have hcap : (Backpressure.new maxInFlight queueCapacity).queueCapacity ≤ maxValue 32 :=
    max_le hqueue (by decide)
  have hs : Invariant ⟨.new maxInFlight queueCapacity, batchSize⟩ startHeight s :=
    run_invariant (fun _ _ _ hs h => invariant_step hcap hs h) (invariant_start hstart capacity) hrun
  refine ⟨⟨hs.flight, hs.queue⟩, ⟨hs.begun, hs.partition⟩, fun hidle => ?_⟩
  have hempty := hs.idle_empty hidle
  refine ⟨hempty, fun hb => ?_⟩
  have hbudget := Backpressure.clampBatch_idle maxInFlight queueCapacity hb
  rw [hidle, hempty]
  refine ⟨hbudget, fun head hhead hmax => ?_⟩
  have hc : RangePlan.ceilingOf head none ≤ maxValue 64 := le_of_lt hmax
  rw [← Option.ne_none_iff_exists', Ne,
    RangePlan.nextBatch_eq_none RangePlan.new_wellFormed hc]
  rintro (hz | hall)
  · simp only [List.length_nil] at hz
    omega
  · have := hall s.next (le_refl _) hhead
    cases this

theorem out_of_order_run_bounded :
    ∃ s, run (step ⟨.new 2 3, 5⟩) (start 100 16)
        [.plan 1000, .complete 101 7, .plan 1000, .complete 100 6] = some s ∧
      s.inFlight.length + s.pendingCount ≤ 3 := by
  obtain ⟨s, hs⟩ := Option.isSome_iff_exists.mp (by decide : (run (step ⟨.new 2 3, 5⟩)
    (start 100 16) [.plan 1000, .complete 101 7, .plan 1000, .complete 100 6]).isSome = true)
  exact ⟨s, hs, (bounded_and_deadlock_free 2 3 5 100 16 (by decide) (by decide) _ s hs).1.2⟩

end Flow
end SuperqueryNode.Pipeline

import Mathlib.Data.List.Induction
import SuperqueryNode.Fetch.Range
import SuperqueryNode.Dispatcher.RunContract

namespace SuperqueryNode.Pipeline
open Unsigned Assoc Enumeration Fetch Dispatcher

def planFrom (plan : RangePlan) (head batchSize : Nat) : Nat → Nat → List Nat
  | 0, _ => []
  | turns + 1, nextHeight =>
    match plan.nextBatch nextHeight head batchSize none with
    | none => []
    | some r => plan.heightsIn r ++ planFrom plan head batchSize turns (r.stop + 1)

def plannedHeights (plan : RangePlan) (startHeight head batchSize : Nat) : List Nat :=
  planFrom plan head batchSize (head + 1 - startHeight) startHeight

def deliver {T : Type} (startHeight capacity : Nat) (value : Nat → T) (order : List Nat) :
    Session T :=
  Session.run startHeight capacity (order.map fun h => .completeFrom 0 h (value h))

theorem planFrom_eq {plan : RangePlan} (hw : plan.WellFormed) {head batchSize : Nat}
    (hhead : head ≤ maxValue 64) (hb : 0 < batchSize) {turns nextHeight : Nat}
    (hturns : head + 1 - nextHeight ≤ turns) :
    planFrom plan head batchSize turns nextHeight = enumerate plan.legal nextHeight head := by
  induction turns generalizing nextHeight with
  | zero => exact (enumerate_of_lt (by omega)).symm
  | succ turns ih =>
    have hceil : RangePlan.ceilingOf head none ≤ maxValue 64 := hhead
    rw [planFrom]
    cases hbatch : plan.nextBatch nextHeight head batchSize none with
    | none =>
      rcases (RangePlan.nextBatch_eq_none hw hceil).mp hbatch with hz | hall
      · omega
      · exact (enumerate_eq_nil fun x hx hxe => RangePlan.legal_eq_false.mpr (hall x hx hxe)).symm
    | some r =>
      have hp := RangePlan.nextBatch_some hw hceil hbatch
      have hahead := hp.ahead
      have hne := hp.nonempty
      have hcap : r.stop ≤ head := hp.capped
      simp only
      rw [RangePlan.enumerate_planned hp hcap, ih (by omega)]

theorem plannedHeights_eq {plan : RangePlan} (hw : plan.WellFormed) {head batchSize : Nat}
    (hhead : head ≤ maxValue 64) (hb : 0 < batchSize) (startHeight : Nat) :
    plannedHeights plan startHeight head batchSize = enumerate plan.legal startHeight head :=
  planFrom_eq hw hhead hb (le_refl _)

theorem plannedHeights_zero (plan : RangePlan) (startHeight head : Nat) :
    plannedHeights plan startHeight head 0 = [] := by
  rw [plannedHeights]
  cases head + 1 - startHeight with
  | zero => rfl
  | succ turns => simp [planFrom, RangePlan.nextBatch]

theorem deliver_trace {T : Type} (startHeight capacity : Nat) (value : Nat → T)
    (order : List Nat) :
    (deliver startHeight capacity value order).resume = startHeight ∧
    (deliver startHeight capacity value order).buffer.generation = 0 ∧
    (deliver startHeight capacity value order).delivered = order.map fun h => (h, value h) := by
  induction order using List.reverseRecOn with
  | nil => exact ⟨rfl, rfl, rfl⟩
  | append_singleton order h ih =>
    obtain ⟨hresume, hgen, hdel⟩ := ih
    have hstep : deliver startHeight capacity value (order ++ [h]) =
        (deliver startHeight capacity value order).call (.completeFrom 0 h (value h)) := by
      simp [deliver, Session.run]
    rw [hstep]
    refine ⟨hresume, ?_, ?_⟩
    · rw [Session.call, OrderedCommitBuffer.completeFrom_generation, hgen]
    · simp [Session.call, hgen, hdel]

theorem functional_graph {T : Type} (value : Nat → T) (order : List Nat) :
    Functional (order.map fun h => (h, value h)) := by
  intro h v w hv hw
  simp only [List.mem_map, Prod.mk.injEq] at hv hw
  obtain ⟨x, _, rfl, rfl⟩ := hv
  obtain ⟨y, _, rfl, rfl⟩ := hw
  rfl

theorem settled_deliver {T : Type} {startHeight : Nat} (hstart : startHeight < maxValue 64)
    (capacity : Nat) (value : Nat → T) {order : List Nat} (horder : ∀ h ∈ order, h < maxValue 64) :
    Session.Settled (deliver startHeight capacity value order) := by
  refine Session.settled_run hstart ?_ ?_
  · intro c hc
    obtain ⟨h, hh, rfl⟩ := List.mem_map.mp hc
    exact horder h hh
  · have htrace := (deliver_trace startHeight capacity value order).2.2
    rw [deliver] at htrace
    rw [htrace]
    exact functional_graph value order

def GapFree (plan : RangePlan) (startHeight head : Nat) : Prop :=
  ∀ h, startHeight ≤ h → h ≤ head → plan.isBypassed h = true →
    ∀ k, h < k → k ≤ head → plan.isBypassed k = true

section Delivery
variable {T : Type} {plan : RangePlan} {startHeight head capacity : Nat} {value : Nat → T}
  {order : List Nat}

theorem delivered_heights (startHeight capacity : Nat) (value : Nat → T) (order : List Nat) :
    (deliver startHeight capacity value order).delivered.map Prod.fst = order := by
  rw [(deliver_trace startHeight capacity value order).2.2]
  simp [Function.comp_def]

theorem released_of_gapFree (hs : Session.Settled (deliver startHeight capacity value order))
    (hmem : ∀ x, x ∈ order ↔ x ∈ enumerate plan.legal startHeight head)
    (hgap : GapFree plan startHeight head) :
    ∀ x ∈ order, x < (deliver startHeight capacity value order).buffer.nextExpected := by
  intro x hx
  obtain ⟨⟨hsx, hxh⟩, hlegal⟩ := mem_enumerate.mp ((hmem x).mp hx)
  rw [hs.cursor_firstMissing, delivered_heights, (deliver_trace _ _ _ _).1]
  by_contra hlt
  have hle := le_firstMissing order startHeight
  have hnot := firstMissing_notMem order startHeight
  generalize firstMissing order startHeight = n at hlt hle hnot
  have hnx : n ≠ x := by
    rintro rfl
    exact hnot hx
  have hbyp : plan.isBypassed n = true := by
    by_contra hb
    apply hnot
    rw [hmem, mem_enumerate]
    exact ⟨⟨hle, by omega⟩, by simpa [RangePlan.legal] using hb⟩
  rw [RangePlan.legal, hgap n hle (by omega) hbyp x (by omega) hxh] at hlegal
  cases hlegal

theorem gapFree_of_released (hs : Session.Settled (deliver startHeight capacity value order))
    (hrel : (deliver startHeight capacity value order).released.map Prod.fst =
      enumerate plan.legal startHeight head) : GapFree plan startHeight head := by
  intro h hsh hhh hbyp k hk hkh
  by_contra hleg
  have hkmem : k ∈ enumerate plan.legal startHeight head :=
    mem_enumerate.mpr ⟨⟨by omega, hkh⟩, by simpa [RangePlan.legal] using hleg⟩
  rw [hs.inOrder, (deliver_trace _ _ _ _).1] at hrel
  rw [← hrel, List.mem_range'_1] at hkmem
  have hhmem : h ∈ enumerate plan.legal startHeight head := by
    rw [← hrel, List.mem_range'_1]
    omega
  have hlegal := (mem_enumerate.mp hhmem).2
  rw [RangePlan.legal, hbyp] at hlegal
  cases hlegal

theorem released_all (hs : Session.Settled (deliver startHeight capacity value order))
    (hmem : ∀ x, x ∈ order ↔ x ∈ enumerate plan.legal startHeight head)
    (hall : ∀ x ∈ order, x < (deliver startHeight capacity value order).buffer.nextExpected) :
    (deliver startHeight capacity value order).released.map Prod.fst =
        enumerate plan.legal startHeight head ∧
      (deliver startHeight capacity value order).buffer.pendingCount = 0 := by
  have hdel := delivered_heights startHeight capacity value order
  have htrace := deliver_trace startHeight capacity value order
  constructor
  · refine eq_of_ascending (by rw [hs.inOrder]; exact List.pairwise_lt_range')
      (enumerate_ascending _ _ _) fun x => ?_
    rw [← hmem]
    constructor
    · intro hx
      obtain ⟨q, hq, rfl⟩ := List.mem_map.mp hx
      rw [← hdel]
      exact List.mem_map_of_mem (hs.fromDelivered q hq)
    · intro hx
      have hlow := (mem_enumerate.mp ((hmem x).mp hx)).1.1
      have hlt := hall x hx
      have hcur := hs.cursor
      rw [htrace.1] at hcur
      rw [hs.inOrder, htrace.1, List.mem_range'_1]
      omega
  · rw [OrderedCommitBuffer.pendingCount, KeyedMap.size_eq_zero_iff]
    intro h hh
    obtain ⟨hd, hle⟩ := hs.pending_iff.mp hh
    rw [hdel] at hd
    have := hall h hd
    omega

end Delivery

theorem planned_release_iff {T : Type} {plan : RangePlan} (hw : plan.WellFormed)
    {startHeight head : Nat} (batchSize capacity : Nat) (hstart : startHeight < maxValue 64)
    (hhead : head < maxValue 64) (value : Nat → T) {order : List Nat}
    (horder : order.Perm (plannedHeights plan startHeight head batchSize)) :
    ((deliver startHeight capacity value order).released.map Prod.fst =
        plannedHeights plan startHeight head batchSize ∧
      (deliver startHeight capacity value order).buffer.pendingCount = 0) ↔
    batchSize = 0 ∨ GapFree plan startHeight head := by
  rcases Nat.eq_zero_or_pos batchSize with rfl | hb
  · rw [plannedHeights_zero] at horder ⊢
    obtain rfl := horder.eq_nil
    exact iff_of_true ⟨rfl, rfl⟩ (.inl rfl)
  · rw [plannedHeights_eq hw (le_of_lt hhead) hb] at horder ⊢
    have hs : Session.Settled (deliver startHeight capacity value order) :=
      settled_deliver hstart capacity value fun h hh => by
        have := (mem_enumerate.mp (horder.mem_iff.mp hh)).1
        omega
    constructor
    · rintro ⟨hrel, _⟩
      exact .inr (gapFree_of_released hs hrel)
    · rintro (hz | hgap)
      · omega
      · exact released_all hs (fun _ => horder.mem_iff)
          (released_of_gapFree hs (fun _ => horder.mem_iff) hgap)

theorem trailing_bypass_released :
    let plan := RangePlan.new.addBypass 103 104
    (deliver 100 64 id [101, 102, 100]).released.map Prod.fst = plannedHeights plan 100 104 8 ∧
      (deliver 100 64 id [101, 102, 100]).buffer.pendingCount = 0 :=
  (planned_release_iff (by decide : (RangePlan.new.addBypass 103 104).WellFormed) 8 64 (by decide)
    (by decide) id (by decide)).mpr (.inr (by
      intro h _ hh hbyp k hk hkh
      have hb : h = 103 ∨ h = 104 := by
        obtain ⟨r, hr, hlo, hhi⟩ := RangePlan.isBypassed_iff.mp hbyp
        obtain rfl : r = ⟨103, 104⟩ := by
          simpa [RangePlan.addBypass, BlockRange.new, RangePlan.new] using hr
        simp only at hlo hhi
        omega
      obtain rfl : k = 104 := by omega
      rfl))

theorem interior_bypass_wedges_buffer :
    let plan := RangePlan.new.addBypass 103 104
    let planned := plannedHeights plan 100 106 8
    plan.WellFormed ∧ planned = [100, 101, 102, 105, 106] ∧
      (deliver 100 64 id planned).released.map Prod.fst = [100, 101, 102] ∧
      ¬((deliver 100 64 id planned).released.map Prod.fst = planned ∧
        (deliver 100 64 id planned).buffer.pendingCount = 0) := by
  decide

end SuperqueryNode.Pipeline

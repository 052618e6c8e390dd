import SuperqueryNode.Fetch.Range
import Mathlib.Order.Bounds.Basic

namespace SuperqueryNode.Fetch.RangePlan
open Unsigned

structure MaximalBatch (plan : RangePlan) (nextHeight ceiling batchSize : Nat) (r : BlockRange) :
    Prop where
  start_least : IsLeast {x | nextHeight ≤ x ∧ plan.isBypassed x = false} r.start
  stop_greatest : IsGreatest {e | r.start ≤ e ∧ e ≤ ceiling ∧ e - r.start + 1 ≤ batchSize ∧
    ∀ x, r.start ≤ x → x ≤ e → plan.isBypassed x = false} r.stop

-- `next_batch` with the overflow checks of a debug build: `none` is a panic of `batch_size - 1` or
-- of `r.start - 1`; the saturating and the checked addition cannot panic.
def nextBatchChecked (plan : RangePlan) (nextHeight safeHead batchSize : Nat)
    (endHeight : Option Nat) : Option (Option BlockRange) :=
  let ceiling := ceilingOf safeHead endHeight
  if batchSize = 0 ∨ ceiling < nextHeight then some none
  else
    match plan.advancePastBypass nextHeight ceiling with
    | none => some none
    | some start =>
      (checkedSub batchSize 1).bind fun size =>
        let spanEnd := min (saturatingAdd 64 start size) ceiling
        ((plan.bypass.filter fun r => start < r.start ∧ r.start ≤ spanEnd).mapM
          fun r => checkedSub r.start 1).bind fun starts =>
            some (BlockRange.new start (starts.min?.getD spanEnd))

theorem maximalBatch_of_planned {plan : RangePlan} {nextHeight ceiling batchSize : Nat}
    {r : BlockRange} (h : Planned plan nextHeight ceiling batchSize r) :
    MaximalBatch plan nextHeight ceiling batchSize r := by
  have hfree : ∀ x, r.start ≤ x → x ≤ r.stop → plan.isBypassed x = false := fun x hx hxr => by
    simpa [legal] using h.legal x hx hxr
  have hne := h.nonempty
  have hsized := h.sized
  constructor
  · refine ⟨⟨h.ahead, hfree r.start le_rfl hne⟩, ?_⟩
    rintro x ⟨hx, hlegal⟩
    by_contra hlt
    rw [h.skipped x hx (by omega)] at hlegal
    cases hlegal
  · refine ⟨⟨hne, h.capped, by omega, hfree⟩, ?_⟩
    rintro e ⟨hse, hec, hsize, hlegal⟩
    by_contra hlt
    rcases h.maximal with hceil | hfull | hbypassed
    · omega
    · omega
    · rw [hlegal (r.stop + 1) (by omega) (by omega)] at hbypassed
      cases hbypassed

theorem mapM_checkedSub {rs : List BlockRange} (h : ∀ r ∈ rs, 1 ≤ r.start) :
    rs.mapM (fun r => checkedSub r.start 1) = some (rs.map (·.start - 1)) := by
  induction rs with
  | nil => rfl
  | cons r rs ih =>
    rw [List.mapM_cons, checkedSub_of_le (h r (by simp)), ih fun q hq => h q (by simp [hq])]
    rfl

theorem nextBatchChecked_eq (plan : RangePlan) (nextHeight safeHead batchSize : Nat)
    (endHeight : Option Nat) :
    plan.nextBatchChecked nextHeight safeHead batchSize endHeight =
      some (plan.nextBatch nextHeight safeHead batchSize endHeight) := by
  rw [nextBatchChecked, nextBatch]
  by_cases hstop : batchSize = 0 ∨ ceilingOf safeHead endHeight < nextHeight
  · rw [if_pos hstop, if_pos hstop]
  · rw [if_neg hstop, if_neg hstop]
    cases plan.advancePastBypass nextHeight (ceilingOf safeHead endHeight) with
    | none => rfl
    | some start =>
      have hsize : 1 ≤ batchSize := by omega
      simp only [checkedSub_of_le hsize, Option.bind_some]
      -- every span kept by the filter starts above `start`, so its predecessor is a height
      rw [mapM_checkedSub fun r hr => by
        have := (List.mem_filter.mp hr).2
        simp only [decide_eq_true_eq] at this
        omega]
      rfl

theorem nextBatch_is_maximal (plan : RangePlan) (hw : plan.WellFormed)
    (nextHeight safeHead batchSize : Nat) (endHeight : Option Nat)
    (hhead : safeHead ≤ maxValue 64) :
    (plan.nextBatch nextHeight safeHead batchSize endHeight = none ↔
      batchSize = 0 ∨ ∀ x, nextHeight ≤ x → x ≤ ceilingOf safeHead endHeight →
        plan.isBypassed x = true) ∧
    (∀ r, plan.nextBatch nextHeight safeHead batchSize endHeight = some r →
      MaximalBatch plan nextHeight (ceilingOf safeHead endHeight) batchSize r ∧
      plan.heightsIn r = List.range' r.start (r.stop + 1 - r.start)) ∧
    (plan.advancePastBypass nextHeight (ceilingOf safeHead endHeight) = none →
      ∀ x, nextHeight ≤ x → x ≤ ceilingOf safeHead endHeight → plan.isBypassed x = true) ∧
    plan.nextBatchChecked nextHeight safeHead batchSize endHeight =
      some (plan.nextBatch nextHeight safeHead batchSize endHeight) := by
  have hceiling := (ceilingOf_le_head safeHead endHeight).trans hhead
  refine ⟨nextBatch_eq_none hw hceiling, fun r hr => ?_, fun hnone x hx hxc => ?_,
    nextBatchChecked_eq plan nextHeight safeHead batchSize endHeight⟩
  · have hp := nextBatch_some hw hceiling hr
    exact ⟨maximalBatch_of_planned hp, heightsIn_planned hp⟩
  · exact (advancePastBypass_spec plan nextHeight _).stuck hnone x hx hxc (by omega)

def chainedSpans : RangePlan := ⟨[⟨8, 9⟩, ⟨3, 5⟩, ⟨5, 6⟩, ⟨4, 4⟩]⟩

theorem chained_spans_leave_one_height :
    chainedSpans.nextBatch 3 12 4 (some 10) = some ⟨7, 7⟩ ∧
      MaximalBatch chainedSpans 3 10 4 ⟨7, 7⟩ := by
  have h := (nextBatch_is_maximal chainedSpans (by decide) 3 12 4 (some 10) (by decide)).2.1
    ⟨7, 7⟩ (by decide)
  exact ⟨by decide, h.1⟩

end SuperqueryNode.Fetch.RangePlan

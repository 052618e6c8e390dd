import SuperqueryNode.Lib.Unsigned
import SuperqueryNode.Lib.Enumeration

namespace SuperqueryNode.Fetch
open Unsigned Enumeration

structure BlockRange where
  start : Nat
  stop : Nat
deriving DecidableEq, Repr

namespace BlockRange

def new (start stop : Nat) : Option BlockRange := if start ≤ stop then some ⟨start, stop⟩ else none

def contains (r : BlockRange) (height : Nat) : Bool := decide (r.start ≤ height ∧ height ≤ r.stop)

def heights (r : BlockRange) : List Nat := List.range' r.start (r.stop + 1 - r.start)

def WellFormed (r : BlockRange) : Prop := r.start ≤ r.stop ∧ r.stop ≤ maxValue 64

instance (r : BlockRange) : Decidable r.WellFormed :=
  inferInstanceAs (Decidable (r.start ≤ r.stop ∧ r.stop ≤ maxValue 64))

end BlockRange

structure RangePlan where
  bypass : List BlockRange
deriving DecidableEq, Repr

namespace RangePlan

def new : RangePlan := ⟨[]⟩

def addBypass (plan : RangePlan) (start stop : Nat) : RangePlan :=
  match BlockRange.new start stop with
  | some r => ⟨plan.bypass ++ [r]⟩
  | none => plan

def isBypassed (plan : RangePlan) (height : Nat) : Bool := plan.bypass.any (·.contains height)

def advanceLoop (plan : RangePlan) (ceiling : Nat) : Nat → Nat → Option Nat
  | 0, _ => none
  | turns + 1, height =>
    match plan.bypass.find? (·.contains height) with
    | some r => (checkedAdd 64 r.stop 1).bind (advanceLoop plan ceiling turns)
    | none => if height ≤ ceiling then some height else none

def advancePastBypass (plan : RangePlan) (height ceiling : Nat) : Option Nat :=
  plan.advanceLoop ceiling (plan.bypass.length + 1) height

def ceilingOf (safeHead : Nat) : Option Nat → Nat
  | some stop => min safeHead stop
  | none => safeHead

def nextBatch (plan : RangePlan) (nextHeight safeHead batchSize : Nat)
    (endHeight : Option Nat) : Option BlockRange :=
  let ceiling := ceilingOf safeHead endHeight
  if batchSize = 0 ∨ ceiling < nextHeight then none
  else
    (plan.advancePastBypass nextHeight ceiling).bind fun start =>
      let spanEnd := min (saturatingAdd 64 start (batchSize - 1)) ceiling
      let starts := (plan.bypass.filter fun r => start < r.start ∧ r.start ≤ spanEnd).map (·.start - 1)
      BlockRange.new start (starts.min?.getD spanEnd)

def heightsIn (plan : RangePlan) (range : BlockRange) : List Nat :=
  range.heights.filter fun h => !plan.isBypassed h

def WellFormed (plan : RangePlan) : Prop := ∀ r ∈ plan.bypass, r.WellFormed

instance (plan : RangePlan) : Decidable plan.WellFormed :=
  inferInstanceAs (Decidable (∀ r ∈ plan.bypass, r.WellFormed))

def legal (plan : RangePlan) (height : Nat) : Bool := !plan.isBypassed height

theorem ceilingOf_le_head (safeHead : Nat) (endHeight : Option Nat) :
    ceilingOf safeHead endHeight ≤ safeHead := by
  cases endHeight with
  | none => exact le_refl _
  | some stop => exact Nat.min_le_left _ _

theorem isBypassed_iff {plan : RangePlan} {h : Nat} :
    plan.isBypassed h = true ↔ ∃ r ∈ plan.bypass, r.start ≤ h ∧ h ≤ r.stop := by
  simp [isBypassed, BlockRange.contains]

@[simp] theorem legal_eq_false {plan : RangePlan} {h : Nat} :
    plan.legal h = false ↔ plan.isBypassed h = true := by
  simp [legal]

theorem new_wellFormed : RangePlan.new.WellFormed := by
  intro r hr
  cases hr

theorem new_legal (h : Nat) : RangePlan.new.legal h = true := rfl

def spansAhead (plan : RangePlan) (height : Nat) : Nat := plan.bypass.countP (height ≤ ·.stop)

theorem spansAhead_lt {plan : RangePlan} {r : BlockRange} {height : Nat}
    (hr : r ∈ plan.bypass) (hh : height ≤ r.stop) :
    plan.spansAhead (r.stop + 1) < plan.spansAhead height := by
  unfold spansAhead
  revert hr
  induction plan.bypass with
  | nil => simp
  | cons x xs ih =>
    simp only [List.countP_cons, decide_eq_true_eq]
    have hmono : List.countP (fun y : BlockRange => r.stop + 1 ≤ y.stop) xs ≤
        List.countP (fun y : BlockRange => height ≤ y.stop) xs := by
      apply List.countP_mono_left
      intro y _ hy
      simp only [decide_eq_true_eq] at hy ⊢
      omega
    intro hr
    rcases List.mem_cons.mp hr with rfl | hr
    · rw [if_neg (by omega), if_pos hh]
      omega
    · have := ih hr
      split_ifs <;> omega

structure Advanced (plan : RangePlan) (height ceiling : Nat) (result : Option Nat) : Prop where
  found : ∀ s, result = some s → height ≤ s ∧ s ≤ ceiling ∧ plan.legal s = true ∧
    ∀ x, height ≤ x → x < s → plan.isBypassed x = true
  stuck : result = none → ∀ x, height ≤ x → x ≤ ceiling → x ≤ maxValue 64 →
    plan.isBypassed x = true

theorem advanceLoop_spec {plan : RangePlan} {ceiling turns height : Nat}
    (hturns : plan.spansAhead height < turns) :
    Advanced plan height ceiling (plan.advanceLoop ceiling turns height) := by
  induction turns generalizing height with
  | zero => omega
  | succ turns ih =>
    rw [advanceLoop]
    cases hfind : plan.bypass.find? (·.contains height) with
    | none =>
      have hlegal : plan.legal height = true := by
        simpa [legal, isBypassed] using hfind
      constructor
      · intro s hs
        simp only [Option.ite_none_right_eq_some, Option.some.injEq] at hs
        obtain ⟨hle, rfl⟩ := hs
        exact ⟨le_refl _, hle, hlegal, fun x hx hlt => by omega⟩
      · intro hnone x hx hc _
        simp only [ite_eq_right_iff, reduceCtorEq, imp_false] at hnone
        omega
    | some r =>
      have hmem := List.mem_of_find?_eq_some hfind
      have hcov : r.start ≤ height ∧ height ≤ r.stop := by
        simpa [BlockRange.contains] using List.find?_some hfind
      have hspan : ∀ x, height ≤ x → x ≤ r.stop → plan.isBypassed x = true := fun x hx hxr =>
        isBypassed_iff.mpr ⟨r, hmem, by omega, hxr⟩
      change Advanced plan height ceiling
        ((checkedAdd 64 r.stop 1).bind (plan.advanceLoop ceiling turns))
      cases hadd : checkedAdd 64 r.stop 1 with
      | none =>
        have hmax := checkedAdd_eq_none.mp hadd
        constructor
        · intro s hs
          cases hs
        · intro _ x hx _ hxm
          exact hspan x hx (by omega)
      | some next =>
        obtain ⟨_, rfl⟩ := checkedAdd_eq_some.mp hadd
        have hlt := spansAhead_lt hmem hcov.2
        have hrec : Advanced plan (r.stop + 1) ceiling
            (plan.advanceLoop ceiling turns (r.stop + 1)) := ih (by omega)
        constructor
        · intro s hs
          obtain ⟨hle, hc, hl, hskip⟩ := hrec.found s hs
          refine ⟨by omega, hc, hl, fun x hx hxs => ?_⟩
          by_cases hxr : x ≤ r.stop
          · exact hspan x hx hxr
          · exact hskip x (by omega) hxs
        · intro hnone x hx hc hxm
          by_cases hxr : x ≤ r.stop
          · exact hspan x hx hxr
          · exact hrec.stuck hnone x (by omega) hc hxm

theorem advancePastBypass_spec (plan : RangePlan) (height ceiling : Nat) :
    Advanced plan height ceiling (plan.advancePastBypass height ceiling) :=
  advanceLoop_spec (Nat.lt_succ_of_le List.countP_le_length)

structure Planned (plan : RangePlan) (nextHeight ceiling batchSize : Nat) (r : BlockRange) :
    Prop where
  ahead : nextHeight ≤ r.start
  nonempty : r.start ≤ r.stop
  capped : r.stop ≤ ceiling
  sized : r.stop + 1 - r.start ≤ batchSize
  skipped : ∀ x, nextHeight ≤ x → x < r.start → plan.isBypassed x = true
  legal : ∀ x, r.start ≤ x → x ≤ r.stop → plan.legal x = true
  maximal : r.stop = ceiling ∨ r.stop + 1 - r.start = batchSize ∨ plan.isBypassed (r.stop + 1) = true

def batchEnd (plan : RangePlan) (start spanEnd : Nat) : Nat :=
  ((plan.bypass.filter fun r => start < r.start ∧ r.start ≤ spanEnd).map
    (·.start - 1)).min?.getD spanEnd

theorem batchEnd_cases (plan : RangePlan) (start spanEnd : Nat) :
    (plan.batchEnd start spanEnd = spanEnd ∧
      ∀ r ∈ plan.bypass, start < r.start → spanEnd < r.start) ∨
    ∃ r ∈ plan.bypass, start < r.start ∧ r.start ≤ spanEnd ∧
      plan.batchEnd start spanEnd = r.start - 1 ∧
      ∀ q ∈ plan.bypass, start < q.start → q.start ≤ spanEnd → r.start ≤ q.start := by
  rw [batchEnd]
  cases hmin : ((plan.bypass.filter fun r => start < r.start ∧ r.start ≤ spanEnd).map
      (·.start - 1)).min? with
  | none =>
    left
    simp only [List.min?_eq_none_iff, List.map_eq_nil_iff, List.filter_eq_nil_iff,
      decide_eq_true_eq, not_and, not_le] at hmin
    exact ⟨rfl, hmin⟩
  | some m =>
    right
    rw [List.min?_eq_some_iff] at hmin
    obtain ⟨hmem, hle⟩ := hmin
    simp only [List.mem_map, List.mem_filter, decide_eq_true_eq] at hmem hle
    obtain ⟨r, ⟨hr, hlo, hhi⟩, rfl⟩ := hmem
    refine ⟨r, hr, hlo, hhi, rfl, fun q hq hqlo hqhi => ?_⟩
    have := hle (q.start - 1) ⟨q, ⟨hq, hqlo, hqhi⟩, rfl⟩
    omega

theorem planned_batch {plan : RangePlan} (hw : plan.WellFormed)
    {nextHeight ceiling batchSize start : Nat} (hb : 0 < batchSize)
    (hadv : Advanced plan nextHeight ceiling (some start)) :
    Planned plan nextHeight ceiling batchSize
      ⟨start, plan.batchEnd start (min (start + (batchSize - 1)) ceiling)⟩ := by
  obtain ⟨hahead, hceil, hlegal, hskip⟩ := hadv.found start rfl
  have hout : ∀ r ∈ plan.bypass, r.start ≤ start → r.stop < start := by
    intro r hr hle
    by_contra hge
    have hbyp := isBypassed_iff.mpr ⟨r, hr, hle, by omega⟩
    rw [RangePlan.legal, hbyp] at hlegal
    cases hlegal
  have hspan : start ≤ min (start + (batchSize - 1)) ceiling := by omega
  have legalUpTo : ∀ e, (∀ r ∈ plan.bypass, start < r.start → e < r.start) →
      ∀ x, start ≤ x → x ≤ e → plan.legal x = true := by
    intro e he x hsx hxe
    by_contra hbyp
    rw [Bool.not_eq_true, legal_eq_false, isBypassed_iff] at hbyp
    obtain ⟨r, hr, hrx, hxr⟩ := hbyp
    by_cases hrs : r.start ≤ start
    · have := hout r hr hrs
      omega
    · have := he r hr (by omega)
      omega
  rcases batchEnd_cases plan start (min (start + (batchSize - 1)) ceiling) with
    ⟨heq, hfree⟩ | ⟨r, hr, hlo, hhi, heq, hleast⟩
  · rw [heq]
    exact ⟨hahead, hspan, by simp only; omega, by simp only; omega, hskip, legalUpTo _ hfree,
      by simp only; omega⟩
  · rw [heq]
    refine ⟨hahead, by simp only; omega, by simp only; omega, by simp only; omega, hskip,
      legalUpTo _ ?_, .inr (.inr ?_)⟩
    · intro q hq hqlo
      change r.start - 1 < q.start
      by_cases hqhi : q.start ≤ min (start + (batchSize - 1)) ceiling
      · have := hleast q hq hqlo hqhi
        omega
      · omega
    · have hwr := hw r hr
      exact isBypassed_iff.mpr ⟨r, hr, by simp only; omega, by simp only; have := hwr.1; omega⟩

theorem nextBatch_eq {plan : RangePlan} {nextHeight safeHead batchSize : Nat}
    {endHeight : Option Nat} (hb : 0 < batchSize)
    (hc : ceilingOf safeHead endHeight ≤ maxValue 64)
    (hle : nextHeight ≤ ceilingOf safeHead endHeight) :
    plan.nextBatch nextHeight safeHead batchSize endHeight =
      (plan.advancePastBypass nextHeight (ceilingOf safeHead endHeight)).bind fun start =>
        BlockRange.new start
          (plan.batchEnd start (min (start + (batchSize - 1)) (ceilingOf safeHead endHeight))) := by
  have hspan : ∀ start, min (saturatingAdd 64 start (batchSize - 1)) (ceilingOf safeHead endHeight) =
      min (start + (batchSize - 1)) (ceilingOf safeHead endHeight) := by
    intro start
    rw [saturatingAdd]
    omega
  simp only [nextBatch, batchEnd, hspan]
  rw [if_neg (by omega)]

theorem nextBatch_some {plan : RangePlan} (hw : plan.WellFormed)
    {nextHeight safeHead batchSize : Nat} {endHeight : Option Nat}
    (hc : ceilingOf safeHead endHeight ≤ maxValue 64) {r : BlockRange}
    (h : plan.nextBatch nextHeight safeHead batchSize endHeight = some r) :
    Planned plan nextHeight (ceilingOf safeHead endHeight) batchSize r := by
  by_cases hgo : 0 < batchSize ∧ nextHeight ≤ ceilingOf safeHead endHeight
  · rw [nextBatch_eq hgo.1 hc hgo.2] at h
    obtain ⟨start, hstart, hnew⟩ := Option.bind_eq_some_iff.mp h
    have hadv := advancePastBypass_spec plan nextHeight (ceilingOf safeHead endHeight)
    rw [hstart] at hadv
    have hp := planned_batch hw hgo.1 hadv
    rw [BlockRange.new] at hnew
    rw [if_pos hp.nonempty, Option.some.injEq] at hnew
    exact hnew ▸ hp
  · rw [nextBatch] at h
    rw [if_pos (by omega)] at h
    cases h

theorem nextBatch_eq_none {plan : RangePlan} (hw : plan.WellFormed)
    {nextHeight safeHead batchSize : Nat} {endHeight : Option Nat}
    (hc : ceilingOf safeHead endHeight ≤ maxValue 64) :
    plan.nextBatch nextHeight safeHead batchSize endHeight = none ↔
      batchSize = 0 ∨ ∀ x, nextHeight ≤ x → x ≤ ceilingOf safeHead endHeight →
        plan.isBypassed x = true := by
  by_cases hgo : 0 < batchSize ∧ nextHeight ≤ ceilingOf safeHead endHeight
  · have hadv := advancePastBypass_spec plan nextHeight (ceilingOf safeHead endHeight)
    rw [nextBatch_eq hgo.1 hc hgo.2]
    cases hstart : plan.advancePastBypass nextHeight (ceilingOf safeHead endHeight) with
    | none =>
      rw [hstart] at hadv
      exact iff_of_true rfl (.inr fun x hx hxc => hadv.stuck rfl x hx hxc (by omega))
    | some start =>
      rw [hstart] at hadv
      have hp := planned_batch hw hgo.1 hadv
      obtain ⟨hahead, hceil, hlegal, _⟩ := hadv.found start rfl
      refine iff_of_false ?_ ?_
      · simp only [Option.bind_some, BlockRange.new, if_pos hp.nonempty]
        exact Option.some_ne_none _
      · rintro (hz | hall)
        · omega
        · rw [RangePlan.legal, hall start hahead hceil] at hlegal
          cases hlegal
  · rw [nextBatch]
    rw [if_pos (by omega)]
    refine iff_of_true rfl ?_
    by_cases hz : batchSize = 0
    · exact .inl hz
    · exact .inr fun x hx hxc => by omega

theorem heightsIn_planned {plan : RangePlan} {nextHeight ceiling batchSize : Nat} {r : BlockRange}
    (h : Planned plan nextHeight ceiling batchSize r) :
    plan.heightsIn r = List.range' r.start (r.stop + 1 - r.start) :=
  enumerate_full h.legal

theorem le_of_mem_heightsIn {plan : RangePlan} {r : BlockRange} {h : Nat}
    (hh : h ∈ plan.heightsIn r) : h ≤ r.stop := by
  have := List.mem_range'_1.mp (List.mem_filter.mp hh).1
  omega

theorem enumerate_planned {plan : RangePlan} {nextHeight ceiling batchSize stop : Nat}
    {r : BlockRange} (h : Planned plan nextHeight ceiling batchSize r) (hstop : r.stop ≤ stop) :
    enumerate plan.legal nextHeight stop =
      plan.heightsIn r ++ enumerate plan.legal (r.stop + 1) stop := by
  have hne := h.nonempty
  rw [enumerate_skip h.ahead fun x hx hlt => legal_eq_false.mpr (h.skipped x hx hlt),
    enumerate_split (by omega) hstop]
  rfl

theorem heightsIn_prefix {plan : RangePlan} {nextHeight ceiling batchSize stop : Nat}
    {r : BlockRange} (h : Planned plan nextHeight ceiling batchSize r) (hstop : r.stop ≤ stop) :
    plan.heightsIn r <+: enumerate plan.legal nextHeight stop := by
  rw [enumerate_planned h hstop]
  exact List.prefix_append _ _

end RangePlan

def safeHead (latest finalized : Nat) (unfinalized : Bool) (_confirmations : Nat) : Nat :=
  if unfinalized then latest else min finalized latest

theorem safeHead_le (latest finalized : Nat) (unfinalized : Bool) (confirmations : Nat) :
    safeHead latest finalized unfinalized confirmations ≤ latest := by
  rw [safeHead]
  split_ifs
  · exact le_refl _
  · exact Nat.min_le_right _ _

end SuperqueryNode.Fetch

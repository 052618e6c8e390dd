import Mathlib.Data.List.Chain
import SuperqueryNode.Lib.Ranked
import SuperqueryNode.Fetch.Transitions

namespace SuperqueryNode.Fetch
open Unsigned Enumeration Fallible LabelledRun Ranked ChainApi

-- What an honest adapter serves: one block a height, each the child of the one below it.
structure ServedChain (B : Type) where
  block : Nat → GenericBlock B
  height : ∀ h, (block h).header.height = h
  linked : ∀ h, h < maxValue 64 → (block (h + 1)).header.isChildOf (block h).header = true

namespace ServedChain
variable {B : Type} (chain : ServedChain B)

def fetchBlock (height : Nat) : Except ChainError (GenericBlock B) := .ok (chain.block height)

theorem fetchOne_served (height : Nat) :
    fetchOne chain.fetchBlock height = .ok (chain.block height) := by
  have hsame : ¬(chain.block height).header.height ≠ height := not_not.mpr (chain.height height)
  exact if_neg hsame

theorem consistent_served {heights : List Nat}
    (hnext : heights.IsChain fun a b => b = a + 1) (hmax : ∀ h ∈ heights, h ≤ maxValue 64) :
    consistent (heights.map chain.block) = true := by
  induction heights with
  | nil => rfl
  | cons a rest ih =>
    cases rest with
    | nil => rfl
    | cons b rest =>
      obtain ⟨rfl, hrest⟩ := List.isChain_cons_cons.mp hnext
      have hb := hmax (a + 1) (List.mem_cons_of_mem _ List.mem_cons_self)
      have hlink := chain.linked a (by omega)
      have htail := ih hrest fun h hh => hmax h (List.mem_cons_of_mem _ hh)
      simp only [List.map_cons, consistent, hlink, Bool.true_and] at htail ⊢
      exact htail

theorem fetchNext_served {heights : List Nat}
    (hnext : heights.IsChain fun a b => b = a + 1) (hmax : ∀ h ∈ heights, h ≤ maxValue 64) :
    fetchNext chain.fetchBlock heights = .ok (heights.map chain.block) := by
  have hblocks : heights.mapM (fetchOne chain.fetchBlock) = .ok (heights.map chain.block) :=
    mapM_eq_map fun h _ => chain.fetchOne_served h
  rw [fetchNext, hblocks, ok_bind, if_pos (chain.consistent_served hnext hmax)]
  rfl

end ServedChain

theorem SchedulerConfig.min_le_ceiling (config : SchedulerConfig) {target head : Nat}
    (h : target ≤ head) : min target config.last ≤ RangePlan.ceilingOf head config.endHeight := by
  rw [last]
  cases config.endHeight with
  | none => exact (Nat.min_le_left _ _).trans h
  | some e => exact Nat.le_min.mpr ⟨(Nat.min_le_left _ _).trans h, Nat.min_le_right _ _⟩

namespace FetchScheduler
variable {s t : FetchScheduler} {cursor : Nat}

theorem pending_nextHeights (hs : s.Positioned cursor)
    (hp : s.pending.IsChain fun a b => b = a + 1) {inFlight queued : Nat}
    {latest finalized : Except ChainError UInt64} {heights : List Nat}
    (h : s.nextHeights inFlight queued latest finalized = .ok (heights, t)) :
    t.pending.IsChain fun a b => b = a + 1 := by
  simp only [nextHeights] at h
  split_ifs at h with hc hz he
  · cases h
    exact hp
  · cases h
    exact hp
  · obtain ⟨head, hhead, h⟩ := bind_eq_ok.mp h
    split at h
    · cases h
      exact hp
    next range hbatch =>
      cases h
      have hceil : RangePlan.ceilingOf head s.config.endHeight ≤ maxValue 64 :=
        (RangePlan.ceilingOf_le_head _ _).trans (safeHead_le hhead)
      have hplanned := RangePlan.nextBatch_some hs.wellFormed hceil hbatch
      change (s.plan.heightsIn range).IsChain _
      rw [RangePlan.heightsIn_planned hplanned]
      exact (List.isChain_range' _ _ _).imp fun _ _ h => h
  · cases h
    exact hp

theorem nextHeights_proposes (hs : s.Positioned cursor) (hb : 0 < s.config.batchSize)
    {a b : Nat} (hbp : s.config.backpressure = .new a b) {target head : Nat}
    (hopen : enumerate s.plan.legal cursor (min target s.config.last) ≠ [])
    {latest finalized : Except ChainError UInt64}
    (hhead : s.safeHead latest finalized = .ok head) (hle : target ≤ head) :
    ∃ x xs t, s.nextHeights 0 0 latest finalized = .ok (x :: xs, t) := by
  have hmin : min target s.config.last ≤ s.config.last := Nat.min_le_right _ _
  have hincomplete : s.isComplete = false := by
    by_contra hc
    have hnone := hs.complete hb (Bool.not_eq_false _ ▸ hc)
    refine hopen (enumerate_eq_nil fun x hx hxm => ?_)
    by_contra hlegal
    have hmem : x ∈ s.remaining cursor :=
      mem_enumerate.mpr ⟨⟨hx, hxm.trans hmin⟩, Bool.not_eq_false _ ▸ hlegal⟩
    rw [hnone] at hmem
    cases hmem
  have hbudget : 1 ≤ s.config.backpressure.clampBatch s.config.batchSize 0 0 := by
    rw [hbp]
    exact Backpressure.clampBatch_idle a b hb
  have hx : s.exhausted = false := by
    simp only [isComplete, Bool.or_eq_false_iff] at hincomplete
    exact hincomplete.1
  rw [nextHeights, if_neg (by simp [hincomplete])]
  simp only
  rw [if_neg (by omega)]
  cases hp : s.pending with
  | cons x xs =>
    obtain ⟨n, hn⟩ : ∃ n, s.config.backpressure.clampBatch s.config.batchSize 0 0 = n + 1 :=
      ⟨_, (Nat.sub_add_cancel hbudget).symm⟩
    rw [hn]
    exact ⟨x, xs.take n, s, rfl⟩
  | nil =>
    have hceil : RangePlan.ceilingOf head s.config.endHeight ≤ maxValue 64 :=
      (RangePlan.ceilingOf_le_head _ _).trans (safeHead_le hhead)
    rw [List.isEmpty_nil, if_pos rfl, hhead, ok_bind, hs.next_eq hx]
    cases hbatch : s.plan.nextBatch cursor head
        (s.config.backpressure.clampBatch s.config.batchSize 0 0) s.config.endHeight with
    | none =>
      rcases (RangePlan.nextBatch_eq_none hs.wellFormed hceil).mp hbatch with hz | hall
      · omega
      · refine absurd (enumerate_eq_nil fun y hy hym => ?_) hopen
        refine RangePlan.legal_eq_false.mpr (hall y hy (hym.trans ?_))
        exact s.config.min_le_ceiling hle
    | some range =>
      have hplanned := RangePlan.nextBatch_some hs.wellFormed hceil hbatch
      have hne := hplanned.nonempty
      obtain ⟨n, hn⟩ : ∃ n, range.stop + 1 - range.start = n + 1 :=
        ⟨range.stop - range.start, by omega⟩
      have hheights := RangePlan.heightsIn_planned hplanned
      rw [hn, List.range'_succ] at hheights
      simp only [hheights]
      exact ⟨_, _, _, rfl⟩

end FetchScheduler

namespace SchedulerRun
variable {B : Type} {origin : Nat} {config : SchedulerConfig} {plan : RangePlan}
  {chain : ServedChain B} {target : Nat} {m t : SchedulerRun B}

-- The environment does its part: heads at or above the target, blocks off the chain, a sink that
-- takes what it is given. Nobody cancels.
def Serving (chain : ServedChain B) (target : Nat) (m : SchedulerRun B) : Label B → Prop
  | .invoke => True
  | .heads latest finalized =>
    ∃ head, m.scheduler.safeHead latest finalized = .ok head ∧ target ≤ head
  | .fetched fetchBlock => fetchBlock = chain.fetchBlock
  | .wake => True
  | .accept result => result = .ok ()
  | .resumeFrom => False
  | .cancel => False

structure Steady (origin : Nat) (config : SchedulerConfig) (plan : RangePlan)
    (m : SchedulerRun B) : Prop where
  invariant : Invariant origin config plan m
  consecutive : m.scheduler.pending.IsChain fun a b => b = a + 1

def outstanding (origin target : Nat) (config : SchedulerConfig) (plan : RangePlan)
    (m : SchedulerRun B) : List Nat :=
  enumerate plan.legal (m.cursor origin) (min target config.last)

def weight : Phase B → Nat
  | .delivering _ _ => 0
  | .requesting (_ :: _) => 1
  | .planning => 2
  | .idle _ => 3
  | .sleeping => 3
  | .requesting [] => 4

theorem weight_le (phase : Phase B) : weight phase ≤ 4 := by
  rw [weight.eq_def]
  split <;> omega

-- One block costs a delivery and, at the end of its batch, the way back through planning.
def rank (origin target : Nat) (config : SchedulerConfig) (plan : RangePlan)
    (m : SchedulerRun B) : Nat :=
  3 * (m.outstanding origin target config plan).length + weight m.phase

def CaughtUp (origin target : Nat) (config : SchedulerConfig) (plan : RangePlan)
    (m : SchedulerRun B) : Prop :=
  Steady origin config plan m ∧ m.outstanding origin target config plan = []

theorem consecutive_step (hm : Invariant origin config plan m)
    (hc : m.scheduler.pending.IsChain fun a b => b = a + 1) {l : Label B} (h : m.step l = some t) :
    t.scheduler.pending.IsChain fun a b => b = a + 1 := by
  have hturn : ∀ m : SchedulerRun B, m.turn.scheduler = m.scheduler := fun _ => rfl
  unfold step at h
  split at h
  · cases h
    rw [invoke]
    split_ifs
    · exact hc
    · exact hc
  · obtain ⟨last, _, rfl⟩ := Option.map_eq_some_iff.mp h
    exact .nil
  · cases h
    rw [SchedulerRun.plan]
    split
    · exact hc
    next heights scheduler hnext =>
      exact FetchScheduler.pending_nextHeights hm.positioned hc hnext
  · cases h
    rw [SchedulerRun.fetch]
    split <;> exact hc
  · cases h
    exact hc
  next block rest result hdel =>
    cases h
    cases result with
    | error e => exact hc
    | ok u =>
      simp only [SchedulerRun.accept]
      cases hack : m.scheduler.acknowledge block.header.height with
      | error e => exact hc
      | ok scheduler =>
        have htail : scheduler.pending = m.scheduler.pending.tail := by
          rw [FetchScheduler.acknowledge] at hack
          split_ifs at hack
          cases hack
          rfl
        have hgoal : scheduler.pending.IsChain fun a b => b = a + 1 := htail ▸ hc.tail
        cases rest with
        | nil => exact hgoal
        | cons next rest => exact hgoal
  · cases h
  · cases h
    exact hc
  · cases h

theorem Steady.step (horigin : config.startHeight ≤ origin) (hm : Steady origin config plan m)
    {l : Label B} (h : m.step l = some t) : Steady origin config plan t :=
  ⟨invariant_step horigin hm.invariant h, consecutive_step hm.invariant hm.consecutive h⟩

theorem caughtUp_step (horigin : config.startHeight ≤ origin)
    (hm : CaughtUp origin target config plan m) {l : Label B} (h : m.step l = some t) :
    CaughtUp origin target config plan t := by
  refine ⟨hm.1.step horigin h, enumerate_eq_nil fun x hx hxm => ?_⟩
  have hle := cursor_step hm.1.invariant h
  by_contra hlegal
  have hmem : x ∈ m.outstanding origin target config plan :=
    mem_enumerate.mpr ⟨⟨hle.trans hx, hxm⟩, Bool.not_eq_false _ ▸ hlegal⟩
  rw [hm.2] at hmem
  cases hmem

theorem caughtUp_of_remaining (hm : Steady origin config plan m)
    (h : m.scheduler.remaining (m.cursor origin) = []) : CaughtUp origin target config plan m := by
  refine ⟨hm, enumerate_eq_nil fun x hx hxm => ?_⟩
  by_contra hlegal
  have hmem : x ∈ m.scheduler.remaining (m.cursor origin) := by
    rw [FetchScheduler.remaining, hm.invariant.sameConfig, hm.invariant.samePlan]
    exact mem_enumerate.mpr ⟨⟨hx, hxm.trans (Nat.min_le_right _ _)⟩, Bool.not_eq_false _ ▸ hlegal⟩
  rw [h] at hmem
  cases hmem

theorem CaughtUp.accepted (hm : CaughtUp origin target config plan m) {h : Nat}
    (hlegal : plan.legal h = true) (hlow : origin ≤ h) (htarget : h ≤ target)
    (hlast : h ≤ config.last) : h ∈ m.accepted := by
  have hmem : h ∈ m.accepted ++ m.scheduler.remaining (m.cursor origin) := by
    rw [hm.1.invariant.delivered]
    exact mem_enumerate.mpr ⟨⟨hlow, hlast⟩, hlegal⟩
  rcases List.mem_append.mp hmem with hacc | hrem
  · exact hacc
  · obtain ⟨⟨hcursor, _⟩, _⟩ := mem_enumerate.mp hrem
    have hout : h ∈ m.outstanding origin target config plan :=
      mem_enumerate.mpr ⟨⟨hcursor, Nat.le_min.mpr ⟨htarget, hlast⟩⟩, hlegal⟩
    rw [hm.2] at hout
    cases hout

theorem turn_lowers (hb : 0 < config.batchSize) (hm : Steady origin config plan m)
    (hsame : m.turn.outstanding origin target config plan =
      m.outstanding origin target config plan) (hturn : Steady origin config plan m.turn) :
    CaughtUp origin target config plan m.turn ∨
      m.turn.rank origin target config plan =
        3 * (m.outstanding origin target config plan).length + 2 := by
  cases hc : m.scheduler.isComplete with
  | true =>
    refine .inl (caughtUp_of_remaining hturn ?_)
    exact hm.invariant.positioned.complete (by rw [hm.invariant.sameConfig]; exact hb) hc
  | false =>
    refine .inr ?_
    rw [rank, hsame, turn, hc]
    rfl

theorem accept_lowers (hb : 0 < config.batchSize) (hm : Steady origin config plan m)
    (hopen : m.outstanding origin target config plan ≠ []) {block : GenericBlock B}
    {rest : List (GenericBlock B)} (hphase : m.phase = .delivering block rest)
    (ht : Steady origin config plan (m.accept block rest (.ok ()))) :
    CaughtUp origin target config plan (m.accept block rest (.ok ())) ∨
      (m.accept block rest (.ok ())).rank origin target config plan <
        m.rank origin target config plan := by
  have hrem := (cursor_le_delivered hm.invariant hphase).1
  rw [FetchScheduler.remaining, hm.invariant.sameConfig, hm.invariant.samePlan] at hrem
  have hout : m.outstanding origin target config plan =
      block.header.height :: enumerate plan.legal (block.header.height + 1)
        (min target config.last) :=
    enumerate_shorten hrem (Nat.min_le_right _ _) hopen
  have hafter : (m.accept block rest (.ok ())).outstanding origin target config plan =
      enumerate plan.legal (block.header.height + 1) (min target config.last) := by
    rw [outstanding, cursor_accept]
  have hrank : m.rank origin target config plan =
      3 * ((m.accept block rest (.ok ())).outstanding origin target config plan).length + 3 := by
    rw [rank, hphase, hout, hafter]
    rfl
  rw [hrank]
  have hp := hm.invariant.phase
  rw [hphase] at hp
  obtain ⟨tail, htail⟩ := hp
  have hpend : m.scheduler.pending =
      block.header.height :: (rest.map (·.header.height) ++ tail) := htail.symm
  obtain ⟨s, hack, hpos, hconfig, _, _, _⟩ := hm.invariant.positioned.acknowledge hpend
  have hlower : weight (m.accept block rest (.ok ())).phase ≤ 2 →
      (m.accept block rest (.ok ())).rank origin target config plan <
        3 * ((m.accept block rest (.ok ())).outstanding origin target config plan).length + 3 := by
    intro hweight
    rw [rank]
    omega
  cases rest with
  | cons next rest =>
    refine .inr (hlower ?_)
    simp only [SchedulerRun.accept, hack]
    exact Nat.zero_le _
  | nil =>
    cases hc : s.isComplete with
    | true =>
      refine .inl (caughtUp_of_remaining ht ?_)
      have hdone := hpos.complete (by rw [hconfig, hm.invariant.sameConfig]; exact hb) hc
      rw [cursor_accept]
      simp only [SchedulerRun.accept, hack]
      exact hdone
    | false =>
      refine .inr (hlower ?_)
      simp only [SchedulerRun.accept, hack, turn, hc]
      exact le_refl _

theorem step_lowers (horigin : config.startHeight ≤ origin) (hb : 0 < config.batchSize)
    {a b : Nat} (hbp : config.backpressure = .new a b) (hm : Steady origin config plan m)
    (hopen : ¬CaughtUp origin target config plan m) {l : Label B} (hl : Serving chain target m l)
    (h : m.step l = some t) : CaughtUp origin target config plan t ∨
      t.rank origin target config plan < m.rank origin target config plan := by
  have ht := hm.step horigin h
  have hne : m.outstanding origin target config plan ≠ [] := fun he => hopen ⟨hm, he⟩
  have hrank : m.rank origin target config plan =
      3 * (m.outstanding origin target config plan).length + weight m.phase := rfl
  have hscheduler := hm.invariant.sameConfig
  have hphase := hm.invariant.phase
  unfold SchedulerRun.step at h
  split at h
  next outcome _ hidle =>
    cases h
    have hpos : ¬m.scheduler.config.batchSize = 0 := by
      rw [hscheduler]
      exact Nat.ne_of_gt hb
    rw [invoke, if_neg hpos] at ht ⊢
    refine (turn_lowers hb hm rfl ht).imp_right fun hr => ?_
    rw [hr, hrank, hidle]
    exact Nat.lt_succ_self _
  · exact hl.elim
  next latest finalized hplanning =>
    cases h
    obtain ⟨head, hhead, hle⟩ := hl
    have hopen' : enumerate m.scheduler.plan.legal (m.cursor origin)
        (min target m.scheduler.config.last) ≠ [] := by
      rw [hscheduler, hm.invariant.samePlan]
      exact hne
    obtain ⟨x, xs, s, hnext⟩ := FetchScheduler.nextHeights_proposes
      hm.invariant.positioned (by rw [hscheduler]; exact hb) (hscheduler ▸ hbp) hopen' hhead hle
    refine .inr ?_
    rw [hrank, hplanning, SchedulerRun.plan]
    simp only [hnext]
    exact Nat.lt_succ_self _
  next heights _ hreq =>
    cases h
    obtain rfl := hl
    rw [hreq] at hphase
    have hnext : heights.IsChain fun a b => b = a + 1 := by
      obtain ⟨tail, htail⟩ := hphase
      have hchain := hm.consecutive
      rw [← htail] at hchain
      exact hchain.left_of_append
    have hmax : ∀ h ∈ heights, h ≤ maxValue 64 := fun h hh =>
      (hm.invariant.mem_remaining_le (hphase.subset hh)).trans config.last_le
    refine .inr ?_
    rw [hrank, hreq, SchedulerRun.fetch]
    simp only [chain.fetchNext_served hnext hmax]
    cases heights with
    | nil => exact Nat.lt_succ_self _
    | cons x xs => exact Nat.lt_succ_self _
  next hsleep =>
    cases h
    refine (turn_lowers hb hm rfl ht).imp_right fun hr => ?_
    rw [hr, hrank, hsleep]
    exact Nat.lt_succ_self _
  next block rest _ hdel =>
    cases h
    obtain rfl := hl
    exact accept_lowers hb hm hne hdel ht
  · cases h
  · exact hl.elim
  · cases h

theorem serving_descends (horigin : config.startHeight ≤ origin) (hb : 0 < config.batchSize)
    {a b : Nat} (hbp : config.backpressure = .new a b) :
    Descending step (Serving chain target) (Steady origin config plan)
      (CaughtUp origin target config plan) (rank origin target config plan) where
  keeps := fun _ _ _ hm _ h => caughtUp_step horigin hm h
  lowers := fun _ _ _ hm hopen hl h =>
    (step_lowers horigin hb hbp hm hopen hl h).imp_right fun hlt => ⟨hm.step horigin h, hlt⟩

theorem serving_enabled (horigin : config.startHeight ≤ origin) (htarget : target ≤ maxValue 64)
    (hm : Steady origin config plan m) :
    ∃ l t, Serving chain target m l ∧ m.step l = some t ∧ Steady origin config plan t := by
  have henabled : ∃ l, Serving chain target m l ∧ (m.step l).isSome = true := by
    cases hphase : m.phase with
    | idle outcome => exact ⟨.invoke, trivial, by simp [SchedulerRun.step, hphase]⟩
    | planning =>
      have htop : maxValue 64 < 2 ^ 64 := by decide
      let top : UInt64 := ⟨⟨maxValue 64, htop⟩⟩
      have hsafe : m.scheduler.safeHead (.ok top) (.ok top) = .ok (maxValue 64) := by
        change Except.ok (Fetch.safeHead (maxValue 64) (maxValue 64) _ _) = _
        rw [Fetch.safeHead, Nat.min_self, ite_self]
      exact ⟨.heads (.ok top) (.ok top), ⟨maxValue 64, hsafe, htarget⟩,
        by simp [SchedulerRun.step, hphase]⟩
    | requesting heights =>
      exact ⟨.fetched chain.fetchBlock, rfl, by simp [SchedulerRun.step, hphase]⟩
    | sleeping => exact ⟨.wake, trivial, by simp [SchedulerRun.step, hphase]⟩
    | delivering block rest =>
      exact ⟨.accept (.ok ()), rfl, by simp [SchedulerRun.step, hphase]⟩
  obtain ⟨l, hl, hsome⟩ := henabled
  obtain ⟨t, ht⟩ := Option.isSome_iff_exists.mp hsome
  exact ⟨l, t, hl, ht, hm.step horigin ht⟩

theorem rank_le (hm : Steady origin config plan m) : m.rank origin target config plan ≤
    3 * (enumerate plan.legal origin (min target config.last)).length + 4 := by
  have hlow := origin_le_cursor hm.invariant.toProgress
  have hsub : (m.outstanding origin target config plan).length ≤
      (enumerate plan.legal origin (min target config.last)).length := by
    refine (List.subperm_of_subset ?_ fun x hx => ?_).length_le
    · exact (enumerate_ascending ..).imp fun hlt => Nat.ne_of_lt hlt
    · obtain ⟨⟨hx, hxm⟩, hlegal⟩ := mem_enumerate.mp hx
      exact mem_enumerate.mpr ⟨⟨hlow.trans hx, hxm⟩, hlegal⟩
  have hweight := weight_le m.phase
  rw [rank]
  omega

theorem steady_run (hw : plan.WellFormed) {labels : List (Label B)}
    (hrun : run step (start (.new config plan)) labels = some m) :
    Steady config.startHeight config plan m :=
  run_invariant (P := Steady config.startHeight config plan)
    (fun _ _ _ hs h => hs.step (le_refl _) h)
    ⟨invariant_start (FetchScheduler.positioned_new config hw) rfl, .nil⟩ hrun

theorem served_run_catches_up (config : SchedulerConfig) {plan : RangePlan} (hw : plan.WellFormed)
    (hb : 0 < config.batchSize) {a b : Nat} (hbp : config.backpressure = .new a b)
    (labels : List (Label B)) (m : SchedulerRun B)
    (hrun : run step (start (.new config plan)) labels = some m) (chain : ServedChain B)
    {target : Nat} (htarget : target ≤ maxValue 64) :
    (∀ n, ∃ more t, more.length = n ∧ Guarded step (Serving chain target) m more ∧
      run step m more = some t) ∧
    ∀ more t, Guarded step (Serving chain target) m more → run step m more = some t →
      (∃ l u, Serving chain target t l ∧ t.step l = some u) ∧
      t.accepted <+: enumerate plan.legal config.startHeight config.last ∧
      t.accepted.Pairwise (· < ·) ∧
      (3 * (enumerate plan.legal config.startHeight (min target config.last)).length + 4 <
        more.length →
      ∀ h, plan.legal h = true → config.startHeight ≤ h → h ≤ target → h ≤ config.last →
        h ∈ t.accepted) := by
  have hm : Steady config.startHeight config plan m := steady_run hw hrun
  refine ⟨guarded_extends (fun _ hs => serving_enabled (le_refl _) htarget hs) hm, ?_⟩
  intro more t hg hmore
  have hsteady : Steady config.startHeight config plan t :=
    run_invariant (P := Steady config.startHeight config plan)
      (fun _ _ _ hs h => hs.step (le_refl _) h) hm hmore
  have hstarted := hsteady.invariant.toProgress.accepted_prefix
  obtain ⟨l, u, hl, hu, -⟩ := serving_enabled (le_refl _) htarget hsteady
  refine ⟨⟨l, u, hl, hu⟩, hstarted, (enumerate_ascending ..).sublist hstarted.sublist, ?_⟩
  · intro hlong h hlegal hlow hhigh hlast
    have ht : CaughtUp config.startHeight target config plan t :=
      guarded_reaches (serving_descends (le_refl _) hb hbp) (.inr hm) hg hmore
        (Nat.lt_of_le_of_lt (rank_le hm) hlong)
    exact ht.accepted hlegal hlow hhigh hlast

def uniformChain : ServedChain Unit where
  block := fun h => ⟨⟨h, "a", some "a", none⟩, ()⟩
  height := fun _ => rfl
  linked := fun _ hh => Header.isChildOf_iff.mpr ⟨rfl, hh, rfl⟩

theorem failed_fetch_is_made_up_for :
    let config : SchedulerConfig := ⟨5, some 9, 2, false, 0, .new 4 4, by decide, by decide⟩
    let labels : List (Label Unit) :=
      [.invoke, .heads (.ok 20) (.ok 8), .fetched fun _ => .error (.transport "reset")]
    ∃ m, run step (start (.new config .new)) labels = some m ∧
      (∃ more t, more.length = 20 ∧ Guarded step (Serving uniformChain 9) m more ∧
        run step m more = some t) ∧
      ∀ more t, Guarded step (Serving uniformChain 9) m more → run step m more = some t →
        more.length = 20 → t.accepted <+: [5, 6, 7, 8, 9] ∧ 9 ∈ t.accepted := by
  intro config labels
  obtain ⟨m, hm⟩ := Option.isSome_iff_exists.mp
    (by decide : (run step (start (.new config .new)) labels).isSome = true)
  obtain ⟨hgoes, hdone⟩ := served_run_catches_up config RangePlan.new_wellFormed (by decide) rfl
    labels m hm uniformChain (by decide : 9 ≤ maxValue 64)
  refine ⟨m, hm, hgoes 20, fun more t hg ht hlen => ?_⟩
  have hbound : (enumerate RangePlan.new.legal 5 (min 9 config.last)).length = 5 := by decide
  obtain ⟨-, hstarted, -, hall⟩ := hdone more t hg ht
  refine ⟨hstarted, hall ?_ 9 rfl (by decide) (le_refl _) (by decide)⟩
  rw [hlen]
  change 3 * (enumerate RangePlan.new.legal 5 (min 9 config.last)).length + 4 < 20
  omega

end SchedulerRun
end SuperqueryNode.Fetch

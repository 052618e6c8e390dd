import SuperqueryNode.Lib.LabelledRun
import SuperqueryNode.Fetch.Scheduler

namespace SuperqueryNode.Fetch
open Unsigned Enumeration Fallible LabelledRun ChainApi

inductive Outcome where
  | completed
  | cancelled
  | failed (e : CoreError)
deriving DecidableEq, Repr

inductive Phase (B : Type) where
  | idle (outcome : Option Outcome)
  | planning
  | requesting (heights : List Nat)
  | sleeping
  | delivering (block : GenericBlock B) (rest : List (GenericBlock B))

def Phase.active {B : Type} : Phase B → Bool
  | .idle _ => false
  | _ => true

inductive Label (B : Type) where
  | invoke
  | resumeFrom
  | heads (latest finalized : Except ChainError UInt64)
  | fetched (fetchBlock : Nat → Except ChainError (GenericBlock B))
  | wake
  | accept (result : Except CoreError Unit)
  | cancel

structure SchedulerRun (B : Type) where
  scheduler : FetchScheduler
  phase : Phase B
  plannedHead : Nat
  requested : List (Nat × Nat)
  proposed : List Nat
  accepted : List Nat

namespace SchedulerRun
variable {B : Type}

def start (scheduler : FetchScheduler) : SchedulerRun B where
  scheduler := scheduler
  phase := .idle none
  plannedHead := 0
  requested := []
  proposed := []
  accepted := []

def turn (m : SchedulerRun B) : SchedulerRun B :=
  { m with phase := if m.scheduler.isComplete then .idle (some .completed) else .planning }

def fail (m : SchedulerRun B) (e : CoreError) : SchedulerRun B :=
  { m with phase := .idle (some (.failed e)) }

def headRead (m : SchedulerRun B) (latest finalized : Except ChainError UInt64) : Nat :=
  if m.scheduler.pending = [] then (m.scheduler.safeHead latest finalized).toOption.getD 0
  else m.plannedHead

def invoke (m : SchedulerRun B) : SchedulerRun B :=
  if m.scheduler.config.batchSize = 0 then m.fail (.other "scheduler batch size must be positive")
  else m.turn

def plan (m : SchedulerRun B) (latest finalized : Except ChainError UInt64) : SchedulerRun B :=
  match m.scheduler.nextHeights 0 0 latest finalized with
  | .error e => m.fail e
  | .ok (heights, scheduler) =>
    let head := m.headRead latest finalized
    { m with
      scheduler := scheduler
      plannedHead := head
      requested := m.requested ++ heights.map fun h => (h, head)
      phase := .requesting heights }

def fetch (m : SchedulerRun B) (heights : List Nat)
    (fetchBlock : Nat → Except ChainError (GenericBlock B)) : SchedulerRun B :=
  match fetchNext fetchBlock heights with
  | .error e => m.fail e
  | .ok [] => { m with phase := .sleeping }
  | .ok (block :: rest) => { m with phase := .delivering block rest }

def accept (m : SchedulerRun B) (block : GenericBlock B) (rest : List (GenericBlock B))
    (result : Except CoreError Unit) : SchedulerRun B :=
  let height := block.header.height
  let m := { m with proposed := m.proposed ++ [height] }
  match result with
  | .error e => m.fail e
  | .ok _ =>
    let m := { m with accepted := m.accepted ++ [height] }
    match m.scheduler.acknowledge height with
    | .error e => m.fail e
    | .ok scheduler =>
      let m := { m with scheduler := scheduler }
      match rest with
      | [] => m.turn
      | next :: rest => { m with phase := .delivering next rest }

-- `cancel` stands for the token seen by a `select!` or between two blocks, and for the
-- caller dropping the future at any of its awaits.
def step (m : SchedulerRun B) (l : Label B) : Option (SchedulerRun B) :=
  match m.phase, l with
  | .idle _, .invoke => some m.invoke
  | .idle _, .resumeFrom =>
    m.accepted.getLast?.map fun last => { m with scheduler := m.scheduler.resumeFrom last }
  | .planning, .heads latest finalized => some (m.plan latest finalized)
  | .requesting heights, .fetched fetchBlock => some (m.fetch heights fetchBlock)
  | .sleeping, .wake => some m.turn
  | .delivering block rest, .accept result => some (m.accept block rest result)
  | .idle _, .cancel => none
  | _, .cancel => some { m with phase := .idle (some .cancelled) }
  | _, _ => none

def cursor (origin : Nat) (m : SchedulerRun B) : Nat := m.accepted.getLast?.elim origin (· + 1)

structure Progress (origin : Nat) (config : SchedulerConfig) (plan : RangePlan)
    (m : SchedulerRun B) : Prop where
  sameConfig : m.scheduler.config = config
  samePlan : m.scheduler.plan = plan
  positioned : m.scheduler.Positioned (m.cursor origin)
  delivered : m.accepted ++ m.scheduler.remaining (m.cursor origin) =
    enumerate plan.legal origin config.last
  planned : ∀ h ∈ m.scheduler.pending, h ≤ m.plannedHead
  requested : ∀ r ∈ m.requested, r.1 ≤ r.2 ∧ r.1 ≤ config.last
  first : ∀ h ∈ m.proposed.head?, (enumerate plan.legal origin config.last).head? = some h
  begun : m.proposed = [] → m.accepted = []

def Phase.Consistent (origin : Nat) (m : SchedulerRun B) : Phase B → Prop
  | .idle outcome => outcome = some .completed → m.scheduler.remaining (m.cursor origin) = []
  | .requesting heights => heights <+: m.scheduler.pending
  | .delivering block rest => (block :: rest).map (·.header.height) <+: m.scheduler.pending
  | _ => True

structure Invariant (origin : Nat) (config : SchedulerConfig) (plan : RangePlan)
    (m : SchedulerRun B) : Prop extends Progress origin config plan m where
  phase : Phase.Consistent origin m m.phase
  positive : m.phase.active = true → 0 < config.batchSize

section Steps
variable {origin : Nat} {config : SchedulerConfig} {plan : RangePlan} {m t : SchedulerRun B}

theorem Progress.withPhase (hm : Progress origin config plan m) (phase : Phase B) :
    Progress origin config plan { m with phase := phase } :=
  ⟨hm.sameConfig, hm.samePlan, hm.positioned, hm.delivered, hm.planned, hm.requested, hm.first, hm.begun⟩

theorem Progress.fail (hm : Progress origin config plan m) (e : CoreError) :
    Invariant origin config plan (m.fail e) :=
  ⟨hm.withPhase _, fun h => (by cases h), fun h => (by cases h)⟩

theorem Progress.turn (hm : Progress origin config plan m) (hb : 0 < config.batchSize) :
    Invariant origin config plan m.turn := by
  refine ⟨hm.withPhase _, ?_, fun _ => hb⟩
  cases hc : m.scheduler.isComplete with
  | true =>
    rw [SchedulerRun.turn, hc]
    exact fun _ => hm.positioned.complete (by rw [hm.sameConfig]; exact hb) hc
  | false =>
    rw [SchedulerRun.turn, hc]
    trivial

theorem Progress.invoke (hm : Progress origin config plan m) :
    Invariant origin config plan m.invoke := by
  rw [SchedulerRun.invoke]
  split_ifs with hz
  · exact hm.fail _
  · rw [hm.sameConfig] at hz
    exact hm.turn (Nat.pos_of_ne_zero hz)

theorem Progress.mem_remaining_le (hm : Progress origin config plan m) {h : Nat}
    (hh : h ∈ m.scheduler.pending) : h ≤ config.last := by
  have hmem := hm.positioned.pending.subset hh
  rw [FetchScheduler.remaining, mem_enumerate, hm.sameConfig] at hmem
  exact hmem.1.2

theorem Progress.plan_step (hm : Progress origin config plan m) (hb : 0 < config.batchSize)
    (latest finalized : Except ChainError UInt64) :
    Invariant origin config plan (m.plan latest finalized) := by
  rw [SchedulerRun.plan]
  split
  · exact hm.fail _
  next heights scheduler hnext =>
    obtain ⟨hpos, hext⟩ := hm.positioned.nextHeights hnext
    have hplanned : ∀ h ∈ scheduler.pending, h ≤ m.headRead latest finalized := by
      rw [headRead]
      rcases hext.planned with hsame | ⟨hnil, head, hhead, hle⟩
      · rw [hsame]
        split_ifs with hnil
        · simp [hnil]
        · exact hm.planned
      · rw [if_pos hnil, hhead]
        exact hle
    have hrem := FetchScheduler.remaining_congr hext.config hext.plan (m.cursor origin)
    have hprogress : Progress origin config plan { m with
        scheduler := scheduler
        plannedHead := m.headRead latest finalized } :=
      ⟨hext.config.trans hm.sameConfig, hext.plan.trans hm.samePlan, hpos,
        (congrArg (m.accepted ++ ·) hrem).trans hm.delivered, hplanned, hm.requested, hm.first,
        hm.begun⟩
    refine ⟨⟨hprogress.sameConfig, hprogress.samePlan, hprogress.positioned, hprogress.delivered,
      hprogress.planned, ?_, hm.first, hm.begun⟩, hext.proposed, fun _ => hb⟩
    intro r hr
    rcases List.mem_append.mp hr with hr | hr
    · exact hm.requested r hr
    · obtain ⟨h, hh, rfl⟩ := List.mem_map.mp hr
      have hmem := hext.proposed.subset hh
      exact ⟨hplanned h hmem, hprogress.mem_remaining_le hmem⟩

theorem Progress.fetch (hm : Progress origin config plan m) (hb : 0 < config.batchSize)
    {heights : List Nat}
    (hh : heights <+: m.scheduler.pending)
    (fetchBlock : Nat → Except ChainError (GenericBlock B)) :
    Invariant origin config plan (m.fetch heights fetchBlock) := by
  rw [SchedulerRun.fetch]
  split
  · exact hm.fail _
  · exact ⟨hm.withPhase _, trivial, fun _ => hb⟩
  next block rest hfetch =>
    refine ⟨hm.withPhase _, ?_, fun _ => hb⟩
    change List.map _ (block :: rest) <+: _
    rw [fetchNext_heights hfetch]
    exact hh

theorem Progress.propose (hm : Progress origin config plan m) {height : Nat} {rest : List Nat}
    (hp : height :: rest <+: m.scheduler.pending) :
    Progress origin config plan { m with proposed := m.proposed ++ [height] } := by
  refine ⟨hm.sameConfig, hm.samePlan, hm.positioned, hm.delivered, hm.planned, hm.requested, ?_, by simp⟩
  intro h hh
  cases hprop : m.proposed with
  | cons x xs =>
    apply hm.first
    simpa [hprop] using hh
  | nil =>
    obtain rfl : height = h := by simpa [hprop] using hh
    have hacc := hm.begun hprop
    obtain ⟨tail, htail⟩ := hp.trans hm.positioned.pending
    rw [← hm.delivered, hacc, ← htail]
    rfl

theorem Progress.accept (hm : Progress origin config plan m) (hb : 0 < config.batchSize)
    {block : GenericBlock B} {rest : List (GenericBlock B)}
    (hp : (block :: rest).map (·.header.height) <+: m.scheduler.pending)
    (result : Except CoreError Unit) :
    Invariant origin config plan (m.accept block rest result) := by
  have hprop := hm.propose hp
  cases result with
  | error e => exact hprop.fail e
  | ok u =>
    obtain ⟨tail, htail⟩ := hp
    obtain ⟨t, hack, hpos, hconfig, hplan, hpending, hrem⟩ :=
      hm.positioned.acknowledge htail.symm
    simp only [SchedulerRun.accept, hack]
    have hnext : Progress origin config plan { m with
        scheduler := t
        proposed := m.proposed ++ [block.header.height]
        accepted := m.accepted ++ [block.header.height] } := by
      refine ⟨hconfig.trans hm.sameConfig, hplan.trans hm.samePlan, ?_, ?_, ?_, hm.requested, hprop.first,
        by simp⟩
      · simpa [cursor] using hpos
      · have hdel := hm.delivered
        rw [hrem, ← FetchScheduler.remaining_congr hconfig hplan] at hdel
        simpa [cursor] using hdel
      · intro h hh
        exact hm.planned h (htail ▸ List.mem_cons_of_mem _ (hpending ▸ hh))
    cases rest with
    | nil => exact hnext.turn hb
    | cons next rest =>
      refine ⟨hnext.withPhase _, ?_, fun _ => hb⟩
      change List.map _ (next :: rest) <+: t.pending
      rw [hpending]
      exact List.prefix_append _ _

theorem Progress.last_accepted (hm : Progress origin config plan m) {last : Nat}
    (hl : m.accepted.getLast? = some last) :
    origin ≤ last ∧ last ≤ config.last ∧ m.cursor origin = last + 1 := by
  have hmem : last ∈ enumerate plan.legal origin config.last := by
    rw [← hm.delivered]
    exact List.mem_append_left _ (List.mem_of_getLast? hl)
  obtain ⟨⟨hlo, hhi⟩, _⟩ := mem_enumerate.mp hmem
  exact ⟨hlo, hhi, by rw [cursor, hl, Option.elim_some]⟩

theorem Progress.resumeFrom (hm : Progress origin config plan m)
    (horigin : config.startHeight ≤ origin) {last : Nat} (hl : m.accepted.getLast? = some last) :
    Progress origin config plan { m with scheduler := m.scheduler.resumeFrom last } := by
  obtain ⟨hlo, hhi, hcur⟩ := hm.last_accepted hl
  have hpos : (m.scheduler.resumeFrom last).Positioned (m.cursor origin) := by
    rw [hcur]
    exact FetchScheduler.positioned_resumeFrom hm.positioned.wellFormed
      (hhi.trans config.last_le) (by rw [hm.sameConfig]; omega)
  exact ⟨hm.sameConfig, hm.samePlan, hpos, hm.delivered, by simp [FetchScheduler.resumeFrom],
    hm.requested, hm.first, hm.begun⟩

theorem invariant_step (horigin : config.startHeight ≤ origin)
    (hm : Invariant origin config plan m) {l : Label B} (h : m.step l = some t) :
    Invariant origin config plan t := by
  have hphase := hm.phase
  have hb := hm.positive
  unfold step at h
  split at h
  · cases h
    exact hm.toProgress.invoke
  next outcome _ hidle =>
    obtain ⟨last, hl, rfl⟩ := Option.map_eq_some_iff.mp h
    refine ⟨hm.toProgress.resumeFrom horigin hl, ?_, hb⟩
    change Phase.Consistent origin _ m.phase
    rw [hidle] at hphase ⊢
    exact hphase
  next hplanning =>
    cases h
    rw [hplanning] at hb
    exact hm.toProgress.plan_step (hb rfl) _ _
  next heights _ hreq =>
    cases h
    rw [hreq] at hphase hb
    exact hm.toProgress.fetch (hb rfl) hphase _
  next hsleep =>
    cases h
    rw [hsleep] at hb
    exact hm.toProgress.turn (hb rfl)
  next block rest _ hdel =>
    cases h
    rw [hdel] at hphase hb
    exact hm.toProgress.accept (hb rfl) hphase _
  · cases h
  · cases h
    exact ⟨hm.toProgress.withPhase _, fun h => (by cases h), fun h => (by cases h)⟩
  · cases h

theorem invariant_start {scheduler : FetchScheduler} (hpos : scheduler.Positioned origin)
    (hp : scheduler.pending = []) :
    Invariant origin scheduler.config scheduler.plan (start scheduler : SchedulerRun B) where
  sameConfig := rfl
  samePlan := rfl
  positioned := hpos
  delivered := rfl
  planned := by simp [start, hp]
  requested := by simp [start]
  first := by simp [start]
  begun := fun _ => rfl
  phase := fun h => by cases h
  positive := fun h => by cases h

theorem Progress.accepted_prefix (hm : Progress origin config plan m) :
    m.accepted <+: enumerate plan.legal origin config.last := by
  rw [← hm.delivered]
  exact List.prefix_append _ _

theorem Invariant.accepted_all (hm : Invariant origin config plan m)
    (hdone : m.phase = .idle (some .completed)) :
    m.accepted = enumerate plan.legal origin config.last := by
  have hphase := hm.phase
  rw [hdone] at hphase
  rw [← hm.delivered, hphase rfl, List.append_nil]

end Steps

theorem run_delivers_exactly_once (config : SchedulerConfig) {plan : RangePlan}
    (hw : plan.WellFormed) (labels : List (Label B)) (m : SchedulerRun B)
    (hrun : run step (start (.new config plan)) labels = some m) :
    m.accepted <+: enumerate plan.legal config.startHeight config.last ∧
    (m.accepted = [] → m.scheduler.nextHeight = config.startHeight ∧
      m.scheduler.exhausted = false) ∧
    (∀ height, m.accepted.getLast? = some height →
      m.scheduler.nextHeight = saturatingAdd 64 height 1 ∧
      (m.scheduler.exhausted = true ↔ height = maxValue 64)) ∧
    (∀ r ∈ m.requested, r.1 ≤ r.2 ∧ ∀ e ∈ config.endHeight, r.1 ≤ e) ∧
    (m.phase = .idle (some .completed) →
      m.accepted = enumerate plan.legal config.startHeight config.last) := by
  have hm : Invariant config.startHeight config plan m :=
    run_invariant (fun _ _ _ hs h => invariant_step (le_refl _) hs h)
      (invariant_start (FetchScheduler.positioned_new config hw) rfl) hrun
  have hstart := config.start_le
  refine ⟨hm.accepted_prefix, fun hnil => ?_, fun height hl => ?_, fun r hr => ?_, hm.accepted_all⟩
  · have hcur : m.cursor config.startHeight = config.startHeight := by simp [cursor, hnil]
    have hnext := hm.positioned.next
    have hex := hm.positioned.exhausted
    rw [hcur] at hnext hex
    exact ⟨by omega, by rw [hex, decide_eq_false_iff_not]; omega⟩
  · obtain ⟨_, hhi, hcur⟩ := hm.last_accepted hl
    have hlast := config.last_le
    have hnext := hm.positioned.next
    have hex := hm.positioned.exhausted
    rw [hcur] at hnext hex
    exact ⟨hnext, by rw [hex, decide_eq_true_eq]; omega⟩
  · obtain ⟨hhead, hend⟩ := hm.requested r hr
    exact ⟨hhead, fun e he => hend.trans (config.last_le_end he)⟩

theorem interrupted_run_delivers_in_order :
    let config : SchedulerConfig := ⟨5, some 9, 2, false, 0, .new 4 4, by decide, by decide⟩
    let served : Nat → Except ChainError (GenericBlock Unit) :=
      fun h => .ok ⟨⟨h, "a", some "a", none⟩, ()⟩
    let labels : List (Label Unit) :=
      [.invoke, .heads (.ok 20) (.ok 8), .fetched fun _ => .error (.transport "reset"),
        .invoke, .heads (.ok 20) (.ok 3), .fetched served, .accept (.ok ()),
        .accept (.error (.other "commit failed")), .resumeFrom, .invoke,
        .heads (.ok 20) (.ok 8), .fetched served, .accept (.ok ()),
        .heads (.ok 20) (.ok 8), .fetched served, .accept (.ok ()), .cancel]
    ∃ m, run step (start (.new config (RangePlan.new.addBypass 7 7))) labels = some m ∧
      m.accepted <+: enumerate (RangePlan.new.addBypass 7 7).legal 5 9 := by
  intro config served labels
  obtain ⟨m, hm⟩ := Option.isSome_iff_exists.mp (by decide :
    (run step (start (.new config (RangePlan.new.addBypass 7 7))) labels).isSome = true)
  exact ⟨m, hm, (run_delivers_exactly_once config (by decide) labels m hm).1⟩

end SchedulerRun
end SuperqueryNode.Fetch

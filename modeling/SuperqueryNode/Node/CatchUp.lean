import SuperqueryNode.Fetch.Liveness
import SuperqueryNode.Node.Ingest

namespace SuperqueryNode.Node
open Unsigned Enumeration LabelledRun Ranked ChainApi Fetch Store Store.Ingestion

namespace Cluster
variable {B : Type} {config : SchedulerConfig} {chain : ServedChain B} {target i : Nat}
  {c d : Cluster B} {j t : IngestionBlocks}

def OnChain (chain : ServedChain B) (j : IngestionBlocks) : Prop :=
  ∀ row ∈ j.rows, row = encode row.height (chain.block row.height.val.toNat).header

def nextHeight (config : SchedulerConfig) (j : IngestionBlocks) : Nat :=
  (j.rows.getLast?.map fun row => row.height.val.toNat + 1).getD config.startHeight

-- One process alone on the schema, restarted when it is down, and an environment that serves it
-- one chain: no other writer, no lost answer, no crash.
def Serving (i : Nat) (config : SchedulerConfig) (chain : ServedChain B) (target : Nat)
    (c : Cluster B) : Event B → Prop
  | .boot k booted => k = i ∧ booted = config
  | .load k => k = i
  | .checkCanonical k answer => k = i ∧ ∀ booted last, c.procs i = .loaded booted last →
      answer = .ok (chain.block last.height).header
  | .schedule k l => k = i ∧ ∀ resumed m, c.procs i = .running resumed m →
      SchedulerRun.Serving chain target m l
  | .accept k delivery => k = i ∧ delivery = .acknowledged
  | .commit _ _ => False
  | .crash _ => False

section Journal

theorem nextHeight_nil (h : j.rows = []) : nextHeight config j = config.startHeight := by
  rw [nextHeight, h]
  rfl

theorem nextHeight_last {row : IngestionRow} (h : j.rows.getLast? = some row) :
    nextHeight config j = row.height.val.toNat + 1 := by
  rw [nextHeight, h]
  rfl

theorem nextHeight_append {row : IngestionRow} (h : t.rows = j.rows ++ [row]) :
    nextHeight config t = row.height.val.toNat + 1 :=
  nextHeight_last (by rw [h, List.getLast?_concat])

theorem onChain_append (hj : OnChain chain j) {height : Bigint} {h : Nat} (hh : height.val = h)
    (ht : t.rows = j.rows ++ [encode height (chain.block h).header]) : OnChain chain t := by
  intro row hrow
  rw [ht] at hrow
  rcases List.mem_append.mp hrow with hrow | hrow
  · exact hj row hrow
  · rw [List.mem_singleton.mp hrow]
    have hnat : height.val.toNat = h := by omega
    change _ = encode height (chain.block height.val.toNat).header
    rw [hnat]

theorem headerOf_onChain (hj : OnChain chain j) {row : IngestionRow} (hrow : row ∈ j.rows) :
    (headerOf row).height = row.height.val.toNat ∧
      (headerOf row).hash = (chain.block row.height.val.toNat).header.hash := by
  refine ⟨rfl, ?_⟩
  have hhash := congrArg IngestionRow.hash (hj row hrow)
  exact hhash

theorem commit_next (hj : j.Chained) (hchain : OnChain chain j)
    (hhash : ∀ h, (chain.block h).header.hash ≠ "") {h : Nat} (hnext : h = nextHeight config j) :
    (∃ (height : Bigint) (t : IngestionBlocks), height.val = h ∧
        commit j (chain.block h).header = (.ok (), t) ∧
        t.rows = j.rows ++ [encode height (chain.block h).header]) ∨
      (bigintMax < (h : Int) ∧ ∃ e, commit j (chain.block h).header = (.error e, j)) := by
  have hheight : (chain.block h).header.height = h := chain.height h
  have hlast : ∀ last, load j = .ok (some last) → last.height + 1 = h ∧
      last.hash = (chain.block last.height).header.hash := by
    intro last hload
    obtain ⟨row, hrow, rfl⟩ := (load_some hj).mp hload
    rw [hnext, nextHeight_last hrow]
    exact ⟨rfl, (headerOf_onChain hchain (List.mem_of_getLast? hrow)).2⟩
  rcases commit_cases hj (chain.block h).header with
    ⟨_, hload, _⟩ | ⟨_, _, height, t, hh, hcommit, hrows⟩ | ⟨hrejects, e, hcommit⟩
  · have := (hlast _ hload).1
    omega
  · exact .inl ⟨height, t, hh.trans (congrArg Nat.cast hheight), hcommit, hrows⟩
  · refine .inr ⟨?_, e, hcommit⟩
    by_contra hsmall
    refine hrejects ⟨?_, hhash h, fun last hload => .inr ?_⟩
    · rw [hheight]
      exact Int.not_lt.mp hsmall
    · obtain ⟨hsucc, hsame⟩ := hlast last hload
      have hmax : bigintMax < (maxValue 64 : Int) := by decide
      have hbelow : last.height < maxValue 64 := by omega
      have hlink := Header.isChildOf_iff.mp (chain.linked last.height hbelow)
      rw [hsucc] at hlink
      rw [Header.isChildOf_iff, hheight, hsame]
      exact ⟨hsucc.symm, by omega, hlink.2.2⟩

end Journal
structure Tracking (config : SchedulerConfig) (chain : ServedChain B) (j : IngestionBlocks)
    (m : SchedulerRun B) : Prop where
  steady : ∃ origin, config.startHeight ≤ origin ∧
    SchedulerRun.Steady origin config .new m ∧ m.cursor origin = nextHeight config j
  served : ∀ block rest, m.phase = .delivering block rest → ∀ b ∈ block :: rest,
    b = chain.block b.header.height

def Ready (config : SchedulerConfig) (chain : ServedChain B) (j : IngestionBlocks) :
    Proc B → Prop
  | .down => True
  | .started booted => booted = config
  | .loaded booted last => booted = config ∧ load j = .ok (some last)
  | .running _ m => Tracking config chain j m

structure Healthy (i : Nat) (config : SchedulerConfig) (chain : ServedChain B) (c : Cluster B) :
    Prop where
  chained : c.journal.Chained
  onChain : OnChain chain c.journal
  continues : config.startHeight ≤ nextHeight config c.journal
  ready : Ready config chain c.journal (c.procs i)

def weight : Proc B → Nat
  | .running _ m => SchedulerRun.weight m.phase
  | .loaded _ _ => 5
  | .started _ => 6
  | .down => 7

def rank (i target : Nat) (config : SchedulerConfig) (c : Cluster B) : Nat :=
  3 * (min target config.last + 1 - nextHeight config c.journal) + weight (c.procs i)

def Ingested (i target : Nat) (config : SchedulerConfig) (chain : ServedChain B)
    (c : Cluster B) : Prop :=
  Healthy i config chain c ∧ min target config.last < nextHeight config c.journal

section Scheduling
variable {m n : SchedulerRun B}

theorem outstanding_length (config : SchedulerConfig) (origin target : Nat)
    (m : SchedulerRun B) :
    (m.outstanding origin target config .new).length =
      min target config.last + 1 - m.cursor origin := by
  rw [SchedulerRun.outstanding, enumerate_full fun x _ _ => RangePlan.new_legal x,
    List.length_range']

theorem delivered_at_cursor {origin : Nat}
    (hm : SchedulerRun.Invariant origin config .new m) {block : GenericBlock B}
    {rest : List (GenericBlock B)} (hphase : m.phase = .delivering block rest) :
    block.header.height = m.cursor origin := by
  obtain ⟨hrem, hle⟩ := SchedulerRun.cursor_le_delivered hm hphase
  rw [FetchScheduler.remaining, hm.samePlan,
    enumerate_full fun x _ _ => RangePlan.new_legal x] at hrem
  cases hn : m.scheduler.config.last + 1 - m.cursor origin with
  | zero =>
    rw [hn] at hrem
    cases hrem
  | succ k =>
    rw [hn, List.range'_succ] at hrem
    exact (List.cons.inj hrem).1.symm

theorem served_step {l : Label B} (hm : Tracking config chain j m)
    (hl : SchedulerRun.Serving chain target m l) (h : m.step l = some n) :
    ∀ block rest, n.phase = .delivering block rest → ∀ b ∈ block :: rest,
      b = chain.block b.header.height := by
  intro block rest hn b hb
  rcases SchedulerRun.delivering_step h hn with
    ⟨first, others, hdel, hsub⟩ | ⟨fetchBlock, heights, rfl, hfetch⟩
  · exact hm.served first others hdel b (hsub b hb)
  · obtain rfl := hl
    exact (Except.ok.inj (fetchNext_from hfetch hb)).symm

theorem tracking_start {resumed : FetchScheduler} {origin : Nat}
    (hstart : config.startHeight ≤ origin) (hpos : resumed.Positioned origin)
    (hconfig : resumed.config = config) (hplan : resumed.plan = .new)
    (hpending : resumed.pending = []) (hnext : origin = nextHeight config j) :
    Tracking config chain j (.start resumed : SchedulerRun B) := by
  subst hconfig
  refine ⟨⟨origin, hstart, ⟨?_, ?_⟩, hnext⟩, fun _ _ hn => (by cases hn)⟩
  · exact hplan ▸ SchedulerRun.invariant_start hpos hpending
  · exact hpending ▸ .nil

end Scheduling
section Steps
variable {p : Proc B}

structure Advances (i target : Nat) (config : SchedulerConfig) (chain : ServedChain B)
    (c d : Cluster B) : Prop where
  healthy : Healthy i config chain d
  forward : nextHeight config c.journal ≤ nextHeight config d.journal
  lowers : nextHeight config c.journal ≤ min target config.last →
    min target config.last < nextHeight config d.journal ∨
      rank i target config d < rank i target config c

theorem advances_proc (hc : Healthy i config chain c) (hp : Ready config chain c.journal p)
    (hlt : weight p < weight (c.procs i)) : Advances i target config chain c (c.setProc i p) := by
  have hproc : (c.setProc i p).procs i = p := Function.update_self ..
  refine ⟨⟨hc.chained, hc.onChain, hc.continues, by rw [hproc]; exact hp⟩, le_refl _,
    fun _ => .inr ?_⟩
  rw [rank, rank, hproc]
  exact Nat.add_lt_add_left hlt _

theorem advances_load (hc : Healthy i config chain c) (h : c.step (.load i) = some d) :
    Advances i target config chain c d := by
  have hready := hc.ready
  simp only [step] at h
  split at h
  next booted e hp hload =>
    rw [load_eq hc.chained] at hload
    cases hload
  next booted hp hload =>
    cases h
    rw [hp] at hready
    obtain rfl := hready
    have hnil : c.journal.rows = [] := by
      rw [load_eq hc.chained, Except.ok.injEq, Option.map_eq_none_iff,
        List.getLast?_eq_none_iff] at hload
      exact hload
    refine advances_proc hc ?_ (by rw [hp]; exact (by decide : 3 < 6))
    exact tracking_start (le_refl _)
      (FetchScheduler.positioned_new booted RangePlan.new_wellFormed) rfl rfl rfl
      (nextHeight_nil hnil).symm
  next booted last hp hload =>
    cases h
    rw [hp] at hready
    exact advances_proc hc ⟨hready, hload⟩ (by rw [hp]; exact (by decide : 5 < 6))
  · cases h

theorem ready_resume (hc : Healthy i config chain c) {last : Header}
    (hload : load c.journal = .ok (some last)) :
    ∃ m, resume config last (.ok (chain.block last.height).header) = .running (some last) m ∧
      Tracking config chain c.journal m ∧ m.phase = .idle none := by
  obtain ⟨row, hrow, rfl⟩ := (load_some hc.chained).mp hload
  have hmem := List.mem_of_getLast? hrow
  have hnext : nextHeight config c.journal = (headerOf row).height + 1 := nextHeight_last hrow
  have hbound := loaded_height hc.chained hload
  have hstart := hc.continues
  rw [hnext] at hstart
  have hhash : (chain.block (headerOf row).height).header.hash = (headerOf row).hash :=
    (headerOf_onChain hc.onChain hmem).2.symm
  have hsat : ¬saturatingAdd 64 (headerOf row).height 1 < config.startHeight := by
    rw [saturatingAdd_of_le (by omega)]
    omega
  refine ⟨.start ((FetchScheduler.new config .new).resumeFrom (headerOf row).height), ?_, ?_, rfl⟩
  · rw [resume]
    rw [if_neg (not_not.mpr hhash), if_neg hsat]
  · exact tracking_start hstart (FetchScheduler.positioned_resumeFrom RangePlan.new_wellFormed
      (le_of_lt hbound) hstart) rfl rfl rfl hnext.symm

theorem advances_schedule (hb : 0 < config.batchSize) {a b : Nat}
    (hbp : config.backpressure = .new a b) (hc : Healthy i config chain c) {l : Label B}
    {resumed : Option Header} {m n : SchedulerRun B} (hp : c.procs i = .running resumed m)
    (hl : SchedulerRun.Serving chain target m l) (hinternal : internal l = true)
    (h : m.step l = some n) :
    Advances i target config chain c (c.setProc i (.running resumed n)) := by
  have hready := hc.ready
  rw [hp] at hready
  obtain ⟨origin, hstart, hm, hcursor⟩ := hready.steady
  have hncursor : n.cursor origin = nextHeight config c.journal :=
    (SchedulerRun.cursor_internal (fun _ hl => by rw [hl] at hinternal; cases hinternal) h).trans
      hcursor
  have hproc : (c.setProc i (.running resumed n)).procs i = .running resumed n :=
    Function.update_self ..
  refine ⟨⟨hc.chained, hc.onChain, hc.continues, ?_⟩, le_refl _, fun hopen => .inr ?_⟩
  · rw [hproc]
    exact ⟨⟨origin, hstart, hm.step hstart h, hncursor⟩, served_step hready hl h⟩
  · have hlen : ∀ x : SchedulerRun B, x.cursor origin = nextHeight config c.journal →
        (x.outstanding origin target config .new).length =
          min target config.last + 1 - nextHeight config c.journal := fun x hx => by
      rw [outstanding_length, hx]
    have hbehind : ∀ x : SchedulerRun B, x.cursor origin = nextHeight config c.journal →
        ¬SchedulerRun.CaughtUp origin target config .new x := by
      intro x hx hcaught
      have := hlen x hx
      rw [hcaught.2, List.length_nil] at this
      omega
    have hlower := (SchedulerRun.step_lowers hstart hb hbp hm (hbehind m hcursor) hl h).resolve_left
      (hbehind n hncursor)
    rw [SchedulerRun.rank, SchedulerRun.rank, hlen n hncursor, hlen m hcursor] at hlower
    rw [rank, rank, hproc, hp]
    exact hlower

theorem advances_accept (hb : 0 < config.batchSize)
    (hhash : ∀ h, (chain.block h).header.hash ≠ "")
    (htarget : (min target config.last : Nat) ≤ bigintMax) (hc : Healthy i config chain c)
    {resumed : Option Header} {m n : SchedulerRun B} (hp : c.procs i = .running resumed m)
    {block : GenericBlock B} {rest : List (GenericBlock B)}
    (hphase : m.phase = .delivering block rest)
    (h : m.step (.accept ((commit c.journal block.header).1.mapError .store)) = some n) :
    Advances i target config chain c ({ c with
      journal := (commit c.journal block.header).2 }.setProc i (.running resumed n)) := by
  have hready := hc.ready
  rw [hp] at hready
  obtain ⟨origin, hstart, hm, hcursor⟩ := hready.steady
  have hheight := delivered_at_cursor hm.invariant hphase
  have hnext : block.header.height = nextHeight config c.journal := hheight.trans hcursor
  have hblock : block = chain.block block.header.height :=
    hready.served block rest hphase block List.mem_cons_self
  have hsteady := hm.step hstart h
  have hheader : block.header = (chain.block block.header.height).header :=
    congrArg GenericBlock.header hblock
  rcases commit_next hc.chained hc.onChain hhash hnext with
    ⟨height, t, hval, hcommit, hrows⟩ | ⟨hbig, e, hcommit⟩
  · rw [← hheader] at hcommit
    rw [hcommit] at h ⊢
    have hserving : SchedulerRun.Serving chain target m (.accept (.ok ())) := rfl
    have hn : n = m.accept block rest (.ok ()) := by
      simp only [SchedulerRun.step, hphase] at h
      exact (Option.some.inj h).symm
    have htnext : nextHeight config t = block.header.height + 1 := by
      rw [nextHeight_append hrows]
      change height.val.toNat + 1 = _
      omega
    have hncursor : n.cursor origin = nextHeight config t := by
      rw [hn, SchedulerRun.cursor_accept, htnext]
    have hproc : (({ c with journal := t } : Cluster B).setProc i (.running resumed n)).procs i =
        .running resumed n := Function.update_self ..
    refine ⟨⟨?_, onChain_append hc.onChain hval hrows, ?_, ?_⟩, ?_, fun hopen => ?_⟩
    · have hchained := chained_commit hc.chained block.header
      rw [hcommit] at hchained
      exact hchained
    · change config.startHeight ≤ nextHeight config t
      have := hc.continues
      omega
    · rw [hproc]
      exact ⟨⟨origin, hstart, hsteady, hncursor⟩, served_step hready hserving h⟩
    · change _ ≤ nextHeight config t
      omega
    · by_cases hdone : min target config.last < nextHeight config t
      · exact .inl hdone
      · refine .inr ?_
        have hne : m.outstanding origin target config .new ≠ [] := by
          intro hnil
          have hlen := outstanding_length config origin target m
          rw [hnil, List.length_nil] at hlen
          omega
        rw [hn] at hsteady hncursor
        rcases SchedulerRun.accept_lowers hb hm hne hphase hsteady with hcaught | hlower
        · have hlen := outstanding_length config origin target (m.accept block rest (.ok ()))
          rw [hcaught.2, List.length_nil] at hlen
          omega
        · rw [SchedulerRun.rank, SchedulerRun.rank, outstanding_length, outstanding_length,
            hncursor, hcursor] at hlower
          rw [rank, rank, hproc, hp, hn]
          exact hlower
  · rw [← hheader] at hcommit
    rw [hcommit] at h ⊢
    have hn : n = m.accept block rest (.error (.store e)) := by
      simp only [SchedulerRun.step, hphase] at h
      exact (Option.some.inj h).symm
    have hproc : (({ c with journal := c.journal } : Cluster B).setProc i
        (.running resumed n)).procs i = .running resumed n := Function.update_self ..
    refine ⟨⟨hc.chained, hc.onChain, hc.continues, ?_⟩, le_refl _, fun hopen => ?_⟩
    · rw [hproc]
      refine ⟨⟨origin, hstart, hsteady, ?_⟩, fun b bs hb' => ?_⟩
      · rw [hn]
        exact hcursor
      · rw [hn] at hb'
        cases hb'
    · omega

theorem advances_step (hb : 0 < config.batchSize) {a b : Nat}
    (hbp : config.backpressure = .new a b) (hhash : ∀ h, (chain.block h).header.hash ≠ "")
    (htarget : (min target config.last : Nat) ≤ bigintMax) (hc : Healthy i config chain c)
    {e : Event B} (he : Serving i config chain target c e) (h : c.step e = some d) :
    Advances i target config chain c d := by
  cases e with
  | boot k booted =>
    obtain ⟨rfl, rfl⟩ := he
    simp only [step] at h
    split at h
    next hp =>
      cases h
      exact advances_proc hc rfl (by rw [hp]; exact (by decide : 6 < 7))
    next => cases h
  | load k =>
    obtain rfl := he
    exact advances_load hc h
  | checkCanonical k answer =>
    obtain ⟨rfl, hanswer⟩ := he
    have hready := hc.ready
    simp only [step] at h
    split at h
    next booted last hp =>
      cases h
      rw [hp] at hready
      obtain ⟨rfl, hload⟩ := hready
      obtain ⟨m, hresume, htracking, hidle⟩ := ready_resume hc hload
      rw [hanswer booted last hp, hresume]
      refine advances_proc hc htracking ?_
      rw [hp, weight, hidle]
      exact (by decide : 3 < 5)
    next => cases h
  | schedule k l =>
    obtain ⟨rfl, hl⟩ := he
    simp only [step] at h
    split at h
    next resumed m hp =>
      split_ifs at h with hinternal
      obtain ⟨n, hn, rfl⟩ := Option.map_eq_some_iff.mp h
      exact advances_schedule hb hbp hc hp (hl resumed m hp) hinternal hn
    next => cases h
  | accept k delivery =>
    obtain ⟨rfl, rfl⟩ := he
    simp only [step] at h
    split at h
    next resumed m hp =>
      split at h
      next block rest hphase =>
        obtain ⟨n, hn, rfl⟩ := Option.map_eq_some_iff.mp h
        exact advances_accept hb hhash htarget hc hp hphase hn
      next => cases h
    next => cases h
  | commit header delivery => exact he.elim
  | crash k => exact he.elim

theorem serving_descends (hb : 0 < config.batchSize) {a b : Nat}
    (hbp : config.backpressure = .new a b) (hhash : ∀ h, (chain.block h).header.hash ≠ "")
    (htarget : (min target config.last : Nat) ≤ bigintMax) :
    Descending step (Serving i config chain target) (Healthy i config chain)
      (Ingested i target config chain) (rank i target config) where
  keeps := fun _ _ _ hc he h =>
    have hadv := advances_step hb hbp hhash htarget hc.1 he h
    ⟨hadv.healthy, Nat.lt_of_lt_of_le hc.2 hadv.forward⟩
  lowers := fun s _ _ hc hopen he h => by
    have hadv := advances_step hb hbp hhash htarget hc he h
    have hle : nextHeight config s.journal ≤ min target config.last := by
      by_contra hgt
      exact hopen ⟨hc, Nat.not_le.mp hgt⟩
    exact (hadv.lowers hle).imp (fun hdone => ⟨hadv.healthy, hdone⟩)
      fun hlt => ⟨hadv.healthy, hlt⟩

theorem serving_enabled (htop : target ≤ maxValue 64) (hc : Healthy i config chain c) :
    ∃ e, Serving i config chain target c e ∧ (c.step e).isSome = true := by
  have hready := hc.ready
  cases hp : c.procs i with
  | down => exact ⟨.boot i config, ⟨rfl, rfl⟩, by simp [step, hp]⟩
  | started booted =>
    refine ⟨.load i, rfl, ?_⟩
    simp only [step, hp, load_eq hc.chained]
    cases c.journal.rows.getLast? <;> rfl
  | loaded booted last =>
    refine ⟨.checkCanonical i (.ok (chain.block last.height).header),
      ⟨rfl, fun booted' last' h => ?_⟩, by simp [step, hp]⟩
    rw [hp] at h
    cases h
    rfl
  | running resumed m =>
    rw [hp] at hready
    obtain ⟨origin, hstart, hm, _⟩ := hready.steady
    cases hphase : m.phase with
    | delivering block rest =>
      exact ⟨.accept i .acknowledged, ⟨rfl, rfl⟩,
        by simp [step, hp, hphase, SchedulerRun.step]⟩
    | _ =>
      obtain ⟨l, n, hl, hn, _⟩ := SchedulerRun.serving_enabled hstart htop hm
      have hinternal : internal l = true := by
        cases l with
        | resumeFrom => exact hl.elim
        | accept result =>
          simp only [SchedulerRun.step, hphase] at hn
          cases hn
        | _ => rfl
      refine ⟨.schedule i l, ⟨rfl, fun resumed' m' h => ?_⟩, by simp [step, hp, hinternal, hn]⟩
      rw [hp] at h
      cases h
      exact hl

theorem rank_le (hc : Healthy i config chain c) :
    rank i target config c ≤ 3 * (min target config.last + 1 - config.startHeight) + 7 := by
  have hweight : ∀ p : Proc B, weight p ≤ 7 := by
    intro p
    cases p with
    | running resumed m => exact (SchedulerRun.weight_le m.phase).trans (by decide)
    | down => exact le_refl _
    | started booted => exact Nat.le_succ _
    | loaded booted last => exact (by decide : 5 ≤ 7)
  have := hweight (c.procs i)
  have := hc.continues
  rw [rank]
  omega

theorem Ingested.row (hc : Ingested i target config chain c) {h : Nat}
    (hlow : config.startHeight ≤ h) (hfirst : ∀ row ∈ c.journal.rows.head?, row.height.val ≤ h)
    (htarget : h ≤ target) (hlast : h ≤ config.last) :
    ∃ row ∈ c.journal.rows, row.height.val = h ∧
      row = encode row.height (chain.block h).header := by
  obtain ⟨hhealthy, hnext⟩ := hc
  cases hl : c.journal.rows.getLast? with
  | none =>
    rw [nextHeight_nil (List.getLast?_eq_none_iff.mp hl)] at hnext
    omega
  | some last =>
    rw [nextHeight_last hl] at hnext
    have hpos : 0 < c.journal.rows.length := by
      rw [List.length_pos_iff_ne_nil]
      intro hnil
      rw [hnil] at hl
      cases hl
    have hend : c.journal.rows[c.journal.rows.length - 1] = last := by
      rw [List.getLast?_eq_getElem?, List.getElem?_eq_getElem (by omega)] at hl
      exact Option.some.inj hl
    have hspan := hhealthy.chained.height_at (i := c.journal.rows.length - 1) (by omega) hpos
    rw [hend] at hspan
    have hhead := hfirst c.journal.rows[0] (by
      rw [List.head?_eq_getElem?, List.getElem?_eq_getElem hpos]
      exact Option.mem_some_self _)
    have hnonneg := hhealthy.chained.height_at (i := 0) hpos hpos
    have hcheck := c.journal.checked _ (List.getElem_mem hpos)
    have hk : (h - c.journal.rows[0].height.val).toNat < c.journal.rows.length := by omega
    have hrow := hhealthy.chained.height_at hk hpos
    have hval : c.journal.rows[(h - c.journal.rows[0].height.val).toNat].height.val = h := by omega
    have hchain := hhealthy.onChain _ (List.getElem_mem hk)
    rw [hval, Int.toNat_natCast] at hchain
    exact ⟨_, List.getElem_mem hk, hval, hchain⟩

end Steps

theorem restarted_node_catches_up (i : Nat) (config : SchedulerConfig) (hb : 0 < config.batchSize)
    {a b : Nat} (hbp : config.backpressure = .new a b) (chain : ServedChain B)
    (hhash : ∀ h, (chain.block h).header.hash ≠ "") {target : Nat} (htop : target ≤ maxValue 64)
    (htarget : (min target config.last : Nat) ≤ bigintMax) (events : List (Event B))
    (c : Cluster B) (hrun : run step start events = some c) (hdown : c.procs i = .down)
    (hchain : OnChain chain c.journal)
    (hstart : config.startHeight ≤ nextHeight config c.journal) :
    (∀ n, ∃ more d, more.length = n ∧ Guarded step (Serving i config chain target) c more ∧
      run step c more = some d) ∧
    ∀ more d, Guarded step (Serving i config chain target) c more → run step c more = some d →
      3 * (min target config.last + 1 - config.startHeight) + 7 < more.length →
      ∀ h : Nat, config.startHeight ≤ h →
        (∀ row ∈ d.journal.rows.head?, row.height.val ≤ h) → h ≤ target → h ≤ config.last →
        ∃ row ∈ d.journal.rows, row.height.val = h ∧
          row = encode row.height (chain.block h).header := by
  have hc : Healthy i config chain c :=
    ⟨(invariant_run hrun invariant_start).chained, hchain, hstart, by rw [hdown]; trivial⟩
  have hdescends : Descending step (Serving i config chain target) (Healthy i config chain)
      (Ingested i target config chain) (rank i target config) :=
    serving_descends hb hbp hhash htarget
  refine ⟨fun n => guarded_extends (fun s hs => ?_) hc n, fun more d hg hmore hlong h hlow hfirst =>
    Ingested.row (guarded_reaches hdescends (.inr hc) hg hmore
      (Nat.lt_of_le_of_lt (rank_le hc) hlong)) hlow hfirst⟩
  obtain ⟨e, he, hsome⟩ := serving_enabled htop hs
  obtain ⟨t, ht⟩ := Option.isSome_iff_exists.mp hsome
  exact ⟨e, t, he, ht, (advances_step hb hbp hhash htarget hs he ht).healthy⟩

theorem crashed_node_catches_up :
    let config : SchedulerConfig := ⟨5, some 9, 2, false, 0, .new 4 4, by decide, by decide⟩
    let events : List (Event Unit) :=
      [.boot 0 config, .load 0, .schedule 0 .invoke, .schedule 0 (.heads (.ok 9) (.ok 9)),
        .schedule 0 (.fetched SchedulerRun.uniformChain.fetchBlock), .accept 0 .lost, .crash 0]
    ∃ c, run step start events = some c ∧ c.journal.rows.length = 1 ∧
      ∀ more d, Guarded step (Serving 0 config SchedulerRun.uniformChain 9) c more →
        run step c more = some d → more.length = 23 →
        (∀ row ∈ d.journal.rows.head?, row.height.val ≤ 9) →
        ∃ row ∈ d.journal.rows, row.height.val = 9 := by
  intro config events
  obtain ⟨c, hc, hdown, hrows⟩ : ∃ c, run step start events = some c ∧ c.procs 0 = .down ∧
      c.journal.rows = [encode ⟨5, by decide, by decide⟩ ⟨5, "a", some "a", none⟩] :=
    ⟨_, rfl, rfl, rfl⟩
  have hnext : nextHeight config c.journal = 6 := by
    rw [nextHeight, hrows]
    rfl
  have hchain : OnChain SchedulerRun.uniformChain c.journal := by
    intro row hrow
    rw [hrows] at hrow
    rw [List.mem_singleton.mp hrow]
    rfl
  refine ⟨c, hc, by rw [hrows]; rfl, fun more d hg hmore hlen hhead => ?_⟩
  obtain ⟨row, hrow, hheight, _⟩ := (restarted_node_catches_up 0 config (by decide) rfl
    SchedulerRun.uniformChain (fun _ => (by decide : "a" ≠ "")) (by decide : 9 ≤ maxValue 64)
    (by decide) events c hc hdown hchain (by rw [hnext]; decide)).2 more d hg hmore
    (by rw [hlen]; decide) 9 (by decide) hhead (le_refl _) (by decide)
  exact ⟨row, hrow, hheight⟩

end Cluster
end SuperqueryNode.Node

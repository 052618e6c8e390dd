import SuperqueryNode.Fetch.SchedulerRun
import SuperqueryNode.Store.Ingestion

namespace SuperqueryNode.Node
open Unsigned Enumeration LabelledRun ChainApi Fetch Store Store.Ingestion

inductive Proc (B : Type) where
  | down
  | started (config : SchedulerConfig)
  | loaded (config : SchedulerConfig) (last : Header)
  | running (resumed : Option Header) (run : SchedulerRun B)

structure Cluster (B : Type) where
  journal : IngestionBlocks
  procs : Nat → Proc B

inductive Delivery where
  | acknowledged
  | lost
  | aborted (e : StoreError)

inductive Event (B : Type) where
  | boot (i : Nat) (config : SchedulerConfig)
  | load (i : Nat)
  | checkCanonical (i : Nat) (answer : Except ChainError Header)
  | schedule (i : Nat) (l : Label B)
  | accept (i : Nat) (delivery : Delivery)
  | commit (header : Header) (delivery : Delivery)
  | crash (i : Nat)

namespace Cluster
variable {B : Type}

def start : Cluster B := ⟨.empty, fun _ => .down⟩

def setProc (c : Cluster B) (i : Nat) (p : Proc B) : Cluster B :=
  { c with procs := Function.update c.procs i p }

-- `lost`: the transaction ran, but its answer never reached the caller.
def deliver (j : IngestionBlocks) (header : Header) :
    Delivery → Except StoreError Unit × IngestionBlocks
  | .acknowledged => commit j header
  | .lost => (.error (.postgres "connection closed"), (commit j header).2)
  | .aborted e => (.error e, j)

def resume (config : SchedulerConfig) (last : Header) (answer : Except ChainError Header) :
    Proc B :=
  match answer with
  | .error _ => .down
  | .ok canonical =>
    if canonical.hash ≠ last.hash then .down
    else if saturatingAdd 64 last.height 1 < config.startHeight then .down
    else .running (some last) (.start ((FetchScheduler.new config .new).resumeFrom last.height))

-- `ingest::run` resumes only before its one scheduler run; acceptance goes through the journal.
def internal : Label B → Bool
  | .resumeFrom => false
  | .accept _ => false
  | _ => true

def step (c : Cluster B) : Event B → Option (Cluster B)
  | .boot i config =>
    match c.procs i with
    | .down => some (c.setProc i (.started config))
    | _ => none
  | .load i =>
    match c.procs i, load c.journal with
    | .started _, .error _ => some (c.setProc i .down)
    | .started config, .ok none =>
      some (c.setProc i (.running none (.start (.new config .new))))
    | .started config, .ok (some last) => some (c.setProc i (.loaded config last))
    | _, _ => none
  | .checkCanonical i answer =>
    match c.procs i with
    | .loaded config last => some (c.setProc i (resume config last answer))
    | _ => none
  | .schedule i l =>
    match c.procs i with
    | .running resumed m =>
      if internal l then (m.step l).map fun m => c.setProc i (.running resumed m) else none
    | _ => none
  | .accept i delivery =>
    match c.procs i with
    | .running resumed m =>
      match m.phase with
      | .delivering block _ =>
        let r := deliver c.journal block.header delivery
        (m.step (.accept (r.1.mapError .store))).map fun m =>
          { c with journal := r.2 }.setProc i (.running resumed m)
      | _ => none
    | _ => none
  | .commit header delivery => some { c with journal := (deliver c.journal header delivery).2 }
  | .crash i => some (c.setProc i .down)

def Resumed : Proc B → Prop
  | .loaded _ last => last.height < maxValue 64
  | .running (some last) m => ∃ config : SchedulerConfig, config.startHeight ≤ last.height + 1 ∧
      SchedulerRun.Invariant (last.height + 1) config .new m
  | _ => True

structure Invariant (c : Cluster B) : Prop where
  chained : c.journal.Chained
  resumed : ∀ i, Resumed (c.procs i)

section Steps
variable {c d : Cluster B}

theorem deliver_journal (j : IngestionBlocks) (header : Header) (delivery : Delivery) :
    (deliver j header delivery).2 = j ∨ (deliver j header delivery).2 = (commit j header).2 := by
  cases delivery with
  | acknowledged => exact .inr rfl
  | lost => exact .inr rfl
  | aborted e => exact .inl rfl

theorem chained_deliver {j : IngestionBlocks} (hj : j.Chained) (header : Header)
    (delivery : Delivery) : (deliver j header delivery).2.Chained ∧
      j.rows <+: (deliver j header delivery).2.rows := by
  rcases deliver_journal j header delivery with h | h
  · rw [h]
    exact ⟨hj, List.prefix_refl _⟩
  · rw [h]
    exact ⟨chained_commit hj header, commit_prefix hj header⟩

theorem resumed_setProc (hc : ∀ i, Resumed (c.procs i)) (i : Nat) {p : Proc B}
    (hp : Resumed p) (k : Nat) : Resumed ((c.setProc i p).procs k) := by
  by_cases hk : k = i
  · subst hk
    simpa [setProc] using hp
  · simpa [setProc, hk] using hc k

theorem resumed_resume {config : SchedulerConfig} {last : Header} (hlast : last.height < maxValue 64)
    (answer : Except ChainError Header) : Resumed (resume config last answer : Proc B) := by
  cases answer with
  | error e => trivial
  | ok canonical =>
    unfold resume
    simp only
    split_ifs with hhash hstart
    · trivial
    · trivial
    · have hle : config.startHeight ≤ last.height + 1 := by
        rw [saturatingAdd_of_le (by omega)] at hstart
        omega
      have hpos : ((FetchScheduler.new config .new).resumeFrom last.height).Positioned
          (last.height + 1) :=
        FetchScheduler.positioned_resumeFrom RangePlan.new_wellFormed (le_of_lt hlast) hle
      exact ⟨config, hle, SchedulerRun.invariant_start hpos rfl⟩

theorem resumed_step {resumed : Option Header} {m t : SchedulerRun B} {l : Label B}
    (hp : Resumed (.running resumed m)) (h : m.step l = some t) :
    Resumed (.running resumed t) := by
  cases resumed with
  | none => trivial
  | some last =>
    obtain ⟨config, hstart, hm⟩ := hp
    exact ⟨config, hstart, SchedulerRun.invariant_step hstart hm h⟩

theorem loaded_height {j : IngestionBlocks} (hj : j.Chained) {last : Header}
    (h : load j = .ok (some last)) : last.height < maxValue 64 := by
  obtain ⟨row, hrow, rfl⟩ := (load_some hj).mp h
  have hbig := row.height.upper
  have hmax : 0 ≤ bigintMax ∧ bigintMax < (maxValue 64 : Int) := by decide
  simp only [headerOf]
  omega

theorem invariant_step (hc : Invariant c) {e : Event B} (h : c.step e = some d) :
    Invariant d ∧ c.journal.rows <+: d.journal.rows := by
  have hsame : ∀ i (p : Proc B), Resumed p →
      Invariant (c.setProc i p) ∧ c.journal.rows <+: (c.setProc i p).journal.rows := fun i p hp =>
    ⟨⟨hc.chained, resumed_setProc hc.resumed i hp⟩, List.prefix_refl _⟩
  cases e with
  | boot i config =>
    simp only [step] at h
    split at h
    · cases h
      exact hsame i _ trivial
    · cases h
  | load i =>
    simp only [step] at h
    split at h
    · cases h
      exact hsame i _ trivial
    · cases h
      exact hsame i _ trivial
    next config last _ hload =>
      cases h
      exact hsame i _ (loaded_height hc.chained hload)
    · cases h
  | checkCanonical i answer =>
    simp only [step] at h
    split at h
    next config last hp =>
      cases h
      have hlast := hc.resumed i
      rw [hp] at hlast
      exact hsame i _ (resumed_resume hlast answer)
    next => cases h
  | schedule i l =>
    simp only [step] at h
    split at h
    next resumed m hp =>
      split_ifs at h
      obtain ⟨t, ht, rfl⟩ := Option.map_eq_some_iff.mp h
      have hm := hc.resumed i
      rw [hp] at hm
      exact hsame i _ (resumed_step hm ht)
    next => cases h
  | accept i delivery =>
    simp only [step] at h
    split at h
    next resumed m hp =>
      split at h
      next block rest _ =>
        obtain ⟨t, ht, rfl⟩ := Option.map_eq_some_iff.mp h
        have hm := hc.resumed i
        rw [hp] at hm
        obtain ⟨hchained, hprefix⟩ := chained_deliver hc.chained block.header delivery
        exact ⟨⟨hchained, resumed_setProc hc.resumed i (resumed_step hm ht)⟩, hprefix⟩
      next => cases h
    next => cases h
  | commit header delivery =>
    cases h
    obtain ⟨hchained, hprefix⟩ := chained_deliver hc.chained header delivery
    exact ⟨⟨hchained, hc.resumed⟩, hprefix⟩
  | crash i =>
    cases h
    exact hsame i _ trivial

theorem invariant_start : Invariant (start : Cluster B) :=
  ⟨IngestionBlocks.chained_empty, fun _ => trivial⟩

theorem first_proposed {last : Header} {m : SchedulerRun B}
    (hp : Resumed (.running (some last) m)) {h : Nat} (hh : h ∈ m.proposed.head?) :
    h = last.height + 1 := by
  obtain ⟨config, _, hm⟩ := hp
  have hfirst := hm.first h hh
  rw [enumerate_full fun x _ _ => RangePlan.new_legal x, List.head?_range'] at hfirst
  split_ifs at hfirst
  exact (Option.some.inj hfirst).symm

theorem invariant_run {events : List (Event B)} (h : run step c events = some d)
    (hc : Invariant c) : Invariant d :=
  run_invariant (fun _ _ _ hs h => (invariant_step hs h).1) hc h

theorem rows_run {events : List (Event B)} (h : run step c events = some d)
    (hc : Invariant c) : c.journal.rows <+: d.journal.rows :=
  run_preorder (fun s : Cluster B => List.prefix_refl s.journal.rows)
    (fun _ _ _ hst htu => hst.trans htu) (fun _ _ _ hs h => invariant_step hs h) hc h

end Steps

theorem journal_is_one_chain (events : List (Event B)) (c : Cluster B)
    (hrun : run step start events = some c) :
    (c.journal.rows.IsChain fun a b =>
      b.height.val = a.height.val + 1 ∧ b.parentHash = some a.hash) ∧
    (∀ (i : Nat) (hi : i < c.journal.rows.length) (h0 : 0 < c.journal.rows.length),
      c.journal.rows[i].height.val = c.journal.rows[0].height.val + i) ∧
    (∀ events' d, run step c events' = some d → c.journal.rows <+: d.journal.rows) ∧
    (∀ header height, Precise header → sqlHeight header.height = .ok height →
      c.journal.rows.getLast? = some (encode height header) →
        commit c.journal header = (.ok (), c.journal)) ∧
    (∀ header, ¬Accepts c.journal header →
      ∃ e, commit c.journal header = (.error e, c.journal)) ∧
    (∀ header e, (commit c.journal header).1 = .error e →
      (commit c.journal header).2 = c.journal) ∧
    (∀ i last m, c.procs i = .running (some last) m →
      ∀ h ∈ m.proposed.head?, h = last.height + 1) := by
  have hc : Invariant c := invariant_run hrun invariant_start
  refine ⟨hc.chained.linked, fun _ hi h0 => hc.chained.height_at hi h0,
    fun events' d h => rows_run h hc, ?_, ?_, ?_, ?_⟩
  · intro header height hp hh hl
    exact commit_retry hc.chained
      ((load_some hc.chained).mpr ⟨_, hl, headerOf_encode hp hh⟩)
  · intro header hrej
    rcases commit_cases hc.chained header with ⟨hacc, _⟩ | ⟨hacc, _⟩ | ⟨_, h⟩
    · exact absurd hacc hrej
    · exact absurd hacc hrej
    · exact h
  · intro header e he
    rcases commit_cases hc.chained header with ⟨_, _, h⟩ | ⟨_, _, _, t, _, h, _⟩ | ⟨_, _, h⟩
    · rw [h]
    · rw [h] at he
      cases he
    · rw [h]
  · intro i last m hp h hh
    have hm := hc.resumed i
    rw [hp] at hm
    exact first_proposed hm hh

theorem two_writers_keep_one_chain :
    let config : SchedulerConfig := ⟨5, none, 2, false, 0, .new 4 4, by decide, by decide⟩
    let served : Nat → Except ChainError (GenericBlock Unit) :=
      fun h => .ok ⟨⟨h, "a", some "a", none⟩, ()⟩
    let events : List (Event Unit) :=
      [.boot 0 config, .load 0, .schedule 0 .invoke, .schedule 0 (.heads (.ok 9) (.ok 9)),
        .schedule 0 (.fetched served), .accept 0 .lost, .crash 0,
        .boot 0 config, .load 0, .boot 1 config, .load 1,
        .checkCanonical 0 (.ok ⟨5, "a", some "a", none⟩),
        .checkCanonical 1 (.ok ⟨5, "a", some "a", none⟩),
        .schedule 0 .invoke, .schedule 1 .invoke,
        .schedule 0 (.heads (.ok 9) (.ok 9)), .schedule 1 (.heads (.ok 9) (.ok 9)),
        .schedule 0 (.fetched served), .schedule 1 (.fetched served),
        .accept 0 .acknowledged, .accept 1 .acknowledged,
        .commit ⟨8, "b", some "a", none⟩ .acknowledged]
    ∃ c, run step start events = some c ∧
      c.journal.rows.IsChain fun a b =>
        b.height.val = a.height.val + 1 ∧ b.parentHash = some a.hash := by
  intro config served events
  obtain ⟨c, hc⟩ := Option.isSome_iff_exists.mp (by decide : (run step start events).isSome = true)
  exact ⟨c, hc, (journal_is_one_chain events c hc).1⟩

end Cluster
end SuperqueryNode.Node

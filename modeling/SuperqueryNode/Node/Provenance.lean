import SuperqueryNode.Fetch.Transitions
import SuperqueryNode.Node.Ingest

namespace SuperqueryNode.Node
open Unsigned Enumeration Fallible LabelledRun ChainApi Fetch Store Store.Ingestion

namespace Cluster
variable {B : Type} {events : List (Event B)} {i : Nat}

def FinalizedAt (events : List (Event B)) (i height : Nat) : Prop :=
  ∃ latest finalized, .schedule i (.heads (.ok latest) (.ok finalized)) ∈ events ∧
    height ≤ finalized.toNat ∧ height ≤ latest.toNat

def FetchedFrom (events : List (Event B)) (i : Nat) (header : Header) : Prop :=
  ∃ fetchBlock block, .schedule i (.fetched fetchBlock) ∈ events ∧
    fetchBlock header.height = .ok block ∧ block.header = header

structure Informed (events : List (Event B)) (i : Nat) (config : SchedulerConfig)
    (m : SchedulerRun B) : Prop where
  booted : .boot i config ∈ events
  invariant : ∃ origin, config.startHeight ≤ origin ∧
    SchedulerRun.Invariant origin config .new m
  planned : config.indexUnfinalized = false → ∀ h ∈ m.scheduler.pending, FinalizedAt events i h
  held : ∀ block rest, m.phase = .delivering block rest → ∀ b ∈ block :: rest,
    FetchedFrom events i b.header

def Accounted (events : List (Event B)) (i : Nat) : Proc B → Prop
  | .down => True
  | .started config => .boot i config ∈ events
  | .loaded config _ => .boot i config ∈ events
  | .running _ m => ∃ config, Informed events i config m

def Traced (events : List (Event B)) (row : IngestionRow) : Prop :=
  (∃ header delivery, .commit header delivery ∈ events ∧ row = encode row.height header) ∨
  ∃ i config header, .boot i config ∈ events ∧ FetchedFrom events i header ∧
    row = encode row.height header ∧ row.height.val = header.height ∧
    config.startHeight ≤ header.height ∧ header.height ≤ config.last ∧
    (config.indexUnfinalized = false → FinalizedAt events i header.height)

structure History (events : List (Event B)) (c : Cluster B) : Prop where
  invariant : Invariant c
  procs : ∀ i, Accounted events i (c.procs i)
  rows : ∀ row ∈ c.journal.rows, Traced events row

section Later
variable {e : Event B}

theorem FinalizedAt.later {height : Nat} (h : FinalizedAt events i height) :
    FinalizedAt (events ++ [e]) i height := by
  obtain ⟨latest, finalized, hmem, hle⟩ := h
  exact ⟨latest, finalized, List.mem_append_left _ hmem, hle⟩

theorem FetchedFrom.later {header : Header} (h : FetchedFrom events i header) :
    FetchedFrom (events ++ [e]) i header := by
  obtain ⟨fetchBlock, block, hmem, hblock⟩ := h
  exact ⟨fetchBlock, block, List.mem_append_left _ hmem, hblock⟩

theorem Informed.later {config : SchedulerConfig} {m : SchedulerRun B}
    (h : Informed events i config m) : Informed (events ++ [e]) i config m where
  booted := List.mem_append_left _ h.booted
  invariant := h.invariant
  planned := fun hu x hx => (h.planned hu x hx).later
  held := fun block rest hp b hb => (h.held block rest hp b hb).later

theorem accounted_later {p : Proc B} (h : Accounted events i p) :
    Accounted (events ++ [e]) i p := by
  cases p with
  | down => trivial
  | started config => exact List.mem_append_left _ h
  | loaded config last => exact List.mem_append_left _ h
  | running resumed m => exact h.imp fun _ hm => hm.later

theorem traced_later {row : IngestionRow} (h : Traced events row) : Traced (events ++ [e]) row := by
  rcases h with ⟨header, delivery, hmem, hrow⟩ |
    ⟨k, config, header, hboot, hfetch, hrow, hheight, hlow, hhigh, hfinal⟩
  · exact .inl ⟨header, delivery, List.mem_append_left _ hmem, hrow⟩
  · exact .inr ⟨k, config, header, List.mem_append_left _ hboot, hfetch.later, hrow, hheight,
      hlow, hhigh, fun hu => (hfinal hu).later⟩

end Later

theorem deliver_rows {j : IngestionBlocks} (hj : j.Chained) (header : Header)
    (delivery : Delivery) : ∀ row ∈ (deliver j header delivery).2.rows,
      row ∈ j.rows ∨ row = encode row.height header ∧ row.height.val = header.height := by
  intro row hrow
  rcases deliver_journal j header delivery with h | h
  · exact .inl (h ▸ hrow)
  · rw [h] at hrow
    rcases commit_cases hj header with
      ⟨_, _, hc⟩ | ⟨_, _, height, t, hh, hc, hrows⟩ | ⟨_, _, hc⟩
    · rw [hc] at hrow
      exact .inl hrow
    · rw [hc, hrows] at hrow
      rcases List.mem_append.mp hrow with hrow | hrow
      · exact .inl hrow
      · rw [List.mem_singleton.mp hrow]
        exact .inr ⟨rfl, hh⟩
    · rw [hc] at hrow
      exact .inl hrow

section Steps
variable {config : SchedulerConfig} {m n : SchedulerRun B}

theorem informed_step (hm : Informed events i config m) {l : Label B}
    (hheads : ∀ latest finalized, l = .heads latest finalized →
      .schedule i (.heads latest finalized) ∈ events)
    (hfetched : ∀ fetchBlock, l = .fetched fetchBlock →
      .schedule i (.fetched fetchBlock) ∈ events)
    (h : m.step l = some n) : Informed events i config n := by
  obtain ⟨origin, hstart, hinv⟩ := hm.invariant
  refine ⟨hm.booted, ⟨origin, hstart, SchedulerRun.invariant_step hstart hinv h⟩,
    fun hu x hx => ?_, fun block rest hn b hb => ?_⟩
  · rcases SchedulerRun.pending_step hinv h with hsub | ⟨latest, finalized, head, hl, hhead, hle⟩
    · exact hm.planned hu x (hsub x hx)
    · obtain ⟨la, fi, rfl, rfl, hmin⟩ := FetchScheduler.safeHead_final hhead
      rw [hinv.sameConfig] at hmin
      have hx := hle x hx
      exact ⟨la, fi, hheads _ _ hl, hx.trans (hmin hu).1, hx.trans (hmin hu).2⟩
  · rcases SchedulerRun.delivering_step h hn with
      ⟨first, others, hdel, hsub⟩ | ⟨fetchBlock, heights, hl, hfetch⟩
    · exact hm.held first others hdel b (hsub b hb)
    · exact ⟨fetchBlock, b, hfetched fetchBlock hl, fetchNext_from hfetch hb, rfl⟩

theorem traced_delivery (hm : Informed events i config m) {block : GenericBlock B}
    {rest : List (GenericBlock B)} (hdel : m.phase = .delivering block rest) {row : IngestionRow}
    (hrow : row = encode row.height block.header)
    (hheight : row.height.val = block.header.height) : Traced events row := by
  obtain ⟨origin, hstart, hrun⟩ := hm.invariant
  have hpending : block.header.height ∈ m.scheduler.pending := by
    have hphase := hrun.phase
    rw [hdel] at hphase
    exact hphase.subset List.mem_cons_self
  have hlow : config.startHeight ≤ block.header.height := by
    have hdelivered := (SchedulerRun.cursor_le_delivered hrun hdel).2
    have hcursor := SchedulerRun.origin_le_cursor hrun.toProgress
    omega
  exact .inr ⟨i, config, block.header, hm.booted,
    hm.held block rest hdel block List.mem_cons_self, hrow, hheight, hlow,
    hrun.mem_remaining_le hpending, fun hu => hm.planned hu _ hpending⟩

theorem informed_start {s : FetchScheduler} {origin : Nat} (hboot : .boot i config ∈ events)
    (hstart : config.startHeight ≤ origin) (hpos : s.Positioned origin)
    (hconfig : s.config = config) (hplan : s.plan = .new) (hpending : s.pending = []) :
    Informed events i config (.start s : SchedulerRun B) where
  booted := hboot
  invariant := ⟨origin, hstart, hconfig ▸ hplan ▸ SchedulerRun.invariant_start hpos hpending⟩
  planned := fun _ h hh => by
    change h ∈ s.pending at hh
    rw [hpending] at hh
    cases hh
  held := fun _ _ hn => by cases hn

end Steps

section Run
variable {c d : Cluster B} {e : Event B}

theorem accounted_setProc (hc : ∀ i, Accounted events i (c.procs i)) (i : Nat) {p : Proc B}
    (hp : Accounted (events ++ [e]) i p) (k : Nat) :
    Accounted (events ++ [e]) k ((c.setProc i p).procs k) := by
  by_cases hk : k = i
  · subst hk
    simpa [setProc] using hp
  · simpa [setProc, hk] using accounted_later (hc k)

theorem accounted_resume {config : SchedulerConfig} {last : Header}
    (hlast : last.height < maxValue 64) (hboot : .boot i config ∈ events)
    (answer : Except ChainError Header) :
    Accounted events i (resume config last answer : Proc B) := by
  cases answer with
  | error e => trivial
  | ok canonical =>
    unfold resume
    simp only
    split_ifs with hhash hstart
    · trivial
    · trivial
    · have hle : config.startHeight ≤ last.height + 1 := by
        rw [saturatingAdd_of_le (by omega)] at hstart
        omega
      exact ⟨config, informed_start hboot hle
        (FetchScheduler.positioned_resumeFrom RangePlan.new_wellFormed (le_of_lt hlast) hle)
        rfl rfl rfl⟩

theorem history_step (hc : History events c) (h : c.step e = some d) :
    History (events ++ [e]) d := by
  have hinv := (invariant_step hc.invariant h).1
  have hlast : e ∈ events ++ [e] := List.mem_append_right _ (List.mem_singleton_self e)
  have hsame : ∀ i (p : Proc B), d = c.setProc i p → Accounted (events ++ [e]) i p →
      History (events ++ [e]) d := by
    rintro i p rfl hp
    exact ⟨hinv, accounted_setProc hc.procs i hp, fun row hrow => traced_later (hc.rows row hrow)⟩
  cases e with
  | boot i config =>
    simp only [step] at h
    split at h
    · exact hsame i _ (Option.some.inj h).symm hlast
    · cases h
  | load i =>
    have hp := hc.procs i
    simp only [step] at h
    split at h
    · exact hsame i _ (Option.some.inj h).symm trivial
    next config hstarted _ =>
      rw [hstarted] at hp
      exact hsame i _ (Option.some.inj h).symm ⟨config, informed_start
        (List.mem_append_left _ hp) (le_refl _)
        (FetchScheduler.positioned_new config RangePlan.new_wellFormed) rfl rfl rfl⟩
    next config last hstarted _ =>
      rw [hstarted] at hp
      exact hsame i _ (Option.some.inj h).symm (List.mem_append_left _ hp)
    · cases h
  | checkCanonical i answer =>
    have hp := hc.procs i
    simp only [step] at h
    split at h
    next config last hloaded =>
      rw [hloaded] at hp
      have hheight := hc.invariant.resumed i
      rw [hloaded] at hheight
      exact hsame i _ (Option.some.inj h).symm
        (accounted_resume hheight (List.mem_append_left _ hp) answer)
    · cases h
  | schedule i l =>
    have hp := hc.procs i
    simp only [step] at h
    split at h
    next resumed m hrunning =>
      rw [hrunning] at hp
      split_ifs at h
      obtain ⟨n, hn, hd⟩ := Option.map_eq_some_iff.mp h
      obtain ⟨config, hm⟩ := hp
      refine hsame i _ hd.symm ⟨config, informed_step hm.later ?_ ?_ hn⟩
      · rintro latest finalized rfl
        exact hlast
      · rintro fetchBlock rfl
        exact hlast
    · cases h
  | accept i delivery =>
    have hp := hc.procs i
    simp only [step] at h
    split at h
    next resumed m hrunning =>
      rw [hrunning] at hp
      split at h
      next block rest hdel =>
        obtain ⟨n, hn, rfl⟩ := Option.map_eq_some_iff.mp h
        obtain ⟨config, hm⟩ := hp
        refine ⟨hinv, accounted_setProc hc.procs i ⟨config, informed_step hm.later ?_ ?_ hn⟩,
          fun row hrow => ?_⟩
        · rintro latest finalized hl
          cases hl
        · rintro fetchBlock hl
          cases hl
        · rcases deliver_rows hc.invariant.chained block.header delivery row hrow with
            hold | ⟨hrow, hheight⟩
          · exact traced_later (hc.rows row hold)
          · exact traced_later (traced_delivery hm hdel hrow hheight)
      · cases h
    · cases h
  | commit header delivery =>
    cases h
    refine ⟨hinv, fun i => accounted_later (hc.procs i), fun row hrow => ?_⟩
    rcases deliver_rows hc.invariant.chained header delivery row hrow with hold | ⟨hrow, _⟩
    · exact traced_later (hc.rows row hold)
    · exact .inl ⟨header, delivery, hlast, hrow⟩
  | crash i => exact hsame i _ (Option.some.inj h).symm trivial

end Run

theorem journal_rows_are_traced (events : List (Event B)) (c : Cluster B)
    (hrun : run step start events = some c) : ∀ row ∈ c.journal.rows, Traced events row := by
  have hstart : History ([] : List (Event B)) (start : Cluster B) :=
    ⟨invariant_start, fun _ => trivial, fun row hrow => by cases hrow⟩
  have hc := run_history (P := History) (fun _ _ _ _ hs h => history_step hs h) hstart hrun
  exact hc.rows

theorem ingested_row_is_traced :
    let config : SchedulerConfig := ⟨5, none, 2, false, 0, .new 4 4, by decide, by decide⟩
    let served : Nat → Except ChainError (GenericBlock Unit) :=
      fun h => .ok ⟨⟨h, "a", some "a", none⟩, ()⟩
    let events : List (Event Unit) :=
      [.boot 0 config, .load 0, .schedule 0 .invoke, .schedule 0 (.heads (.ok 9) (.ok 6)),
        .schedule 0 (.fetched served), .accept 0 .acknowledged]
    ∃ c, run step start events = some c ∧ c.journal.rows.length = 1 ∧
      ∀ row ∈ c.journal.rows, Traced events row := by
  intro config served events
  obtain ⟨c, hc, hlen⟩ : ∃ c, run step start events = some c ∧ c.journal.rows.length = 1 :=
    ⟨_, rfl, rfl⟩
  exact ⟨c, hc, hlen, journal_rows_are_traced events c hc⟩

end Cluster
end SuperqueryNode.Node

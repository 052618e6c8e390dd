import SuperqueryNode.Fetch.SchedulerRun

namespace SuperqueryNode.Fetch
open Unsigned Enumeration Fallible ChainApi

variable {B : Type}

theorem fetchNext_from {fetchBlock : Nat → Except ChainError (GenericBlock B)}
    {heights : List Nat} {blocks : List (GenericBlock B)}
    (h : fetchNext fetchBlock heights = .ok blocks) {b : GenericBlock B} (hb : b ∈ blocks) :
    fetchBlock b.header.height = .ok b := by
  obtain ⟨bs, hbs, hpure⟩ := bind_eq_ok.mp h
  simp only [ite_ok_eq_ok, pure_eq_ok] at hpure
  obtain ⟨_, rfl⟩ := hpure
  obtain ⟨height, _, hone⟩ := exists_of_mem_mapM hbs hb
  obtain ⟨b', hfetch, hsame⟩ := bind_eq_ok.mp hone
  simp only [ite_error_eq_ok, pure_eq_ok, not_not] at hsame
  obtain ⟨rfl, rfl⟩ := hsame
  cases hf : fetchBlock b'.header.height with
  | error e =>
    rw [hf] at hfetch
    cases hfetch
  | ok found =>
    rw [hf] at hfetch
    cases hfetch
    rfl

namespace FetchScheduler
variable {s : FetchScheduler}

theorem safeHead_final {latest finalized : Except ChainError UInt64}
    {head : Nat} (h : s.safeHead latest finalized = .ok head) : ∃ l f, latest = .ok l ∧
      finalized = .ok f ∧ (s.config.indexUnfinalized = false → head ≤ f.toNat ∧ head ≤ l.toNat) := by
  obtain ⟨l, hl, h⟩ := bind_eq_ok.mp h
  obtain ⟨f, hf, h⟩ := bind_eq_ok.mp h
  cases latest with
  | error e => cases hl
  | ok latest =>
    cases finalized with
    | error e => cases hf
    | ok finalized =>
      cases hl
      cases hf
      refine ⟨l, f, rfl, rfl, fun hu => ?_⟩
      rw [← pure_eq_ok.mp h, Fetch.safeHead, hu]
      exact ⟨Nat.min_le_left _ _, Nat.min_le_right _ _⟩

end FetchScheduler

namespace SchedulerRun
variable {origin : Nat} {config : SchedulerConfig} {plan : RangePlan} {m t : SchedulerRun B}

theorem pending_step (hm : Invariant origin config plan m)
    {l : Label B} (h : m.step l = some t) :
    (∀ x ∈ t.scheduler.pending, x ∈ m.scheduler.pending) ∨
      ∃ latest finalized head, l = .heads latest finalized ∧
        m.scheduler.safeHead latest finalized = .ok head ∧
        ∀ x ∈ t.scheduler.pending, x ≤ head := by
  unfold step at h
  split at h
  · cases h
    rw [SchedulerRun.invoke]
    split_ifs <;> exact .inl fun x hx => hx
  · obtain ⟨last, _, rfl⟩ := Option.map_eq_some_iff.mp h
    exact .inl fun x hx => by cases hx
  next latest finalized _ =>
    cases h
    rw [SchedulerRun.plan]
    split
    · exact .inl fun x hx => hx
    next heights scheduler htext =>
      obtain ⟨_, hext⟩ := hm.positioned.nextHeights htext
      rcases hext.planned with hsame | ⟨_, head, hhead, hle⟩
      · exact .inl fun x hx => by rwa [hsame] at hx
      · exact .inr ⟨latest, finalized, head, rfl, hhead, hle⟩
  · cases h
    rw [SchedulerRun.fetch]
    split <;> exact .inl fun x hx => hx
  · cases h
    exact .inl fun x hx => hx
  next block rest result _ =>
    cases h
    refine .inl fun x hx => ?_
    cases result with
    | error e => exact hx
    | ok u =>
      simp only [SchedulerRun.accept] at hx
      cases hack : m.scheduler.acknowledge block.header.height with
      | error e =>
        rw [hack] at hx
        exact hx
      | ok scheduler =>
        rw [hack] at hx
        rw [FetchScheduler.acknowledge] at hack
        split_ifs at hack
        cases hack
        cases rest with
        | nil => exact List.mem_of_mem_tail hx
        | cons next rest => exact List.mem_of_mem_tail hx
  · cases h
  · cases h
    exact .inl fun x hx => hx
  · cases h

theorem delivering_step {l : Label B} (h : m.step l = some t) {block : GenericBlock B}
    {rest : List (GenericBlock B)} (ht : t.phase = .delivering block rest) :
    (∃ first others, m.phase = .delivering first others ∧
        ∀ b ∈ block :: rest, b ∈ first :: others) ∨
      ∃ fetchBlock heights, l = .fetched fetchBlock ∧
        fetchNext fetchBlock heights = .ok (block :: rest) := by
  unfold step at h
  split at h
  · cases h
    rw [SchedulerRun.invoke] at ht
    split_ifs at ht
    · cases ht
    · simp only [SchedulerRun.turn] at ht
      split_ifs at ht
  next outcome _ hidle =>
    obtain ⟨last, _, rfl⟩ := Option.map_eq_some_iff.mp h
    rw [hidle] at ht
    cases ht
  · cases h
    rw [SchedulerRun.plan] at ht
    split at ht
    · cases ht
    · cases ht
  next heights fetchBlock _ =>
    cases h
    rw [SchedulerRun.fetch] at ht
    split at ht
    · cases ht
    · cases ht
    next blocks hfetch =>
      cases ht
      exact .inr ⟨fetchBlock, heights, rfl, hfetch⟩
  · cases h
    simp only [SchedulerRun.turn] at ht
    split_ifs at ht
  next first others result hdel =>
    cases h
    refine .inl ⟨first, others, hdel, ?_⟩
    cases result with
    | error e => cases ht
    | ok u =>
      simp only [SchedulerRun.accept] at ht
      split at ht
      · cases ht
      · cases others with
        | nil =>
          simp only [SchedulerRun.turn] at ht
          split_ifs at ht
        | cons next others =>
          cases ht
          exact fun b hb => List.mem_cons_of_mem _ hb
  · cases h
  · cases h
    cases ht
  · cases h

theorem cursor_accept (m : SchedulerRun B) (block : GenericBlock B)
    (rest : List (GenericBlock B)) (u : Unit) :
    cursor origin (m.accept block rest (.ok u)) = block.header.height + 1 := by
  have haccepted : (m.accept block rest (.ok u)).accepted = m.accepted ++ [block.header.height] := by
    simp only [SchedulerRun.accept]
    cases m.scheduler.acknowledge block.header.height with
    | error e => rfl
    | ok scheduler =>
      cases rest with
      | nil => rfl
      | cons next rest => rfl
  rw [cursor, haccepted, List.getLast?_concat]
  rfl

theorem cursor_le_delivered (hm : Invariant origin config plan m) {block : GenericBlock B}
    {rest : List (GenericBlock B)} (hphase : m.phase = .delivering block rest) :
    m.scheduler.remaining (m.cursor origin) =
        block.header.height :: m.scheduler.remaining (block.header.height + 1) ∧
      m.cursor origin ≤ block.header.height := by
  have hp := hm.phase
  rw [hphase] at hp
  obtain ⟨tail, htail⟩ := hp
  have hpend : m.scheduler.pending =
      block.header.height :: (rest.map (·.header.height) ++ tail) := htail.symm
  obtain ⟨_, _, _, _, _, _, hrem⟩ := hm.positioned.acknowledge hpend
  refine ⟨hrem, ?_⟩
  have hmem : block.header.height ∈ m.scheduler.remaining (m.cursor origin) := by
    rw [hrem]
    exact List.mem_cons_self
  exact (mem_enumerate.mp hmem).1.1

theorem origin_le_cursor (hm : Progress origin config plan m) : origin ≤ m.cursor origin := by
  cases hl : m.accepted.getLast? with
  | none => exact (by rw [cursor, hl]; exact le_refl _)
  | some last =>
    obtain ⟨hlo, _, hcursor⟩ := hm.last_accepted hl
    omega

theorem cursor_step (hm : Invariant origin config plan m) {l : Label B} (h : m.step l = some t) :
    m.cursor origin ≤ t.cursor origin := by
  unfold step at h
  split at h
  · cases h
    rw [invoke]
    split_ifs <;> exact le_refl _
  · obtain ⟨last, _, rfl⟩ := Option.map_eq_some_iff.mp h
    exact le_refl _
  · cases h
    rw [SchedulerRun.plan]
    split <;> exact le_refl _
  · cases h
    rw [SchedulerRun.fetch]
    split <;> exact le_refl _
  · cases h
    exact le_refl _
  next block rest result hdel =>
    cases h
    cases result with
    | error e => exact le_refl _
    | ok u =>
      rw [cursor_accept]
      exact Nat.le_succ_of_le (cursor_le_delivered hm hdel).2
  · cases h
  · cases h
    exact le_refl _
  · cases h

theorem cursor_internal {l : Label B}
    (hl : ∀ result, l ≠ .accept result) (h : m.step l = some t) : t.cursor origin = m.cursor origin := by
  unfold step at h
  split at h
  · cases h
    rw [SchedulerRun.invoke]
    split_ifs <;> rfl
  · obtain ⟨last, _, rfl⟩ := Option.map_eq_some_iff.mp h
    rfl
  · cases h
    rw [SchedulerRun.plan]
    split <;> rfl
  · cases h
    rw [SchedulerRun.fetch]
    split <;> rfl
  · cases h
    rfl
  next result _ => exact absurd rfl (hl result)
  · cases h
  · cases h
    rfl
  · cases h

end SchedulerRun
end SuperqueryNode.Fetch

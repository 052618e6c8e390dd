import SuperqueryNode.Lib.LabelledRun
import SuperqueryNode.Finality.Reorg
import SuperqueryNode.Dispatcher.RunContract

namespace SuperqueryNode.Dispatcher
open Unsigned LabelledRun ChainApi Finality OrderedCommitBuffer

def SuccessionAgrees (last incoming : Header) : Prop :=
  continuesChainChecked last.ptr incoming = some (incoming.isChildOf last) ∧
    continuesChain last.ptr incoming = incoming.isChildOf last

theorem successionAgrees_iff (last incoming : Header) :
    SuccessionAgrees last incoming ↔ last.height < maxValue 64 := by
  constructor
  · rintro ⟨hchecked, _⟩
    obtain ⟨_, hadd, _⟩ := Option.map_eq_some_iff.mp hchecked
    exact (checkedAdd_eq_some.mp hadd).1
  · intro hlt
    have hagree : continuesChain last.ptr incoming = incoming.isChildOf last := by
      rw [continuesChain, Header.isChildOf, Header.ptr, wrappingAdd_one_of_lt hlt,
        checkedAdd_eq_some.mpr ⟨hlt, rfl⟩, Option.some_beq_some]
    exact ⟨hagree ▸ continuesChain_of_lt incoming hlt, hagree⟩

namespace Session
variable {T : Type} {s : Session T}

def opened (b : OrderedCommitBuffer T) : Session T where
  buffer := b
  resume := b.nextExpected
  delivered := []
  released := []

def advance (s : Session T) (c : Call T) : Option (Session T) := some (s.call c)

structure ReleasedOnce (s : Session T) : Prop where
  once : (s.released.map Prod.fst).Nodup
  gone : ∀ q ∈ s.released, q.1 ∉ s.buffer.pending

def CallSound (s : Session T) : Call T → Prop
  | .completeFrom generation height value =>
    (s.buffer.completeFromChecked generation height value).isSome ∧
      s.buffer.nextExpected ≤ (s.call (.completeFrom generation height value)).buffer.nextExpected ∧
      ReleasedOnce (s.call (.completeFrom generation height value))
  | .resetTo height => ReleasedOnce (s.call (.resetTo height))

def ReachesTop (s : Session T) : Call T → Prop
  | .completeFrom generation height _ =>
    generation = s.buffer.generation ∧ s.buffer.nextExpected ≤ height ∧
      ∀ x, s.buffer.nextExpected ≤ x → x ≤ maxValue 64 → x = height ∨ x ∈ s.buffer.pending
  | .resetTo _ => False

structure Ahead (s : Session T) : Prop where
  bounded : s.buffer.nextExpected ≤ maxValue 64
  once : (s.released.map Prod.fst).Nodup
  behind : ∀ q ∈ s.released, s.resume ≤ q.1 ∧ q.1 < s.buffer.nextExpected
  resumed : s.resume ≤ s.buffer.nextExpected
  waiting : ∀ x ∈ s.buffer.pending, x < s.resume ∨ s.buffer.nextExpected ≤ x

theorem Ahead.releasedOnce (hs : Ahead s) : ReleasedOnce s := by
  refine ⟨hs.once, fun q hq hmem => ?_⟩
  obtain ⟨hle, hlt⟩ := hs.behind q hq
  rcases hs.waiting q.1 hmem with h | h
  · omega
  · omega

theorem ahead_opened {b : OrderedCommitBuffer T} (h : b.nextExpected ≤ maxValue 64) :
    Ahead (opened b) where
  bounded := h
  once := List.nodup_nil
  behind := by simp [opened]
  resumed := le_refl _
  waiting := fun x _ => lt_or_ge x b.nextExpected

theorem ahead_reset (s : Session T) {height : Nat} (h : height ≤ maxValue 64) :
    Ahead (s.call (.resetTo height)) where
  bounded := h
  once := List.nodup_nil
  behind := by simp [call]
  resumed := le_refl _
  waiting := by simp [call, resetTo]

theorem ahead_drain (hs : Ahead s) {height : Nat} {value : T}
    (hge : s.buffer.nextExpected ≤ height) {r : List (Nat × T) × Std.ExtTreeMap Nat T × Nat}
    (d : Drained (s.buffer.pending.insert height value) s.buffer.nextExpected r)
    (delivered : List (Nat × T)) :
    Ahead { s with
      buffer := { s.buffer with pending := r.2.1, nextExpected := r.2.2 }
      delivered := delivered
      released := s.released ++ r.1 } := by
  have hcur := d.cursor
  have hresumed := hs.resumed
  refine ⟨d.bounded, ?_, ?_, ?_, ?_⟩
  · rw [List.map_append, List.nodup_append]
    refine ⟨hs.once, d.heights ▸ List.nodup_range', ?_⟩
    intro x hx y hy
    obtain ⟨p, hp, rfl⟩ := List.mem_map.mp hx
    obtain ⟨q, hq, rfl⟩ := List.mem_map.mp hy
    have := (hs.behind p hp).2
    have := (d.released_bounds hq).1
    omega
  · intro q hq
    rcases List.mem_append.mp hq with hq | hq
    · have := hs.behind q hq
      exact ⟨this.1, by simp only; omega⟩
    · have := d.released_bounds hq
      exact ⟨by simp only; omega, this.2⟩
  · simp only
    omega
  · intro x hx
    obtain ⟨v, hv⟩ := (KeyedMap.mem_iff _ x).mp hx
    have hrest := d.rest x
    simp only at hv
    rw [hv] at hrest
    split_ifs at hrest with hpassed
    rw [KeyedMap.getElem?_insert] at hrest
    simp only
    split_ifs at hrest with hx'
    · omega
    · have := hs.waiting x ((KeyedMap.mem_iff _ x).mpr ⟨v, hrest.symm⟩)
      omega

theorem not_gap_iff {height : Nat} {value : T} {generation : Nat}
    (hg : generation = s.buffer.generation) (hge : s.buffer.nextExpected ≤ height) :
    ¬Gap (s.buffer.pending.insert height value) s.buffer.nextExpected ↔
      ReachesTop s (.completeFrom generation height value) := by
  simp only [Gap, ReachesTop, hg, hge, true_and, not_exists, not_and, not_not,
    Std.ExtTreeMap.mem_insert, Std.LawfulEqCmp.compare_eq_iff_eq]
  exact forall_congr' fun x => by rw [eq_comm]

theorem ahead_complete (hs : Ahead s) {generation height : Nat} {value : T}
    (hgap : generation = s.buffer.generation → s.buffer.nextExpected ≤ height →
      Gap (s.buffer.pending.insert height value) s.buffer.nextExpected) :
    Ahead (s.call (.completeFrom generation height value)) ∧
      s.buffer.nextExpected ≤
        (s.call (.completeFrom generation height value)).buffer.nextExpected := by
  by_cases hinert : generation ≠ s.buffer.generation ∨ height < s.buffer.nextExpected
  · rw [call, s.buffer.completeFrom_inert value hinert, List.append_nil]
    exact ⟨⟨hs.bounded, hs.once, hs.behind, hs.resumed, hs.waiting⟩, le_refl _⟩
  · obtain ⟨hg, hh⟩ := not_or.mp hinert
    have hge : s.buffer.nextExpected ≤ height := by omega
    have d := drained_of_gap (le_refl _) (hgap (not_not.mp hg) hge)
    rw [call, completeFrom, if_neg hg, if_neg hh]
    refine ⟨ahead_drain hs hge d _, ?_⟩
    have := d.cursor
    simp only
    omega

theorem ahead_call (hs : Ahead s) {c : Call T} (hc : c.height ≤ maxValue 64)
    (hreach : ¬ReachesTop s c) : Ahead (s.call c) ∧ CallSound s c := by
  cases c with
  | completeFrom generation height value =>
    have hgap : generation = s.buffer.generation → s.buffer.nextExpected ≤ height →
        Gap (s.buffer.pending.insert height value) s.buffer.nextExpected := fun hg hge =>
      not_not.mp fun hfull => hreach ((not_gap_iff hg hge).mp hfull)
    obtain ⟨hahead, hle⟩ := ahead_complete hs hgap
    exact ⟨hahead, by rw [s.buffer.completeFrom_of_gap value hgap]; rfl, hle, hahead.releasedOnce⟩
  | resetTo height =>
    have hahead := ahead_reset s hc
    exact ⟨hahead, hahead.releasedOnce⟩

theorem callSound_iff (hs : Ahead s) {c : Call T} (hc : c.height ≤ maxValue 64) :
    CallSound s c ↔ ¬ReachesTop s c := by
  refine ⟨?_, fun hreach => (ahead_call hs hc hreach).2⟩
  intro hsound hreach
  cases c with
  | completeFrom generation height value =>
    obtain ⟨rfl, hge, _⟩ := id hreach
    have hfull : ¬Gap (s.buffer.pending.insert height value) s.buffer.nextExpected :=
      (not_gap_iff rfl hge).mpr hreach
    have hchecked := hsound.1
    rw [s.buffer.completeFrom_of_full value hs.bounded hge hfull] at hchecked
    cases hchecked
  | resetTo height => exact hreach

theorem guarded_sound_iff {b : OrderedCommitBuffer T} (hb : b.nextExpected ≤ maxValue 64)
    {calls : List (Call T)} (hcalls : ∀ c ∈ calls, c.height ≤ maxValue 64) :
    Guarded advance CallSound (opened b) calls ↔
      Guarded advance (fun s c => ¬ReachesTop s c) (opened b) calls := by
  refine guarded_congr (P := Ahead) (fun s c hc hs => callSound_iff hs (hcalls c hc)) ?_
    (ahead_opened hb)
  intro s c hc t hs hsound ht
  obtain rfl : s.call c = t := Option.some.inj ht
  exact (ahead_call hs (hcalls c hc) ((callSound_iff hs (hcalls c hc)).mp hsound)).1

theorem guarded_advance_cons {ok : Session T → Call T → Prop} {c : Call T} {cs : List (Call T)} :
    Guarded advance ok s (c :: cs) ↔ ok s c ∧ Guarded advance ok (s.call c) cs := by
  simp [Guarded, advance]

end Session

theorem height_succession_sound_iff {T : Type} (last incoming : Header)
    (b : OrderedCommitBuffer T) (calls : List (Call T)) (hb : b.nextExpected ≤ maxValue 64)
    (hcalls : ∀ c ∈ calls, c.height ≤ maxValue 64) :
    (SuccessionAgrees last incoming ↔ last.height < maxValue 64) ∧
    (Guarded Session.advance Session.CallSound (Session.opened b) calls ↔
      Guarded Session.advance (fun s c => ¬Session.ReachesTop s c) (Session.opened b) calls) :=
  ⟨successionAgrees_iff last incoming, Session.guarded_sound_iff hb hcalls⟩

theorem height_succession_below_top :
    SuccessionAgrees ⟨maxValue 64 - 1, "0xa", none, none⟩
      ⟨maxValue 64, "0xb", some "0xa", none⟩ ∧
    Guarded Session.advance Session.CallSound (Session.opened (.new (maxValue 64 - 2) 4))
      [.completeFrom 0 (maxValue 64) 7, .completeFrom 0 (maxValue 64 - 2) 9] := by
  have hsound := height_succession_sound_iff ⟨maxValue 64 - 1, "0xa", none, none⟩
    ⟨maxValue 64, "0xb", some "0xa", none⟩ (.new (maxValue 64 - 2) 4)
    [.completeFrom 0 (maxValue 64) 7, .completeFrom 0 (maxValue 64 - 2) 9] (by decide) (by decide)
  refine ⟨hsound.1.mpr (by decide), hsound.2.mpr ?_⟩
  refine Session.guarded_advance_cons.mpr ⟨?_, Session.guarded_advance_cons.mpr ⟨?_, trivial⟩⟩
  · rintro ⟨_, _, hfull⟩
    exact absurd (hfull (maxValue 64 - 1) (by decide) (by decide)) (by decide)
  · rintro ⟨_, _, hfull⟩
    exact absurd (hfull (maxValue 64 - 1) (by decide) (by decide)) (by decide)

theorem height_succession_unsound_at_top :
    let last : Header := ⟨maxValue 64, "0xa", none, none⟩
    let incoming : Header := ⟨0, "0xb", some "0xa", none⟩
    let s : Session Nat := Session.opened (.new (maxValue 64) 1)
    let top : Call Nat := .completeFrom 0 (maxValue 64) 7
    (incoming.isChildOf last = false ∧ continuesChain last.ptr incoming = true ∧
      continuesChainChecked last.ptr incoming = none) ∧
    ((s.buffer.completeFromChecked 0 (maxValue 64) 7).isNone ∧
      (s.call top).buffer.nextExpected = 0 ∧ (s.call top).released = [(maxValue 64, 7)] ∧
      ((s.call top).call top).buffer.pendingHeights = [maxValue 64]) ∧
    ¬SuccessionAgrees last incoming ∧ ¬Guarded Session.advance Session.CallSound s [top] := by
  refine ⟨by decide, by decide, ?_, ?_⟩
  · exact fun hagree => absurd hagree.1 (by decide)
  · exact fun hsound => absurd hsound.1.1 (by decide)

end SuperqueryNode.Dispatcher

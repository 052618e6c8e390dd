import SuperqueryNode.Lib.Assoc
import SuperqueryNode.Lib.Enumeration
import SuperqueryNode.Dispatcher.OrderedCommit

namespace SuperqueryNode.Dispatcher
open Unsigned Assoc Enumeration

inductive Call (T : Type) where
  | completeFrom (generation height : Nat) (value : T)
  | resetTo (height : Nat)

def Call.height {T : Type} : Call T → Nat
  | .completeFrom _ height _ => height
  | .resetTo height => height

structure Session (T : Type) where
  buffer : OrderedCommitBuffer T
  resume : Nat
  delivered : List (Nat × T)
  released : List (Nat × T)

namespace Session
variable {T : Type}

def start (startHeight capacity : Nat) : Session T where
  buffer := .new startHeight capacity
  resume := startHeight
  delivered := []
  released := []

def call (s : Session T) : Call T → Session T
  | .completeFrom generation height value =>
    let r := s.buffer.completeFrom generation height value
    { s with
      buffer := r.2
      delivered :=
        if generation = s.buffer.generation then s.delivered ++ [(height, value)] else s.delivered
      released := s.released ++ r.1 }
  | .resetTo height =>
    { buffer := (s.buffer.resetTo height).2, resume := height, delivered := [], released := [] }

def run (startHeight capacity : Nat) (calls : List (Call T)) : Session T :=
  calls.foldl call (start startHeight capacity)

structure Settled (s : Session T) : Prop where
  cursor : s.buffer.nextExpected = s.resume + s.released.length
  bounded : s.buffer.nextExpected ≤ maxValue 64
  inOrder : s.released.map Prod.fst = List.range' s.resume s.released.length
  fromDelivered : ∀ q ∈ s.released, q ∈ s.delivered
  held : ∀ h v, s.buffer.pending[h]? = some v ↔ (h, v) ∈ s.delivered ∧ s.buffer.nextExpected ≤ h
  gap : ∀ v, (s.buffer.nextExpected, v) ∉ s.delivered
  below : ∀ q ∈ s.delivered, q.1 < maxValue 64

theorem settled_start {startHeight : Nat} (h : startHeight < maxValue 64) (capacity : Nat) :
    Settled (start startHeight capacity : Session T) where
  cursor := rfl
  bounded := le_of_lt h
  inOrder := rfl
  fromDelivered := by simp [start]
  held := by simp [start, OrderedCommitBuffer.new]
  gap := by simp [start]
  below := by simp [start]

theorem settled_reset (s : Session T) {height : Nat} (h : height < maxValue 64) :
    Settled (s.call (.resetTo height)) where
  cursor := rfl
  bounded := le_of_lt h
  inOrder := rfl
  fromDelivered := by simp [call]
  held := by simp [call, OrderedCommitBuffer.resetTo]
  gap := by simp [call]
  below := by simp [call]

theorem settled_insert {s : Session T} (hs : Settled s) {height : Nat} {value : T}
    (hf : Functional (s.delivered ++ [(height, value)])) (hge : s.buffer.nextExpected ≤ height)
    (h : Nat) (v : T) :
    (s.buffer.pending.insert height value)[h]? = some v ↔
      (h, v) ∈ s.delivered ++ [(height, value)] ∧ s.buffer.nextExpected ≤ h := by
  rw [KeyedMap.getElem?_insert]
  by_cases hh : height = h
  · subst hh
    rw [if_pos rfl, Option.some.injEq]
    constructor
    · rintro rfl
      exact ⟨by simp, hge⟩
    · rintro ⟨hv, _⟩
      exact hf height value v (by simp) hv
  · rw [if_neg hh, hs.held]
    have hne : (h, v) ≠ (height, value) := fun e => hh (congrArg Prod.fst e).symm
    simp [hne]

theorem settled_late {s : Session T} (hs : Settled s) {height : Nat} {value : T}
    (hh : height < s.buffer.nextExpected)
    (hbelow : ∀ q ∈ s.delivered ++ [(height, value)], q.1 < maxValue 64) :
    Settled { s with delivered := s.delivered ++ [(height, value)] } := by
  have hnew : ∀ h v, s.buffer.nextExpected ≤ h →
      ((h, v) ∈ s.delivered ++ [(height, value)] ↔ (h, v) ∈ s.delivered) := by
    intro h v hle
    have hne : h ≠ height := by omega
    simp [hne]
  refine ⟨hs.cursor, hs.bounded, hs.inOrder, ?_, ?_, ?_, hbelow⟩
  · intro q hq
    exact List.mem_append_left _ (hs.fromDelivered q hq)
  · intro h v
    rw [hs.held]
    constructor
    · rintro ⟨hd, hle⟩
      exact ⟨(hnew h v hle).mpr hd, hle⟩
    · rintro ⟨hd, hle⟩
      exact ⟨(hnew h v hle).mp hd, hle⟩
  · intro v hd
    exact hs.gap v ((hnew _ v (le_refl _)).mp hd)

theorem settled_drain {s : Session T} (hs : Settled s) {height : Nat} {value : T}
    (hf : Functional (s.delivered ++ [(height, value)])) (hge : s.buffer.nextExpected ≤ height)
    (hbelow : ∀ q ∈ s.delivered ++ [(height, value)], q.1 < maxValue 64)
    {r : List (Nat × T) × Std.ExtTreeMap Nat T × Nat}
    (d : OrderedCommitBuffer.Drained (s.buffer.pending.insert height value)
      s.buffer.nextExpected r) :
    Settled { s with
      buffer := { s.buffer with pending := r.2.1, nextExpected := r.2.2 }
      delivered := s.delivered ++ [(height, value)]
      released := s.released ++ r.1 } := by
  have hins := settled_insert hs hf hge
  have hcur := d.cursor
  have hheld : ∀ h v, r.2.1[h]? = some v ↔
      (h, v) ∈ s.delivered ++ [(height, value)] ∧ r.2.2 ≤ h := by
    intro h v
    rw [d.rest h]
    split_ifs with hr
    · simp
      omega
    · rw [hins h v]
      constructor
      · rintro ⟨hd, hle⟩
        exact ⟨hd, by omega⟩
      · rintro ⟨hd, hle⟩
        exact ⟨hd, by omega⟩
  refine ⟨?_, d.bounded, ?_, ?_, hheld, ?_, hbelow⟩
  · have hold := hs.cursor
    simp only [List.length_append]
    omega
  · rw [List.map_append, List.length_append, hs.inOrder, d.heights, hs.cursor,
      List.range'_append_1]
  · intro q hq
    rcases List.mem_append.mp hq with hq | hq
    · exact List.mem_append_left _ (hs.fromDelivered q hq)
    · exact ((hins q.1 q.2).mp (d.values q hq)).1
  · intro v hd
    have hsome : r.2.1[r.2.2]? = some v := (hheld _ v).mpr ⟨hd, le_refl _⟩
    rw [d.exit] at hsome
    cases hsome

theorem settled_complete {s : Session T} (hs : Settled s) {generation height : Nat} {value : T}
    (hlt : height < maxValue 64)
    (hf : Functional (s.call (.completeFrom generation height value)).delivered) :
    Settled (s.call (.completeFrom generation height value)) := by
  by_cases hg : generation = s.buffer.generation
  · have hbelow : ∀ q ∈ s.delivered ++ [(height, value)], q.1 < maxValue 64 := by
      intro q hq
      rcases List.mem_append.mp hq with hq | hq
      · exact hs.below q hq
      · rw [List.mem_singleton.mp hq]
        exact hlt
    simp only [call, if_pos hg] at hf ⊢
    by_cases hh : height < s.buffer.nextExpected
    · rw [s.buffer.completeFrom_inert value (.inr hh)]
      simpa using settled_late hs hh hbelow
    · have hge : s.buffer.nextExpected ≤ height := by omega
      have hkeys : ∀ x, x ∈ s.buffer.pending.insert height value → x < maxValue 64 := by
        intro x hx
        obtain ⟨w, hw⟩ := (KeyedMap.mem_iff _ x).mp hx
        exact hbelow _ ((settled_insert hs hf hge x w).mp hw).1
      have hdrained := OrderedCommitBuffer.drain_spec
        (le_refl (s.buffer.pending.insert height value).size) hs.bounded hkeys
      simpa [OrderedCommitBuffer.completeFrom, hg, hh] using settled_drain hs hf hge hbelow hdrained
  · simp only [call, if_neg hg] at hf ⊢
    rw [s.buffer.completeFrom_inert value (.inl hg)]
    simpa using hs

theorem settled_call {s : Session T} {c : Call T} (hc : c.height < maxValue 64)
    (hs : Functional s.delivered → Settled s) (hf : Functional (s.call c).delivered) :
    Settled (s.call c) := by
  cases c with
  | completeFrom generation height value =>
    refine settled_complete (hs (hf.mono ?_)) hc hf
    intro q hq
    simp only [call]
    split_ifs
    · exact List.mem_append_left _ hq
    · exact hq
  | resetTo height => exact settled_reset s hc

theorem settled_run {startHeight capacity : Nat} {calls : List (Call T)}
    (hstart : startHeight < maxValue 64) (hcalls : ∀ c ∈ calls, c.height < maxValue 64)
    (hf : Functional (run startHeight capacity calls).delivered) :
    Settled (run startHeight capacity calls) := by
  revert hf
  refine List.foldlRecOn calls call (motive := fun s => Functional s.delivered → Settled s)
    (fun _ => settled_start hstart capacity) ?_
  intro s hs c hc hf
  exact settled_call (hcalls c hc) hs hf

theorem Settled.cursor_firstMissing {s : Session T} (hs : Settled s) :
    s.buffer.nextExpected = firstMissing (s.delivered.map Prod.fst) s.resume := by
  have hcur := hs.cursor
  symm
  apply firstMissing_eq (by omega)
  · intro hmem
    obtain ⟨q, hq, hq'⟩ := List.mem_map.mp hmem
    exact hs.gap q.2 (hq' ▸ hq)
  · intro m hr hm
    have hmem : m ∈ s.released.map Prod.fst := by
      rw [hs.inOrder]
      exact List.mem_range'_1.mpr (by omega)
    obtain ⟨q, hq, rfl⟩ := List.mem_map.mp hmem
    exact List.mem_map_of_mem (hs.fromDelivered q hq)

theorem Settled.released_bounds {s : Session T} (hs : Settled s) {q : Nat × T}
    (hq : q ∈ s.released) : s.resume ≤ q.1 ∧ q.1 < s.buffer.nextExpected := by
  have hmem : q.1 ∈ List.range' s.resume s.released.length := hs.inOrder ▸ List.mem_map_of_mem hq
  rw [hs.cursor]
  exact List.mem_range'_1.mp hmem

theorem Settled.released_iff {s : Session T} (hs : Settled s) (hf : Functional s.delivered)
    {q : Nat × T} : q ∈ s.released ↔
      q ∈ s.delivered ∧ s.resume ≤ q.1 ∧ q.1 < s.buffer.nextExpected := by
  constructor
  · intro hq
    exact ⟨hs.fromDelivered q hq, hs.released_bounds hq⟩
  · rintro ⟨hq, hr, hn⟩
    have hmem : q.1 ∈ s.released.map Prod.fst := by
      rw [hs.inOrder, List.mem_range'_1]
      exact ⟨hr, by rw [← hs.cursor]; exact hn⟩
    obtain ⟨w, hw, he⟩ := List.mem_map.mp hmem
    have hval : w.2 = q.2 := hf q.1 w.2 q.2 (he ▸ hs.fromDelivered w hw) hq
    have heq : w = q := Prod.ext he hval
    exact heq ▸ hw

theorem Settled.released_eq {s t : Session T} (hs : Settled s) (ht : Settled t)
    (hf : Functional s.delivered) (hresume : s.resume = t.resume)
    (hsame : ∀ q, q ∈ s.delivered ↔ q ∈ t.delivered) : s.released = t.released := by
  have hkeys : ∀ h, h ∈ s.delivered.map Prod.fst ↔ h ∈ t.delivered.map Prod.fst := by
    intro h
    simp only [List.mem_map]
    exact exists_congr fun q => and_congr_left fun _ => hsame q
  have hnext : s.buffer.nextExpected = t.buffer.nextExpected := by
    rw [hs.cursor_firstMissing, ht.cursor_firstMissing, hresume]
    exact firstMissing_congr hkeys
  have hlen : s.released.length = t.released.length := by
    have := hs.cursor
    have := ht.cursor
    omega
  refine hf.eq_of_keys_eq hs.fromDelivered (fun q hq => (hsame q).mpr (ht.fromDelivered q hq)) ?_
  rw [hs.inOrder, ht.inOrder, hresume, hlen]

theorem Settled.pending_iff {s : Session T} (hs : Settled s) {h : Nat} :
    h ∈ s.buffer.pending ↔ h ∈ s.delivered.map Prod.fst ∧ s.buffer.nextExpected ≤ h := by
  simp only [KeyedMap.mem_iff, hs.held, List.mem_map]
  constructor
  · rintro ⟨v, hv, hle⟩
    exact ⟨⟨(h, v), hv, rfl⟩, hle⟩
  · rintro ⟨⟨q, hq, rfl⟩, hle⟩
    exact ⟨q.2, hq, hle⟩

theorem Settled.cursor_notMem {s : Session T} (hs : Settled s) :
    s.buffer.nextExpected ∉ s.buffer.pending := by
  intro hmem
  obtain ⟨v, hv⟩ := (KeyedMap.mem_iff _ _).mp hmem
  exact hs.gap v ((hs.held _ v).mp hv).1

theorem run_releases_longest_run (startHeight capacity : Nat) (calls : List (Call T))
    (hstart : startHeight < maxValue 64) (hcalls : ∀ c ∈ calls, c.height < maxValue 64)
    (hsame : Functional (run startHeight capacity calls).delivered) :
    let s := run startHeight capacity calls
    s.buffer.nextExpected = firstMissing (s.delivered.map Prod.fst) s.resume ∧
    s.buffer.nextExpected = s.resume + s.released.length ∧
    s.released.map Prod.fst = List.range' s.resume s.released.length ∧
    (∀ q ∈ s.released, q ∈ s.delivered) ∧
    (∀ q ∈ s.delivered, s.resume ≤ q.1 → q ∉ s.released → s.buffer.pending[q.1]? = some q.2) ∧
    (∀ h v, s.buffer.pending[h]? = some v → (h, v) ∈ s.delivered ∧ s.buffer.nextExpected < h) ∧
    s.buffer.nextExpected ∉ s.buffer.pending ∧
    (∀ generation height value,
      generation ≠ s.buffer.generation ∨ height < s.buffer.nextExpected →
        s.buffer.completeFrom generation height value = ([], s.buffer)) ∧
    (∀ (startHeight' capacity' : Nat) (calls' : List (Call T)), startHeight' < maxValue 64 →
      (∀ c ∈ calls', c.height < maxValue 64) →
      (run startHeight' capacity' calls').resume = s.resume →
      (run startHeight' capacity' calls').delivered.Perm s.delivered →
        (run startHeight' capacity' calls').released = s.released) ∧
    (∀ m, s.resume ≤ m → m ∉ s.delivered.map Prod.fst → ∀ q ∈ s.released, q.1 < m) := by
  have hs := settled_run hstart hcalls hsame
  intro s
  refine ⟨hs.cursor_firstMissing, hs.cursor, hs.inOrder, hs.fromDelivered, ?_, ?_,
    hs.cursor_notMem, fun _ _ value h => s.buffer.completeFrom_inert value h, ?_, ?_⟩
  · intro q hq hr hnot
    refine (hs.held q.1 q.2).mpr ⟨hq, ?_⟩
    by_contra hlt
    exact hnot ((hs.released_iff hsame).mpr ⟨hq, hr, by omega⟩)
  · intro h v hv
    obtain ⟨hd, hle⟩ := (hs.held h v).mp hv
    refine ⟨hd, lt_of_le_of_ne hle ?_⟩
    rintro rfl
    exact hs.gap v hd
  · intro startHeight' capacity' calls' hstart' hcalls' hresume hperm
    have hsame' := hsame.mono fun q hq => hperm.mem_iff.mp hq
    exact (settled_run hstart' hcalls' hsame').released_eq hs hsame' hresume fun q => hperm.mem_iff
  · intro m hr hm q hq
    have hle := firstMissing_le hr hm
    rw [← hs.cursor_firstMissing] at hle
    exact lt_of_lt_of_le (hs.released_bounds hq).2 hle

theorem longest_run_after_reset :
    let s := run 100 2 [.completeFrom 0 102 7, .resetTo 50, .completeFrom 0 50 9,
      .completeFrom 1 51 8, .completeFrom 1 50 6, .completeFrom 1 53 5]
    s.released = [(50, 6), (51, 8)] ∧
      s.released.map Prod.fst = List.range' s.resume s.released.length :=
  ⟨by decide, (run_releases_longest_run 100 2 _ (by decide) (by decide)
    (.of_keys_nodup (by decide))).2.2.1⟩

end Session
end SuperqueryNode.Dispatcher

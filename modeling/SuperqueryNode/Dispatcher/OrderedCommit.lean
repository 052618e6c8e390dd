import SuperqueryNode.Lib.Unsigned
import SuperqueryNode.Lib.KeyedMap

namespace SuperqueryNode.Dispatcher
open Unsigned

structure OrderedCommitBuffer (T : Type) where
  nextExpected : Nat
  pending : Std.ExtTreeMap Nat T
  capacity : Nat
  generation : Nat

namespace OrderedCommitBuffer
variable {T : Type}

def new (startHeight capacity : Nat) : OrderedCommitBuffer T where
  nextExpected := startHeight
  pending := ∅
  capacity := max capacity 1
  generation := 0

def pendingCount (b : OrderedCommitBuffer T) : Nat := b.pending.size

-- One turn removes one pending entry, so `pending.size` turns reach the exit of the loop;
-- the cursor is a release-build `u64`, whose `+= 1` wraps.
def drain : Nat → Std.ExtTreeMap Nat T → Nat →
    List (Nat × T) × Std.ExtTreeMap Nat T × Nat
  | 0, pending, next => ([], pending, next)
  | turns + 1, pending, next =>
    match pending[next]? with
    | none => ([], pending, next)
    | some value =>
      let rest := drain turns (pending.erase next) (wrappingAdd 64 next 1)
      ((next, value) :: rest.1, rest.2)

def completeFrom (b : OrderedCommitBuffer T) (generation height : Nat) (value : T) :
    List (Nat × T) × OrderedCommitBuffer T :=
  if generation ≠ b.generation then ([], b)
  else if height < b.nextExpected then ([], b)
  else
    let pending := b.pending.insert height value
    let r := drain pending.size pending b.nextExpected
    (r.1, { b with pending := r.2.1, nextExpected := r.2.2 })

-- The same loop in a build with overflow checks, where a successor past `u64::MAX` panics.
def drainChecked : Nat → Std.ExtTreeMap Nat T → Nat →
    Option (List (Nat × T) × Std.ExtTreeMap Nat T × Nat)
  | 0, pending, next => some ([], pending, next)
  | turns + 1, pending, next =>
    match pending[next]? with
    | none => some ([], pending, next)
    | some value =>
      match checkedAdd 64 next 1 with
      | none => none
      | some following =>
        (drainChecked turns (pending.erase next) following).map fun rest =>
          ((next, value) :: rest.1, rest.2)

def completeFromChecked (b : OrderedCommitBuffer T) (generation height : Nat) (value : T) :
    Option (List (Nat × T) × OrderedCommitBuffer T) :=
  if generation ≠ b.generation then some ([], b)
  else if height < b.nextExpected then some ([], b)
  else
    let pending := b.pending.insert height value
    (drainChecked pending.size pending b.nextExpected).map fun r =>
      (r.1, { b with pending := r.2.1, nextExpected := r.2.2 })

def complete (b : OrderedCommitBuffer T) (height : Nat) (value : T) :
    List (Nat × T) × OrderedCommitBuffer T :=
  b.completeFrom b.generation height value

def resetTo (b : OrderedCommitBuffer T) (height : Nat) : Nat × OrderedCommitBuffer T :=
  (b.pending.size,
    { b with pending := ∅, nextExpected := height, generation := wrappingAdd 64 b.generation 1 })

def pendingHeights (b : OrderedCommitBuffer T) : List Nat := b.pending.keys

theorem completeFrom_generation (b : OrderedCommitBuffer T) (generation height : Nat) (value : T) :
    (b.completeFrom generation height value).2.generation = b.generation := by
  rw [completeFrom]
  split_ifs <;> rfl

theorem completeFrom_inert (b : OrderedCommitBuffer T) {generation height : Nat} (value : T)
    (h : generation ≠ b.generation ∨ height < b.nextExpected) :
    b.completeFrom generation height value = ([], b) := by
  rw [completeFrom]
  split_ifs <;> first | rfl | omega

theorem drain_size (turns : Nat) (pending : Std.ExtTreeMap Nat T) (next : Nat) :
    (drain turns pending next).2.1.size ≤ pending.size := by
  induction turns generalizing pending next with
  | zero => exact le_refl _
  | succ turns ih =>
    rw [drain]
    split
    · exact le_refl _
    · exact (ih _ _).trans Std.ExtTreeMap.size_erase_le

theorem completeFrom_pendingCount (b : OrderedCommitBuffer T) (generation height : Nat) (value : T) :
    (b.completeFrom generation height value).2.pendingCount ≤ b.pendingCount + 1 := by
  rw [completeFrom]
  split_ifs
  · exact Nat.le_succ _
  · exact Nat.le_succ _
  · exact (drain_size _ _ _).trans Std.ExtTreeMap.size_insert_le

theorem drain_values (turns : Nat) (pending : Std.ExtTreeMap Nat T) (next : Nat) :
    (∀ q ∈ (drain turns pending next).1, ∃ h : Nat, pending[h]? = some q.2) ∧
      ∀ (h : Nat) (v : T), (drain turns pending next).2.1[h]? = some v → pending[h]? = some v := by
  induction turns generalizing pending next with
  | zero => exact ⟨by simp [drain], fun _ _ hv => hv⟩
  | succ turns ih =>
    rw [drain]
    cases hv : pending[next]? with
    | none => exact ⟨by simp, fun _ _ hw => hw⟩
    | some value =>
      have hsub : ∀ (h : Nat) (v : T), (pending.erase next)[h]? = some v → pending[h]? = some v := by
        intro h v hw
        rw [KeyedMap.getElem?_erase] at hw
        split_ifs at hw
        exact hw
      obtain ⟨hrel, hrest⟩ := ih (pending.erase next) (wrappingAdd 64 next 1)
      refine ⟨?_, fun h v hw => hsub h v (hrest h v hw)⟩
      intro q hq
      rcases List.mem_cons.mp hq with rfl | hq
      · exact ⟨next, hv⟩
      · obtain ⟨h, hw⟩ := hrel q hq
        exact ⟨h, hsub h q.2 hw⟩

theorem completeFrom_forall (b : OrderedCommitBuffer T) {p : T → Prop}
    (hb : ∀ (h : Nat) (v : T), b.pending[h]? = some v → p v) (generation height : Nat) {value : T}
    (hv : p value) :
    (∀ q ∈ (b.completeFrom generation height value).1, p q.2) ∧
      ∀ (h : Nat) (v : T),
        (b.completeFrom generation height value).2.pending[h]? = some v → p v := by
  have hins : ∀ (h : Nat) (v : T), (b.pending.insert height value)[h]? = some v → p v := by
    intro h v hw
    rw [KeyedMap.getElem?_insert] at hw
    split_ifs at hw
    · exact (Option.some.inj hw) ▸ hv
    · exact hb h v hw
  rw [completeFrom]
  split_ifs
  · exact ⟨by simp, hb⟩
  · exact ⟨by simp, hb⟩
  · obtain ⟨hrel, hrest⟩ := drain_values (b.pending.insert height value).size
      (b.pending.insert height value) b.nextExpected
    refine ⟨?_, fun h v hw => hins h v (hrest h v hw)⟩
    intro q hq
    obtain ⟨h, hw⟩ := hrel q hq
    exact hins h q.2 hw

theorem pendingHeights_nodup (b : OrderedCommitBuffer T) : b.pendingHeights.Nodup :=
  Std.ExtTreeMap.ordered_keys.imp fun h he => by simp [he] at h

structure Drained (pending : Std.ExtTreeMap Nat T) (next : Nat)
    (r : List (Nat × T) × Std.ExtTreeMap Nat T × Nat) : Prop where
  cursor : r.2.2 = next + r.1.length
  bounded : r.2.2 ≤ maxValue 64
  heights : r.1.map Prod.fst = List.range' next r.1.length
  values : ∀ q ∈ r.1, pending[q.1]? = some q.2
  rest : ∀ x, r.2.1[x]? = if next ≤ x ∧ x < r.2.2 then none else pending[x]?
  exit : r.2.1[r.2.2]? = none

theorem Drained.released_bounds {pending : Std.ExtTreeMap Nat T} {next : Nat}
    {r : List (Nat × T) × Std.ExtTreeMap Nat T × Nat} (d : Drained pending next r) {q : Nat × T}
    (hq : q ∈ r.1) : next ≤ q.1 ∧ q.1 < r.2.2 := by
  have hrange : q.1 ∈ List.range' next r.1.length := d.heights ▸ List.mem_map_of_mem hq
  rw [d.cursor]
  exact List.mem_range'_1.mp hrange

theorem size_erase_le_of_mem {turns : Nat} {pending : Std.ExtTreeMap Nat T} {next : Nat}
    (hturns : pending.size ≤ turns + 1) (hmem : next ∈ pending) :
    (pending.erase next).size ≤ turns := by
  rw [Std.ExtTreeMap.size_erase, if_pos (Std.ExtTreeMap.mem_iff_contains.mp hmem)]
  omega

theorem mem_erase_of_lt {pending : Std.ExtTreeMap Nat T} {next x : Nat} (hlt : next < x) :
    x ∈ pending.erase next ↔ x ∈ pending := by
  rw [KeyedMap.mem_iff, KeyedMap.mem_iff, KeyedMap.getElem?_erase, if_neg (by omega)]

def Gap (pending : Std.ExtTreeMap Nat T) (next : Nat) : Prop :=
  ∃ x, next ≤ x ∧ x ≤ maxValue 64 ∧ x ∉ pending

theorem Gap.erase {pending : Std.ExtTreeMap Nat T} {next : Nat} (hgap : Gap pending next)
    (hmem : next ∈ pending) : next < maxValue 64 ∧ Gap (pending.erase next) (next + 1) := by
  obtain ⟨x, hle, hmax, hx⟩ := hgap
  have hne : x ≠ next := by
    rintro rfl
    exact hx hmem
  have hlt : next < x := by omega
  exact ⟨by omega, x, hlt, hmax, fun h => hx ((mem_erase_of_lt hlt).mp h)⟩

theorem Drained.cons {pending : Std.ExtTreeMap Nat T} {next : Nat} {value : T}
    {r : List (Nat × T) × Std.ExtTreeMap Nat T × Nat} (hv : pending[next]? = some value)
    (d : Drained (pending.erase next) (next + 1) r) :
    Drained pending next ((next, value) :: r.1, r.2) := by
  have hother : ∀ x, x ≠ next → (pending.erase next)[x]? = pending[x]? := by
    intro x hx
    rw [KeyedMap.getElem?_erase, if_neg (Ne.symm hx)]
  have hcur := d.cursor
  refine ⟨?_, d.bounded, ?_, ?_, ?_, d.exit⟩
  · simp only [List.length_cons]
    omega
  · simp only [List.map_cons, List.length_cons, List.range'_succ, d.heights]
  · intro q hq
    rcases List.mem_cons.mp hq with rfl | hq
    · exact hv
    · have hne : q.1 ≠ next := by
        have := (d.released_bounds hq).1
        omega
      rw [← hother q.1 hne]
      exact d.values q hq
  · intro x
    have hx := d.rest x
    by_cases hxn : x = next
    · subst hxn
      rw [if_pos ⟨le_refl _, by simp only; omega⟩]
      rw [hx, if_neg (by omega), KeyedMap.getElem?_erase, if_pos rfl]
    · rw [hx, hother x hxn]
      simp only
      congr 1
      simp only [eq_iff_iff]
      omega

theorem drained_of_gap {turns : Nat} {pending : Std.ExtTreeMap Nat T} {next : Nat}
    (hturns : pending.size ≤ turns) (hgap : Gap pending next) :
    Drained pending next (drain turns pending next) := by
  induction turns generalizing pending next with
  | zero =>
    obtain rfl : pending = ∅ := KeyedMap.eq_empty_of_size (Nat.le_zero.mp hturns)
    obtain ⟨x, hle, hmax, _⟩ := hgap
    exact ⟨rfl, hle.trans hmax, rfl, by simp [drain], by simp [drain], by simp [drain]⟩
  | succ turns ih =>
    rw [drain]
    cases hv : pending[next]? with
    | none =>
      obtain ⟨x, hle, hmax, _⟩ := hgap
      exact ⟨rfl, hle.trans hmax, rfl, by simp, by intro x; simp, hv⟩
    | some value =>
      have hmem : next ∈ pending := (KeyedMap.mem_iff _ _).mpr ⟨value, hv⟩
      obtain ⟨hlt, hgap'⟩ := hgap.erase hmem
      rw [wrappingAdd_one_of_lt hlt]
      exact (ih (size_erase_le_of_mem hturns hmem) hgap').cons hv

theorem drain_spec {turns : Nat} {pending : Std.ExtTreeMap Nat T} {next : Nat}
    (hturns : pending.size ≤ turns) (hnext : next ≤ maxValue 64)
    (hkeys : ∀ x, x ∈ pending → x < maxValue 64) :
    Drained pending next (drain turns pending next) :=
  drained_of_gap hturns ⟨maxValue 64, hnext, le_refl _, fun hmem => by have := hkeys _ hmem; omega⟩

theorem drainChecked_of_gap {turns : Nat} {pending : Std.ExtTreeMap Nat T} {next : Nat}
    (hgap : Gap pending next) :
    drainChecked turns pending next = some (drain turns pending next) := by
  induction turns generalizing pending next with
  | zero => rfl
  | succ turns ih =>
    rw [drainChecked, drain]
    cases hv : pending[next]? with
    | none => rfl
    | some value =>
      obtain ⟨hlt, hgap'⟩ := hgap.erase ((KeyedMap.mem_iff _ _).mpr ⟨value, hv⟩)
      rw [wrappingAdd_one_of_lt hlt, checkedAdd_eq_some.mpr ⟨hlt, rfl⟩]
      simp only [ih hgap', Option.map_some]

theorem drainChecked_of_full {turns : Nat} {pending : Std.ExtTreeMap Nat T} {next : Nat}
    (hturns : pending.size ≤ turns) (hnext : next ≤ maxValue 64) (hfull : ¬Gap pending next) :
    drainChecked turns pending next = none := by
  have hfrom : ∀ x, next ≤ x → x ≤ maxValue 64 → x ∈ pending := by
    intro x hle hmax
    by_contra hx
    exact hfull ⟨x, hle, hmax, hx⟩
  clear hfull
  induction turns generalizing pending next with
  | zero =>
    obtain rfl : pending = ∅ := KeyedMap.eq_empty_of_size (Nat.le_zero.mp hturns)
    exact absurd (hfrom next (le_refl _) hnext) Std.ExtTreeMap.not_mem_empty
  | succ turns ih =>
    have hmem : next ∈ pending := hfrom next (le_refl _) hnext
    obtain ⟨value, hv⟩ := (KeyedMap.mem_iff _ _).mp hmem
    simp only [drainChecked, hv]
    cases hadd : checkedAdd 64 next 1 with
    | none => rfl
    | some following =>
      obtain ⟨hle, rfl⟩ := checkedAdd_eq_some.mp hadd
      have hrest := ih (size_erase_le_of_mem hturns hmem) hle fun x hx hmax =>
        (mem_erase_of_lt (by omega)).mpr (hfrom x (by omega) hmax)
      simp only [hrest, Option.map_none]

theorem completeFrom_of_gap (b : OrderedCommitBuffer T) {generation height : Nat} (value : T)
    (hgap : generation = b.generation → b.nextExpected ≤ height →
      Gap (b.pending.insert height value) b.nextExpected) :
    b.completeFromChecked generation height value =
      some (b.completeFrom generation height value) := by
  rw [completeFromChecked, completeFrom]
  split_ifs with hg hh
  · rfl
  · rfl
  · simp only [drainChecked_of_gap (hgap (not_not.mp hg) (by omega)), Option.map_some]

theorem completeFrom_of_full (b : OrderedCommitBuffer T) {height : Nat} (value : T)
    (hnext : b.nextExpected ≤ maxValue 64) (hheight : b.nextExpected ≤ height)
    (hfull : ¬Gap (b.pending.insert height value) b.nextExpected) :
    b.completeFromChecked b.generation height value = none := by
  rw [completeFromChecked, if_neg (by simp), if_neg (by omega)]
  simp only [drainChecked_of_full (le_refl _) hnext hfull, Option.map_none]

end OrderedCommitBuffer
end SuperqueryNode.Dispatcher

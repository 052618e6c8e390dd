import SuperqueryNode.Finality.Tracker
import SuperqueryNode.Store.History

namespace SuperqueryNode.Finality
open Unsigned Fallible LabelledRun ChainApi Store CheckpointStore

def ServesTip (headerAt : HeaderAt) (tip : BlockPtr) : Prop :=
  ∃ h, headerAt tip.height = .ok h ∧ h.hash = tip.hash

def CanonicalOnEvidence (tracker : FinalityTracker) (s : Schema) (tip : BlockPtr) : Prop :=
  ∀ headerAt, tracker.check headerAt s tip = .ok .canonical → ServesTip headerAt tip

def onlyServes (x : StoredHeader) : HeaderAt := fun height =>
  if height = x.height then .ok ⟨height, x.hash, x.parentHash, none⟩
  else .error (.blockUnavailable height)

section Tip
variable {tracker : FinalityTracker} {s : Schema} {tip : BlockPtr} {stored : List StoredHeader}

theorem evidence_of_row (hselects : Selects s tip.height (tracker.floor tip) stored)
    (hstored : headersDescending s tip.height (tracker.floor tip) = .ok stored) {row : BlockRow}
    (hrow : s.blocks.rows[(tip.height : Int)]? = some row) (hhash : row.hash = tip.hash) :
    CanonicalOnEvidence tracker s tip := by
  intro headerAt hcheck
  have hfloor : tracker.floor tip ≤ tip.height := Nat.sub_le _ _
  rw [FinalityTracker.check_eq hstored] at hcheck
  cases stored with
  | nil =>
    have htop := (hselects.mem (storedHeader tip.height row)).mpr
      ⟨⟨hfloor, Nat.le_refl _⟩, row, hrow, rfl⟩
    cases htop
  | cons x rest =>
    obtain ⟨h, hserved, heq⟩ := matches_comparisonOf.mp (checkStored_canonical_iff.mp hcheck)
    rw [hselects.head hfloor hrow] at hserved heq
    exact ⟨h, hserved, heq.trans hhash⟩

theorem row_of_evidence (hselects : Selects s tip.height (tracker.floor tip) stored)
    (hstored : headersDescending s tip.height (tracker.floor tip) = .ok stored)
    (h : CanonicalOnEvidence tracker s tip) : (tip.height : Int) ∈ s.blocks.rows := by
  by_contra hmissing
  have hcheck : ∀ headerAt, tracker.check headerAt s tip = checkStored headerAt stored :=
    fun _ => FinalityTracker.check_eq hstored
  cases stored with
  | nil =>
    obtain ⟨_, hserved, _⟩ := h (fun height => .error (.blockUnavailable height)) (hcheck _)
    cases hserved
  | cons x rest =>
    have hmatch : (comparisonOf (onlyServes x) x).matches = true :=
      matches_comparisonOf.mpr ⟨_, if_pos rfl, rfl⟩
    obtain ⟨_, hserved, _⟩ := h (onlyServes x)
      ((hcheck _).trans (checkStored_canonical_iff.mpr hmatch))
    obtain ⟨_, row, hrow, _⟩ := (hselects.mem x).mp List.mem_cons_self
    have hne : tip.height ≠ x.height := by
      rintro heq
      exact hmissing ((KeyedMap.mem_iff _ _).mpr ⟨row, heq ▸ hrow⟩)
    rw [onlyServes, if_neg hne] at hserved
    cases hserved

end Tip

theorem canonicalOnEvidence_iff_row (calls : List Call) {checkpoint : Checkpoint}
    (hload : load (Schema.history calls) = .ok (some checkpoint)) (tracker : FinalityTracker) :
    CanonicalOnEvidence tracker (Schema.history calls) checkpoint.indexed ↔
      (checkpoint.indexed.height : Int) ∈ (Schema.history calls).blocks.rows := by
  have hrecorded := recorded_of_load (consistent_history calls) hload
  have hfloor : tracker.floor checkpoint.indexed ≤ checkpoint.indexed.height := Nat.sub_le _ _
  obtain ⟨stored, hstored, hselects⟩ :=
    headersDescending_spec (Schema.history calls) hrecorded.indexedBigint hfloor
  constructor
  · exact row_of_evidence hselects hstored
  · intro hmem
    obtain ⟨row, hrow⟩ := (KeyedMap.mem_iff _ _).mp hmem
    exact evidence_of_row hselects hstored hrow (hrecorded.sameHash row hrow)

theorem history_canonical_on_evidence (calls : List Call) (tracker : FinalityTracker)
    (checkpoint : Checkpoint) (hload : load (Schema.history calls) = .ok (some checkpoint)) :
    (CanonicalOnEvidence tracker (Schema.history calls) checkpoint.indexed ↔
      (checkpoint.indexed.height : Int) ∈ (Schema.history calls).blocks.rows) ∧
    (Guarded Schema.step KeepsTip Schema.empty calls →
      CanonicalOnEvidence tracker (Schema.history calls) checkpoint.indexed) := by
  have hiff := canonicalOnEvidence_iff_row calls hload tracker
  exact ⟨hiff, fun hkeep => hiff.mpr (tipStored_history hkeep checkpoint hload)⟩

def caughtUpBlock : Header := ⟨10, "0xa", some "0x9", none⟩

theorem retained_tip_canonical_on_evidence :
    CanonicalOnEvidence FinalityTracker.new
      (Schema.history [.commitTx caughtUpBlock .final 12, .pruneBelow 10]) ⟨10, "0xa"⟩ :=
  (history_canonical_on_evidence [.commitTx caughtUpBlock .final 12, .pruneBelow 10]
    FinalityTracker.new ⟨⟨10, "0xa"⟩, 12⟩ (by decide +kernel)).1.mpr (by decide +kernel)

theorem pruned_tip_declared_canonical :
    let s := Schema.history [.commitTx caughtUpBlock .final 12, .pruneBelow 12]
    let headerAt : HeaderAt := fun height => .error (.blockUnavailable height)
    load s = .ok (some ⟨⟨10, "0xa"⟩, 12⟩) ∧
    FinalityTracker.new.check headerAt s ⟨10, "0xa"⟩ = .ok .canonical ∧
    ¬CanonicalOnEvidence FinalityTracker.new s ⟨10, "0xa"⟩ := by
  intro s headerAt
  have hcheck : FinalityTracker.new.check headerAt s ⟨10, "0xa"⟩ = .ok .canonical := by
    decide +kernel
  refine ⟨by decide +kernel, hcheck, fun h => ?_⟩
  obtain ⟨_, hserved, _⟩ := h headerAt hcheck
  cases hserved

end SuperqueryNode.Finality

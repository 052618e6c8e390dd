import SuperqueryNode.Lib.LabelledRun
import SuperqueryNode.Store.Checkpoint

namespace SuperqueryNode.Store
open Unsigned Radix Fallible LabelledRun ChainApi

inductive Call where
  | commitTx (header : Header) (finality : FinalityState) (finalizedHeight : Nat)
  | truncateAboveTx (height : Nat)
  | pruneBelow (height : Nat)
deriving DecidableEq, Repr

def Schema.empty : Schema := ⟨BlocksTable.empty, Metadata.empty⟩

def Schema.apply (s : Schema) : Call → Schema
  | .commitTx header finality finalizedHeight =>
    (transaction s (CheckpointStore.commitTx · header finality finalizedHeight)).2
  | .truncateAboveTx height => (transaction s (CheckpointStore.truncateAboveTx · height)).2
  | .pruneBelow height => (transaction s (CheckpointStore.pruneBelow · height)).2

def Schema.history (calls : List Call) : Schema := calls.foldl Schema.apply Schema.empty

structure Recorded (s : Schema) (checkpoint : Checkpoint) : Prop where
  indexedHeight : s.metadata Keys.indexedHeight = some checkpoint.indexed.height.repr
  indexedBlockHash : s.metadata Keys.indexedBlockHash = some checkpoint.indexed.hash
  finalizedHeight : s.metadata Keys.finalizedHeight = some checkpoint.finalizedHeight.repr
  indexedBigint : (checkpoint.indexed.height : Int) ≤ bigintMax
  finalizedBigint : (checkpoint.finalizedHeight : Int) ≤ bigintMax
  sameHash : ∀ row, s.blocks.rows[(checkpoint.indexed.height : Int)]? = some row →
    row.hash = checkpoint.indexed.hash

structure Unrecorded (s : Schema) : Prop where
  indexedHeight : s.metadata Keys.indexedHeight = none
  indexedBlockHash : s.metadata Keys.indexedBlockHash = none
  finalizedHeight : s.metadata Keys.finalizedHeight = none

def Consistent (s : Schema) : Prop := Unrecorded s ∨ ∃ checkpoint, Recorded s checkpoint

section Load
variable {s : Schema} {checkpoint loaded : Checkpoint}

theorem required_of_some {m : Metadata} {key value raw : String} (h : m key = some raw)
    (hok : CheckpointStore.required m key = .ok value) : value = raw := by
  rw [CheckpointStore.required, h, Option.filter_some] at hok
  split_ifs at hok
  cases hok
  rfl

theorem number_of_some {m : Metadata} {key : String} {n value : Nat} (h : m key = some n.repr)
    (hmax : n ≤ maxValue 64) (hok : CheckpointStore.number m key = .ok value) : value = n := by
  obtain ⟨raw, hraw, hparsed⟩ := bind_eq_ok.mp hok
  rw [required_of_some h hraw, fromStrRadix_repr hmax] at hparsed
  exact (pure_eq_ok.mp hparsed).symm

theorem load_unrecorded (h : Unrecorded s) : CheckpointStore.load s = .ok none :=
  if_pos ⟨h.indexedHeight, h.indexedBlockHash, h.finalizedHeight⟩

theorem load_recorded (h : Recorded s checkpoint)
    (hload : CheckpointStore.load s = .ok (some loaded)) : loaded = checkpoint := by
  have hmax : ∀ n : Nat, (n : Int) ≤ bigintMax → n ≤ maxValue 64 := by
    intro n hn
    simp only [bigintMax, maxValue] at hn ⊢
    omega
  rw [CheckpointStore.load, if_neg (by simp [h.indexedHeight])] at hload
  obtain ⟨height, hheight, hload⟩ := bind_eq_ok.mp hload
  obtain ⟨hash, hhash, hload⟩ := bind_eq_ok.mp hload
  obtain ⟨finalized, hfinalized, hload⟩ := bind_eq_ok.mp hload
  cases pure_eq_ok.mp hload
  rw [number_of_some h.indexedHeight (hmax _ h.indexedBigint) hheight,
    required_of_some h.indexedBlockHash hhash,
    number_of_some h.finalizedHeight (hmax _ h.finalizedBigint) hfinalized]

theorem recorded_of_load (h : Consistent s)
    (hload : CheckpointStore.load s = .ok (some loaded)) : Recorded s loaded := by
  rcases h with hfresh | ⟨checkpoint, hrecorded⟩
  · rw [load_unrecorded hfresh] at hload
    cases hload
  · exact load_recorded hrecorded hload ▸ hrecorded

end Load

section Steps
variable {s t : Schema} {checkpoint : Checkpoint}

theorem consistent_empty : Consistent Schema.empty := .inl ⟨rfl, rfl, rfl⟩

theorem recorded_commitTx {header : Header} {finality : FinalityState} {finalizedHeight : Nat}
    (h : CheckpointStore.commitTx s header finality finalizedHeight = .ok ((), t)) :
    Recorded t ⟨header.ptr, finalizedHeight⟩ := by
  obtain ⟨height, hheight, h⟩ := bind_eq_ok.mp h
  obtain ⟨finalized, hfinalized, h⟩ := bind_eq_ok.mp h
  cases pure_eq_ok.mp h
  have hkeys : Keys.indexedHeight ≠ Keys.indexedBlockHash ∧
      Keys.indexedHeight ≠ Keys.finalizedHeight ∧
      Keys.indexedBlockHash ≠ Keys.finalizedHeight := by decide
  have hrow : (s.blocks.upsert height ⟨header.hash, header.parentHash,
      finalityToStr finality⟩).rows[(header.height : Int)]? =
      some ⟨header.hash, header.parentHash, finalityToStr finality⟩ := by
    rw [BlocksTable.upsert, ← sqlHeight_ok hheight]
    exact Std.ExtTreeMap.getElem?_insert_self
  refine ⟨?_, ?_, ?_, ?_, ?_, ?_⟩
  · simp [hkeys, Header.ptr]
  · simp [hkeys, Header.ptr]
  · simp
  · exact sqlHeight_ok hheight ▸ height.upper
  · exact sqlHeight_ok hfinalized ▸ finalized.upper
  · intro row hget
    simp only [Header.ptr, hrow] at hget ⊢
    cases hget
    rfl

theorem recorded_of_fewer_rows (h : Recorded s checkpoint) (hmeta : t.metadata = s.metadata)
    (hrows : ∀ (k : Int) row, t.blocks.rows[k]? = some row → s.blocks.rows[k]? = some row) :
    Recorded t checkpoint :=
  ⟨hmeta ▸ h.indexedHeight, hmeta ▸ h.indexedBlockHash, hmeta ▸ h.finalizedHeight,
    h.indexedBigint, h.finalizedBigint, fun row hrow => h.sameHash row (hrows _ row hrow)⟩

theorem consistent_of_fewer_rows (h : Consistent s) (hmeta : t.metadata = s.metadata)
    (hrows : ∀ (k : Int) row, t.blocks.rows[k]? = some row → s.blocks.rows[k]? = some row) :
    Consistent t := by
  rcases h with hfresh | ⟨checkpoint, hrecorded⟩
  · exact .inl ⟨hmeta ▸ hfresh.indexedHeight, hmeta ▸ hfresh.indexedBlockHash,
      hmeta ▸ hfresh.finalizedHeight⟩
  · exact .inr ⟨checkpoint, recorded_of_fewer_rows hrecorded hmeta hrows⟩

theorem consistent_deleteWhere (h : Consistent s) (p : Int → BlockRow → Bool) :
    Consistent { s with blocks := (s.blocks.deleteWhere p).2 } :=
  consistent_of_fewer_rows h rfl fun k row hrow =>
    ((KeyedMap.mem_filter_iff s.blocks.rows (fun k row => !p k row) k row).mp hrow).1

theorem consistent_apply (h : Consistent s) (call : Call) : Consistent (s.apply call) := by
  cases call with
  | commitTx header finality finalizedHeight =>
    refine transaction_keeps h fun _ committed hbody => ?_
    exact .inr ⟨_, recorded_commitTx hbody⟩
  | truncateAboveTx height =>
    refine transaction_keeps h fun _ committed hbody => ?_
    obtain ⟨key, _, hbody⟩ := bind_eq_ok.mp hbody
    cases pure_eq_ok.mp hbody
    exact consistent_deleteWhere h _
  | pruneBelow height =>
    refine transaction_keeps h fun _ committed hbody => ?_
    obtain ⟨key, _, hbody⟩ := bind_eq_ok.mp hbody
    cases pure_eq_ok.mp hbody
    exact consistent_deleteWhere h _

theorem consistent_foldl (h : Consistent s) (calls : List Call) :
    Consistent (calls.foldl Schema.apply s) := by
  induction calls generalizing s with
  | nil => exact h
  | cons call calls ih => exact ih (consistent_apply h call)

theorem consistent_history (calls : List Call) : Consistent (Schema.history calls) :=
  consistent_foldl consistent_empty calls

end Steps

def TipStored (s : Schema) : Prop :=
  ∀ checkpoint, CheckpointStore.load s = .ok (some checkpoint) →
    (checkpoint.indexed.height : Int) ∈ s.blocks.rows

def KeepsTip (s : Schema) (call : Call) : Prop :=
  ∀ checkpoint, CheckpointStore.load s = .ok (some checkpoint) →
    match call with
    | .commitTx _ _ _ => True
    | .truncateAboveTx height => checkpoint.indexed.height ≤ height
    | .pruneBelow height => height ≤ checkpoint.indexed.height ∨
        ∀ row, s.blocks.rows[(checkpoint.indexed.height : Int)]? = some row →
          row.finalityState ≠ "final"

section Tip
variable {s t : Schema}

def Schema.step (s : Schema) (call : Call) : Option Schema := some (s.apply call)

theorem run_history (s : Schema) (calls : List Call) :
    run Schema.step s calls = some (calls.foldl Schema.apply s) := by
  induction calls generalizing s with
  | nil => rfl
  | cons call calls ih => exact run_cons.mpr ⟨s.apply call, rfl, ih _⟩

theorem tipStored_commitTx {header : Header} {finality : FinalityState} {finalizedHeight : Nat}
    (h : CheckpointStore.commitTx s header finality finalizedHeight = .ok ((), t)) :
    TipStored t := by
  intro checkpoint hload
  rw [load_recorded (recorded_commitTx h) hload]
  obtain ⟨height, hheight, h⟩ := bind_eq_ok.mp h
  obtain ⟨_, _, h⟩ := bind_eq_ok.mp h
  cases pure_eq_ok.mp h
  simp only [Header.ptr, BlocksTable.upsert, ← sqlHeight_ok hheight]
  exact Std.ExtTreeMap.mem_insert_self

theorem tipStored_deleteWhere (h : TipStored s) {p : Int → BlockRow → Bool}
    (hkeep : ∀ checkpoint, CheckpointStore.load s = .ok (some checkpoint) → ∀ row,
      s.blocks.rows[(checkpoint.indexed.height : Int)]? = some row →
        p checkpoint.indexed.height row = false) :
    TipStored { s with blocks := (s.blocks.deleteWhere p).2 } := by
  intro checkpoint hload
  obtain ⟨row, hrow⟩ := (KeyedMap.mem_iff _ _).mp (h checkpoint hload)
  refine (KeyedMap.mem_iff _ _).mpr ⟨row, (KeyedMap.mem_filter_iff _ _ _ _).mpr ⟨hrow, ?_⟩⟩
  rw [hkeep checkpoint hload row hrow]
  rfl

theorem tipStored_apply (h : TipStored s) {call : Call} (hkeep : KeepsTip s call) :
    TipStored (s.apply call) := by
  cases call with
  | commitTx header finality finalizedHeight =>
    exact transaction_keeps h fun _ committed hbody => tipStored_commitTx hbody
  | truncateAboveTx height =>
    refine transaction_keeps h fun _ committed hbody => ?_
    obtain ⟨key, hkey, hbody⟩ := bind_eq_ok.mp hbody
    cases pure_eq_ok.mp hbody
    refine tipStored_deleteWhere h fun checkpoint hload row _ => decide_eq_false ?_
    have hle : checkpoint.indexed.height ≤ height := hkeep checkpoint hload
    rw [sqlHeight_ok hkey]
    omega
  | pruneBelow height =>
    refine transaction_keeps h fun _ committed hbody => ?_
    obtain ⟨key, hkey, hbody⟩ := bind_eq_ok.mp hbody
    cases pure_eq_ok.mp hbody
    refine tipStored_deleteWhere h fun checkpoint hload row hrow => ?_
    rw [Bool.and_eq_false_iff, sqlHeight_ok hkey]
    rcases hkeep checkpoint hload with hle | hstate
    · left
      exact decide_eq_false (by omega)
    · right
      exact beq_eq_false_iff_ne.mpr (hstate row hrow)

theorem tipStored_history {calls : List Call}
    (hkeep : Guarded Schema.step KeepsTip Schema.empty calls) :
    TipStored (Schema.history calls) := by
  have hempty : TipStored Schema.empty := by
    intro checkpoint hload
    cases hload
  refine run_guarded_invariant (fun s call t hs hk hstep => ?_) hempty hkeep (run_history _ calls)
  cases hstep
  exact tipStored_apply hs hk

end Tip
end SuperqueryNode.Store

import SuperqueryNode.Lib.Fallible
import SuperqueryNode.Lib.KeyedMap
import SuperqueryNode.Lib.Radix
import SuperqueryNode.Store.Metadata
import SuperqueryNode.Store.Postgres

namespace SuperqueryNode.Store
open Unsigned Radix Fallible ChainApi

structure BlockRow where
  hash : String
  parentHash : Option String
  finalityState : String
deriving DecidableEq, Repr

-- `_superquery_blocks`, keyed by its `height bigint PRIMARY KEY`.
structure BlocksTable where
  rows : Std.ExtTreeMap Int BlockRow
  bigint : ∀ k, k ∈ rows → k ≤ bigintMax

namespace BlocksTable

def empty : BlocksTable := ⟨∅, fun _ h => absurd h Std.ExtTreeMap.not_mem_empty⟩

def upsert (t : BlocksTable) (height : Bigint) (row : BlockRow) : BlocksTable where
  rows := t.rows.insert height.val row
  bigint := by
    intro k hk
    rcases Std.ExtTreeMap.mem_insert.mp hk with h | h
    · rw [Std.LawfulEqCmp.compare_eq_iff_eq] at h
      exact h ▸ height.upper
    · exact t.bigint k h

def deleteWhere (t : BlocksTable) (p : Int → BlockRow → Bool) : Nat × BlocksTable :=
  let rows := t.rows.filter fun k row => !p k row
  (t.rows.size - rows.size, ⟨rows, fun k hk => t.bigint k (Std.ExtTreeMap.mem_of_mem_filter hk)⟩)

end BlocksTable

structure Schema where
  blocks : BlocksTable
  metadata : Metadata

structure Checkpoint where
  indexed : BlockPtr
  finalizedHeight : Nat
deriving DecidableEq, Repr

structure StoredHeader where
  height : Nat
  hash : String
  parentHash : Option String
  finality : FinalityState
deriving DecidableEq, Repr

def finalityToStr : FinalityState → String
  | .final => "final"
  | .unfinalized => "unfinalized"

def finalityFromStr (raw : String) : FinalityState :=
  if raw = "final" then .final else .unfinalized

theorem finalityFromStr_toStr (state : FinalityState) :
    finalityFromStr (finalityToStr state) = state := by
  cases state <;> rfl

namespace CheckpointStore

def required (m : Metadata) (key : String) : Except StoreError String :=
  match (m key).filter (· ≠ "") with
  | some value => .ok value
  | none => .error (.decode s!"incomplete checkpoint: missing {key}")

def number (m : Metadata) (key : String) : Except StoreError Nat := do
  let value ← required m key
  match fromStrRadix 64 10 value with
  | some n => return n
  | none => .error (.decode s!"invalid checkpoint {key}")

def load (s : Schema) : Except StoreError (Option Checkpoint) :=
  if s.metadata Keys.indexedHeight = none ∧ s.metadata Keys.indexedBlockHash = none ∧
      s.metadata Keys.finalizedHeight = none then .ok none
  else do
    let height ← number s.metadata Keys.indexedHeight
    let hash ← required s.metadata Keys.indexedBlockHash
    let finalizedHeight ← number s.metadata Keys.finalizedHeight
    return some ⟨⟨height, hash⟩, finalizedHeight⟩

def commitTx (s : Schema) (header : Header) (finality : FinalityState) (finalizedHeight : Nat) :
    Except StoreError (Unit × Schema) := do
  let height ← sqlHeight header.height
  let _ ← sqlHeight finalizedHeight
  let blocks := s.blocks.upsert height ⟨header.hash, header.parentHash, finalityToStr finality⟩
  let metadata := s.metadata.set Keys.indexedHeight header.height.repr
  let metadata := metadata.set Keys.indexedBlockHash header.hash
  let metadata := metadata.set Keys.finalizedHeight finalizedHeight.repr
  return ((), ⟨blocks, metadata⟩)

def storedHeader (height : Nat) (row : BlockRow) : StoredHeader :=
  ⟨height, row.hash, row.parentHash, finalityFromStr row.finalityState⟩

def rowToStoredHeader (e : Int × BlockRow) : Except StoreError StoredHeader :=
  if e.1 < 0 then .error (.decode "negative stored block height")
  else .ok (storedHeader e.1.toNat e.2)

def headerAt (s : Schema) (height : Nat) : Except StoreError (Option StoredHeader) := do
  let key ← sqlHeight height
  match s.blocks.rows[key.val]? with
  | none => return none
  | some row => (rowToStoredHeader (key.val, row)).map some

def headersDescending (s : Schema) (high low : Nat) : Except StoreError (List StoredHeader) := do
  let high ← sqlHeight high
  let low ← sqlHeight low
  let selected := KeyedMap.descending s.blocks.rows fun k => k ≤ high.val ∧ low.val ≤ k
  selected.mapM rowToStoredHeader

def truncateAboveTx (s : Schema) (height : Nat) : Except StoreError (Nat × Schema) := do
  let height ← sqlHeight height
  let r := s.blocks.deleteWhere fun k _ => height.val < k
  return (r.1, { s with blocks := r.2 })

def pruneBelow (s : Schema) (height : Nat) : Except StoreError (Nat × Schema) := do
  let height ← sqlHeight height
  let r := s.blocks.deleteWhere fun k row => k < height.val && row.finalityState == "final"
  return (r.1, { s with blocks := r.2 })

structure Selects (s : Schema) (high low : Nat) (stored : List StoredHeader) : Prop where
  descending : stored.Pairwise fun a b => b.height < a.height
  mem : ∀ x, x ∈ stored ↔ (low ≤ x.height ∧ x.height ≤ high) ∧
    ∃ row, s.blocks.rows[(x.height : Int)]? = some row ∧ x = storedHeader x.height row

theorem headersDescending_selects (s : Schema) {high low : Nat}
    (hhigh : (high : Int) ≤ bigintMax) (hlow : (low : Int) ≤ bigintMax) :
    ∃ stored, headersDescending s high low = .ok stored ∧ Selects s high low stored := by
  obtain ⟨h, hh, hhval⟩ := sqlHeight_of_le hhigh
  obtain ⟨l, hl, hlval⟩ := sqlHeight_of_le hlow
  let selected := KeyedMap.descending s.blocks.rows fun k => k ≤ h.val ∧ l.val ≤ k
  have hmem : ∀ e : Int × BlockRow, e ∈ selected ↔
      s.blocks.rows[e.1]? = some e.2 ∧ e.1 ≤ high ∧ (low : Int) ≤ e.1 := by
    intro e
    rw [KeyedMap.mem_descending, decide_eq_true_eq, hhval, hlval]
  have hrow : ∀ e ∈ selected, rowToStoredHeader e = .ok (storedHeader e.1.toNat e.2) := by
    intro e he
    have := ((hmem e).mp he).2.2
    exact if_neg (by omega)
  refine ⟨selected.map fun e => storedHeader e.1.toNat e.2, ?_, ?_, ?_⟩
  · refine bind_eq_ok.mpr ⟨h, hh, bind_eq_ok.mpr ⟨l, hl, ?_⟩⟩
    exact mapM_eq_map hrow
  · rw [List.pairwise_map]
    refine (KeyedMap.descending_ordered _ _).imp_of_mem fun {a b} ha hb hlt => ?_
    have := ((hmem a).mp ha).2
    have := ((hmem b).mp hb).2
    have hlt : b.1 < a.1 := compare_lt_iff_lt.mp hlt
    simp only [storedHeader]
    omega
  · intro x
    rw [List.mem_map]
    constructor
    · rintro ⟨e, he, rfl⟩
      obtain ⟨hget, hhi, hlo⟩ := (hmem e).mp he
      have hcast : ((e.1.toNat : Nat) : Int) = e.1 := Int.toNat_of_nonneg (by omega)
      refine ⟨by simp only [storedHeader]; omega, e.2, ?_, rfl⟩
      simp only [storedHeader, hcast]
      exact hget
    · rintro ⟨⟨hlo, hhi⟩, row, hget, hx⟩
      refine ⟨((x.height : Int), row), (hmem _).mpr ⟨hget, by omega, by omega⟩, ?_⟩
      simp only [Int.toNat_natCast]
      exact hx.symm

theorem headersDescending_spec (s : Schema) {high low : Nat} (hhigh : (high : Int) ≤ bigintMax)
    (hle : low ≤ high) :
    ∃ stored, headersDescending s high low = .ok stored ∧ Selects s high low stored :=
  headersDescending_selects s hhigh (by omega)

theorem Selects.head {s : Schema} {high low : Nat} {x : StoredHeader} {rest : List StoredHeader}
    {row : BlockRow} (h : Selects s high low (x :: rest)) (hle : low ≤ high)
    (hrow : s.blocks.rows[(high : Int)]? = some row) : x = storedHeader high row := by
  have htop : storedHeader high row ∈ x :: rest :=
    (h.mem _).mpr ⟨⟨hle, Nat.le_refl _⟩, row, hrow, rfl⟩
  rcases List.mem_cons.mp htop with heq | hrest
  · exact heq.symm
  · have hlt : high < x.height := (List.pairwise_cons.mp h.descending).1 _ hrest
    have hhigh : x.height ≤ high := ((h.mem x).mp List.mem_cons_self).1.2
    omega

end CheckpointStore
end SuperqueryNode.Store

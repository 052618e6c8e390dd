import SuperqueryNode.Lib.Fallible
import SuperqueryNode.Lib.Linked
import SuperqueryNode.Store.Postgres

namespace SuperqueryNode.Store
open Unsigned Fallible Linked ChainApi

structure IngestionRow where
  height : Bigint
  hash : String
  parentHash : Option String
  timestamp : Option Int
deriving DecidableEq, Repr

-- The CHECK and the PRIMARY KEY of `_superquery_ingestion_blocks`.
structure IngestionBlocks where
  rows : List IngestionRow
  checked : ∀ r ∈ rows, 0 ≤ r.height.val
  unique : (rows.map (·.height)).Nodup

namespace IngestionBlocks

def empty : IngestionBlocks := ⟨[], by simp, by simp⟩

def insert (j : IngestionBlocks) (row : IngestionRow) : Except StoreError IngestionBlocks :=
  if hneg : row.height.val < 0 then .error (.postgres "violates check constraint")
  else if hdup : row.height ∈ j.rows.map (·.height) then
    .error (.postgres "duplicate key value violates unique constraint")
  else
    .ok {
      rows := j.rows ++ [row]
      checked := by
        intro r hr
        rcases List.mem_append.mp hr with hr | hr
        · exact j.checked r hr
        · rw [List.mem_singleton.mp hr]
          exact Int.not_lt.mp hneg
      unique := by
        rw [List.map_append, List.nodup_append]
        refine ⟨j.unique, by simp, ?_⟩
        rintro a ha b hb rfl
        obtain rfl : a = row.height := by simpa using hb
        exact hdup ha }

def latest (j : IngestionBlocks) : Option IngestionRow := highest (·.height.val) j.rows

end IngestionBlocks

namespace Ingestion

def headerOf (row : IngestionRow) : Header :=
  ⟨row.height.val.toNat, row.hash, row.parentHash, row.timestamp.map timestampFromSql⟩

def decode (row : IngestionRow) : Except StoreError Header :=
  if row.height.val < 0 then .error (.decode "negative ingestion height") else .ok (headerOf row)

def encode (height : Bigint) (header : Header) : IngestionRow :=
  ⟨height, header.hash, header.parentHash, header.timestamp.map timestampToSql⟩

def load (j : IngestionBlocks) : Except StoreError (Option Header) :=
  match j.latest with
  | none => .ok none
  | some row => (decode row).map some

def append (height : Bigint) (header : Header) (j : IngestionBlocks) :
    Except StoreError (Unit × IngestionBlocks) :=
  let insertion := (j.insert (encode height header)).map fun inserted => ((), inserted)
  match j.latest with
  | none => insertion
  | some row => do
    let last ← decode row
    if last = header then return ((), j)
    else if header.isChildOf last then insertion
    else .error (.metadataConflict "ingestion requires contiguous canonical headers")

def commit (j : IngestionBlocks) (header : Header) : Except StoreError Unit × IngestionBlocks :=
  match sqlHeight header.height with
  | .error e => (.error e, j)
  | .ok height =>
    if header.hash = "" then (.error (.decode "empty ingestion hash"), j)
    else transaction j (append height header)

end Ingestion

namespace IngestionBlocks
variable {j : IngestionBlocks} {row : IngestionRow}

theorem insert_cases {t : IngestionBlocks} (h : j.insert row = .ok t) :
    t.rows = j.rows ++ [row] := by
  rw [insert] at h
  split_ifs at h
  cases h
  rfl

theorem insert_ok (hnonneg : 0 ≤ row.height.val)
    (hfresh : row.height ∉ j.rows.map (·.height)) :
    ∃ t, j.insert row = .ok t ∧ t.rows = j.rows ++ [row] := by
  cases h : j.insert row with
  | ok t => exact ⟨t, rfl, insert_cases h⟩
  | error e =>
    rw [insert] at h
    rw [dif_neg (Int.not_lt.mpr hnonneg), dif_neg hfresh] at h
    cases h

structure Chained (j : IngestionBlocks) : Prop where
  linked : j.rows.IsChain fun a b =>
    b.height.val = a.height.val + 1 ∧ b.parentHash = some a.hash
  hashed : ∀ r ∈ j.rows, r.hash ≠ ""

theorem chained_empty : Chained empty := ⟨.nil, by simp [empty]⟩

theorem Chained.latest_eq (hj : j.Chained) : j.latest = j.rows.getLast? :=
  highest_ascending (ascending_of_succ (hj.linked.imp fun _ _ h => h.1))

theorem Chained.height_at (hj : j.Chained) {i : Nat} (hi : i < j.rows.length)
    (h0 : 0 < j.rows.length) : j.rows[i].height.val = j.rows[0].height.val + i :=
  height_getElem (hj.linked.imp fun _ _ h => h.1) hi h0

end IngestionBlocks

namespace Ingestion
open IngestionBlocks

variable {j t : IngestionBlocks} {header : Header}

theorem decode_row (j : IngestionBlocks) {row : IngestionRow} (hr : row ∈ j.rows) :
    decode row = .ok (headerOf row) :=
  if_neg (Int.not_lt.mpr (j.checked row hr))

theorem load_eq (hj : j.Chained) : load j = .ok (j.rows.getLast?.map headerOf) := by
  rw [load]
  rw [hj.latest_eq]
  cases hl : j.rows.getLast? with
  | none => rfl
  | some row =>
    simp only [decode_row j (List.mem_of_getLast? hl)]
    rfl

theorem load_some (hj : j.Chained) {last : Header} :
    load j = .ok (some last) ↔ ∃ row, j.rows.getLast? = some row ∧ headerOf row = last := by
  rw [load_eq hj, Except.ok.injEq, Option.map_eq_some_iff]

def Accepts (j : IngestionBlocks) (header : Header) : Prop :=
  (header.height : Int) ≤ bigintMax ∧ header.hash ≠ "" ∧
    ∀ last, load j = .ok (some last) → header = last ∨ header.isChildOf last = true

theorem child_row {row : IngestionRow} (hr : row ∈ j.rows)
    (hc : header.isChildOf (headerOf row) = true) :
    (header.height : Int) = row.height.val + 1 ∧ header.parentHash = some row.hash := by
  obtain ⟨hheight, _, hparent⟩ := Header.isChildOf_iff.mp hc
  have hnonneg := j.checked row hr
  refine ⟨?_, hparent⟩
  simp only [headerOf] at hheight
  omega

theorem fresh_row (hj : j.Chained) {height : Bigint} (hh : height.val = header.height)
    (hc : ∀ last, load j = .ok (some last) → header.isChildOf last = true) :
    height ∉ j.rows.map (·.height) := by
  intro hmem
  obtain ⟨row, hrow, rfl⟩ := List.mem_map.mp hmem
  cases hl : j.rows.getLast? with
  | none =>
    rw [List.getLast?_eq_none_iff] at hl
    rw [hl] at hrow
    cases hrow
  | some last =>
    have hchild := hc (headerOf last) ((load_some hj).mpr ⟨last, hl, rfl⟩)
    have hnext := (child_row (List.mem_of_getLast? hl) hchild).1
    obtain ⟨top, htop, hle⟩ : ∃ top, j.latest = some top ∧ row.height.val ≤ top.height.val :=
      highest_le hrow
    have hlast : some top = some last := htop.symm.trans (hj.latest_eq.trans hl)
    cases hlast
    omega

theorem insert_child (hj : j.Chained) {height : Bigint} (hh : height.val = header.height)
    (hc : ∀ last, load j = .ok (some last) → header.isChildOf last = true) :
    ∃ t, j.insert (encode height header) = .ok t ∧ t.rows = j.rows ++ [encode height header] := by
  have hnonneg : 0 ≤ (encode height header).height.val := by
    change 0 ≤ height.val
    omega
  exact insert_ok hnonneg (fresh_row hj hh hc)

theorem append_cases (hj : j.Chained) {height : Bigint} (hh : height.val = header.height) :
    (load j = .ok (some header) ∧ append height header j = .ok ((), j)) ∨
    ((∀ last, load j = .ok (some last) → header.isChildOf last = true) ∧
      ∃ t, append height header j = .ok ((), t) ∧ t.rows = j.rows ++ [encode height header]) ∨
    ∃ last, load j = .ok (some last) ∧ header ≠ last ∧ ¬header.isChildOf last = true ∧
      ∃ e, append height header j = .error e := by
  rw [append]
  rw [hj.latest_eq]
  cases hl : j.rows.getLast? with
  | none =>
    have hnone : ∀ last, load j = .ok (some last) → header.isChildOf last = true := by
      intro last hload
      rw [load_eq hj, hl] at hload
      cases hload
    obtain ⟨t, ht, hrows⟩ := insert_child hj hh hnone
    refine .inr (.inl ⟨hnone, t, ?_, hrows⟩)
    simp only [ht]
    rfl
  | some row =>
    have hload : load j = .ok (some (headerOf row)) := (load_some hj).mpr ⟨row, hl, rfl⟩
    simp only [decode_row j (List.mem_of_getLast? hl)]
    by_cases heq : headerOf row = header
    · exact .inl ⟨heq ▸ hload, if_pos heq⟩
    · by_cases hchild : header.isChildOf (headerOf row) = true
      · have hc : ∀ last, load j = .ok (some last) → header.isChildOf last = true := by
          intro last h
          rw [hload] at h
          cases h
          exact hchild
        obtain ⟨t, ht, hrows⟩ := insert_child hj hh hc
        refine .inr (.inl ⟨hc, t, (if_neg heq).trans ((if_pos hchild).trans ?_), hrows⟩)
        rw [ht]
        rfl
      · exact .inr (.inr ⟨_, hload, Ne.symm heq, hchild, _, (if_neg heq).trans (if_neg hchild)⟩)

theorem commit_cases (hj : j.Chained) (header : Header) :
    (Accepts j header ∧ load j = .ok (some header) ∧ commit j header = (.ok (), j)) ∨
    (Accepts j header ∧ (∀ last, load j = .ok (some last) → header.isChildOf last = true) ∧
      ∃ (height : Bigint) (t : IngestionBlocks), height.val = header.height ∧
        commit j header = (.ok (), t) ∧
        t.rows = j.rows ++ [encode height header]) ∨
    (¬Accepts j header ∧ ∃ e, commit j header = (.error e, j)) := by
  rw [commit]
  by_cases hbig : (header.height : Int) ≤ bigintMax
  · obtain ⟨height, hok, hh⟩ := sqlHeight_of_le hbig
    rw [hok]
    by_cases hhash : header.hash = ""
    · exact .inr (.inr ⟨fun h => h.2.1 hhash, _, if_pos hhash⟩)
    · simp only [if_neg hhash]
      rcases append_cases hj hh with ⟨hload, h⟩ | ⟨hc, t, h, hrows⟩ | ⟨last, hload, hne, hnot, e, h⟩
      · refine .inl ⟨⟨hbig, hhash, fun last hl => .inl ?_⟩, hload, transaction_ok h⟩
        rw [hload] at hl
        cases hl
        rfl
      · exact .inr (.inl ⟨⟨hbig, hhash, fun last hl => .inr (hc last hl)⟩, hc, height, t, hh,
          transaction_ok h, hrows⟩)
      · exact .inr (.inr ⟨fun hacc => (hacc.2.2 last hload).elim hne hnot, e, transaction_error h⟩)
  · obtain ⟨e, he⟩ := sqlHeight_error hbig
    rw [he]
    exact .inr (.inr ⟨fun h => hbig h.1, e, rfl⟩)

theorem chained_commit (hj : j.Chained) (header : Header) : (commit j header).2.Chained := by
  rcases commit_cases hj header with ⟨_, _, h⟩ | ⟨hacc, hc, height, t, hh, h, hrows⟩ | ⟨_, e, h⟩
  · rw [h]
    exact hj
  · rw [h]
    refine ⟨?_, ?_⟩
    · rw [hrows, isChain_concat]
      refine ⟨hj.linked, fun row hrow => ?_⟩
      have hchild := child_row (List.mem_of_getLast? hrow)
        (hc _ ((load_some hj).mpr ⟨row, hrow, rfl⟩))
      exact ⟨hh.trans hchild.1, hchild.2⟩
    · intro r hr
      rw [hrows] at hr
      rcases List.mem_append.mp hr with hr | hr
      · exact hj.hashed r hr
      · rw [List.mem_singleton.mp hr]
        exact hacc.2.1
  · rw [h]
    exact hj

theorem commit_prefix (hj : j.Chained) (header : Header) :
    j.rows <+: (commit j header).2.rows := by
  rcases commit_cases hj header with ⟨_, _, h⟩ | ⟨_, _, _, t, _, h, hrows⟩ | ⟨_, e, h⟩
  · exact h ▸ List.prefix_refl _
  · rw [h, hrows]
    exact List.prefix_append _ _
  · exact h ▸ List.prefix_refl _

theorem commit_retry (hj : j.Chained) (hload : load j = .ok (some header)) :
    commit j header = (.ok (), j) := by
  rcases commit_cases hj header with ⟨_, _, h⟩ | ⟨_, hc, _⟩ | ⟨hrej, _⟩
  · exact h
  · have := (Header.isChildOf_iff.mp (hc header hload)).1
    omega
  · obtain ⟨row, hrow, rfl⟩ := (load_some hj).mp hload
    have hmem := List.mem_of_getLast? hrow
    have hbig := row.height.upper
    have hnonneg := j.checked row hmem
    refine absurd ⟨?_, hj.hashed row hmem, fun last h => .inl ?_⟩ hrej
    · simp only [headerOf]
      omega
    · rw [hload] at h
      cases h
      rfl

def Precise (header : Header) : Prop := ∀ t ∈ header.timestamp, 1000 ∣ t.nanos

theorem headerOf_encode (hp : Precise header) {height : Bigint}
    (hh : sqlHeight header.height = .ok height) : headerOf (encode height header) = header := by
  have hval : height.val.toNat = header.height := by
    have := sqlHeight_ok hh
    omega
  obtain ⟨_, hash, parentHash, timestamp⟩ := header
  simp only [headerOf, encode, hval, Header.mk.injEq, true_and, Option.map_map]
  cases timestamp with
  | none => rfl
  | some t => exact congrArg some (timestampFromSql_toSql (hp t rfl))

end Ingestion
end SuperqueryNode.Store

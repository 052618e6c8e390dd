import SuperqueryNode.Finality.Verdict
import SuperqueryNode.Store.Ledger

namespace SuperqueryNode.Finality
open Unsigned Fallible Enumeration Descent ChainApi Store CheckpointStore

inductive Followed : Schema → BlockPtr → Prop where
  | first {header : Header} {finality : FinalityState} {finalizedHeight : Nat} {s : Schema}
      (hcommit : commitTx Schema.empty header finality finalizedHeight = .ok ((), s)) :
      Followed s header.ptr
  | commit {s s' : Schema} {tip : BlockPtr} {header : Header} {finality : FinalityState}
      {finalizedHeight : Nat} (h : Followed s tip) (hcontinues : continuesChain tip header = true)
      (hcommit : commitTx s header finality finalizedHeight = .ok ((), s')) :
      Followed s' header.ptr
  | truncate {s s' : Schema} {tip target : BlockPtr} {row : BlockRow} {removed : Nat}
      (h : Followed s tip) (hrow : s.blocks.rows[(target.height : Int)]? = some row)
      (hhash : row.hash = target.hash)
      (htruncate : truncateAboveTx s target.height = .ok (removed, s')) : Followed s' target
  | prune {s s' : Schema} {tip : BlockPtr} {height removed : Nat} (h : Followed s tip)
      (hle : height ≤ tip.height)
      (hfinal : ∀ (k : Int) row, s.blocks.rows[k]? = some row → k < height →
        row.finalityState = "final")
      (hprune : pruneBelow s height = .ok (removed, s')) : Followed s' tip

structure Following (s : Schema) (tip : BlockPtr) : Prop where
  window : ∃ oldest ≤ tip.height, ∀ k : Int, k ∈ s.blocks.rows ↔
    (oldest : Int) ≤ k ∧ k ≤ tip.height
  linked : ∀ (k : Int) row next, s.blocks.rows[k]? = some row →
    s.blocks.rows[k + 1]? = some next → next.parentHash = some row.hash
  tipHash : ∀ row, s.blocks.rows[(tip.height : Int)]? = some row → row.hash = tip.hash

section Follow
variable {s s' : Schema} {tip : BlockPtr}

theorem commitTx_rows {header : Header} {finality : FinalityState} {finalizedHeight : Nat}
    (h : commitTx s header finality finalizedHeight = .ok ((), s')) (k : Int) :
    s'.blocks.rows[k]? = if (header.height : Int) = k then
      some ⟨header.hash, header.parentHash, finalityToStr finality⟩ else s.blocks.rows[k]? := by
  obtain ⟨height, hheight, h⟩ := bind_eq_ok.mp h
  obtain ⟨finalized, -, h⟩ := bind_eq_ok.mp h
  cases pure_eq_ok.mp h
  rw [← sqlHeight_ok hheight]
  exact KeyedMap.getElem?_insert s.blocks.rows height.val k _

theorem commitTx_apply (s : Schema) (header : Header) (finality : FinalityState)
    {finalizedHeight : Nat} (hheight : (header.height : Int) ≤ bigintMax)
    (hfinalized : (finalizedHeight : Int) ≤ bigintMax) :
    commitTx s header finality finalizedHeight =
      .ok ((), s.apply (.commitTx header finality finalizedHeight)) := by
  obtain ⟨height, hh, -⟩ := sqlHeight_of_le hheight
  obtain ⟨finalized, hf, -⟩ := sqlHeight_of_le hfinalized
  obtain ⟨s', hcommit⟩ : ∃ s', commitTx s header finality finalizedHeight = .ok ((), s') :=
    ⟨_, bind_eq_ok.mpr ⟨height, hh, bind_eq_ok.mpr ⟨finalized, hf, rfl⟩⟩⟩
  rw [Schema.apply, transaction, hcommit]

theorem truncateAboveTx_rows {height removed : Nat}
    (h : truncateAboveTx s height = .ok (removed, s')) (k : Int) (row : BlockRow) :
    s'.blocks.rows[k]? = some row ↔ s.blocks.rows[k]? = some row ∧ k ≤ height := by
  obtain ⟨key, hkey, h⟩ := bind_eq_ok.mp h
  cases pure_eq_ok.mp h
  refine (KeyedMap.mem_filter_iff s.blocks.rows (fun k _ => !decide (key.val < k)) k row).trans ?_
  simp [sqlHeight_ok hkey]

theorem pruneBelow_rows {height removed : Nat} (h : pruneBelow s height = .ok (removed, s'))
    (k : Int) (row : BlockRow) : s'.blocks.rows[k]? = some row ↔
      s.blocks.rows[k]? = some row ∧ (k < height → row.finalityState ≠ "final") := by
  obtain ⟨key, hkey, h⟩ := bind_eq_ok.mp h
  cases pure_eq_ok.mp h
  refine (KeyedMap.mem_filter_iff s.blocks.rows
    (fun k row => !(decide (k < key.val) && row.finalityState == "final")) k row).trans ?_
  simp only [sqlHeight_ok hkey, Bool.not_eq_true', Bool.and_eq_false_iff, decide_eq_false_iff_not,
    beq_eq_false_iff_ne, imp_iff_not_or]

theorem Following.tip_mem (h : Following s tip) : (tip.height : Int) ∈ s.blocks.rows := by
  obtain ⟨oldest, hle, hwindow⟩ := h.window
  exact (hwindow _).mpr ⟨by omega, le_rfl⟩

theorem Following.tip_bigint (h : Following s tip) : (tip.height : Int) ≤ bigintMax :=
  s.blocks.bigint _ h.tip_mem

theorem following_first {header : Header} {finality : FinalityState} {finalizedHeight : Nat}
    (h : commitTx Schema.empty header finality finalizedHeight = .ok ((), s)) :
    Following s header.ptr := by
  have hrows := commitTx_rows h
  have hempty : ∀ k : Int, Schema.empty.blocks.rows[k]? = none := fun _ =>
    Std.ExtTreeMap.getElem?_empty
  refine ⟨⟨header.height, le_rfl, fun k => ?_⟩, fun k row next hrow hnext => ?_, fun row hrow => ?_⟩
  · rw [KeyedMap.mem_iff, hrows, hempty]
    split_ifs with hk
    · simp [Header.ptr, ← hk]
    · simp only [Header.ptr, exists_false, false_iff]
      omega
  · rw [hrows, hempty] at hrow hnext
    split_ifs at hrow hnext with hk hk'
    omega
  · rw [Header.ptr, hrows, if_pos rfl] at hrow
    cases hrow
    rfl

theorem continues_iff (h : Following s tip) {header : Header} :
    continuesChain tip header = true ↔
      header.height = tip.height + 1 ∧ header.parentHash = some tip.hash := by
  have hlt : tip.height < maxValue 64 := by
    have := h.tip_bigint
    simp only [bigintMax, maxValue] at this ⊢
    omega
  rw [continuesChain, wrappingAdd_one_of_lt hlt, Bool.and_eq_true, beq_iff_eq, beq_iff_eq]

theorem following_commit {header : Header} {finality : FinalityState} {finalizedHeight : Nat}
    (h : Following s tip) (hcontinues : continuesChain tip header = true)
    (hcommit : commitTx s header finality finalizedHeight = .ok ((), s')) :
    Following s' header.ptr := by
  obtain ⟨hheight, hparent⟩ := (continues_iff h).mp hcontinues
  obtain ⟨oldest, hle, hwindow⟩ := h.window
  have hrows := commitTx_rows hcommit
  have habove : ∀ k : Int, (tip.height : Int) < k → s.blocks.rows[k]? = none := by
    intro k hk
    refine Std.ExtTreeMap.getElem?_eq_none fun hmem => ?_
    have := (hwindow k).mp hmem
    omega
  refine ⟨⟨oldest, ?_, fun k => ?_⟩, fun k row next hrow hnext => ?_, fun row hrow => ?_⟩
  · simp only [Header.ptr]
    omega
  · rw [KeyedMap.mem_iff, hrows]
    simp only [Header.ptr]
    split_ifs with hk
    · simp only [Option.some.injEq, exists_eq', true_iff]
      omega
    · rw [← KeyedMap.mem_iff, hwindow]
      omega
  · rw [hrows] at hrow hnext
    split_ifs at hrow hnext with hk hk' hk'
    · omega
    · rw [habove _ (by omega)] at hnext
      cases hnext
    · cases hnext
      have hkey : k = tip.height := by omega
      rw [hkey] at hrow
      rw [h.tipHash row hrow]
      exact hparent
    · exact h.linked k row next hrow hnext
  · rw [Header.ptr, hrows, if_pos rfl] at hrow
    cases hrow
    rfl

theorem following_cut (h : Following s tip) {low : Nat} {target : BlockPtr} {row : BlockRow}
    (hlow : low ≤ target.height) (hrow : s.blocks.rows[(target.height : Int)]? = some row)
    (hhash : row.hash = target.hash)
    (hcut : ∀ (k : Int) row, s'.blocks.rows[k]? = some row ↔
      s.blocks.rows[k]? = some row ∧ (low : Int) ≤ k ∧ k ≤ target.height) :
    Following s' target := by
  obtain ⟨oldest, hle, hwindow⟩ := h.window
  have htarget := (hwindow _).mp ((KeyedMap.mem_iff _ _).mpr ⟨row, hrow⟩)
  refine ⟨⟨max oldest low, by omega, fun k => ?_⟩, fun k row next hk hnext => ?_,
    fun r hr => ?_⟩
  · have hmem : k ∈ s'.blocks.rows ↔ k ∈ s.blocks.rows ∧ (low : Int) ≤ k ∧ k ≤ target.height := by
      simp only [KeyedMap.mem_iff, hcut, exists_and_right]
    rw [hmem, hwindow]
    omega
  · exact h.linked k row next ((hcut _ _).mp hk).1 ((hcut _ _).mp hnext).1
  · rw [((hcut _ _).mp hr).1] at hrow
    cases hrow
    exact hhash

theorem following_truncate (h : Following s tip) {target : BlockPtr} {row : BlockRow}
    {removed : Nat} (hrow : s.blocks.rows[(target.height : Int)]? = some row)
    (hhash : row.hash = target.hash)
    (htruncate : truncateAboveTx s target.height = .ok (removed, s')) : Following s' target := by
  obtain ⟨oldest, -, hwindow⟩ := h.window
  refine following_cut h (Nat.zero_le _) hrow hhash fun k row => ?_
  rw [truncateAboveTx_rows htruncate]
  refine and_congr_right fun hk => ?_
  have := (hwindow k).mp ((KeyedMap.mem_iff _ _).mpr ⟨row, hk⟩)
  omega

theorem following_prune (h : Following s tip) {height removed : Nat} (hle : height ≤ tip.height)
    (hfinal : ∀ (k : Int) row, s.blocks.rows[k]? = some row → k < height →
      row.finalityState = "final")
    (hprune : pruneBelow s height = .ok (removed, s')) : Following s' tip := by
  obtain ⟨row, hrow⟩ := (KeyedMap.mem_iff _ _).mp h.tip_mem
  obtain ⟨oldest, -, hwindow⟩ := h.window
  refine following_cut h hle hrow (h.tipHash row hrow) fun k row => ?_
  rw [pruneBelow_rows hprune]
  refine and_congr_right fun hk => ?_
  have hbounds := (hwindow k).mp ((KeyedMap.mem_iff _ _).mpr ⟨row, hk⟩)
  constructor
  · intro hkeep
    refine ⟨?_, hbounds.2⟩
    by_contra hlt
    exact hkeep (by omega) (hfinal k row hk (by omega))
  · intro hkept hlt
    omega

theorem following_of_followed (h : Followed s tip) : Following s tip := by
  induction h with
  | first hcommit => exact following_first hcommit
  | commit h hcontinues hcommit ih => exact following_commit ih hcontinues hcommit
  | truncate h hrow hhash htruncate ih => exact following_truncate ih hrow hhash htruncate
  | prune h hle hfinal hprune ih => exact following_prune ih hle hfinal hprune

theorem storedChain (h : Following s tip) {floor : Nat} (hfloor : floor ≤ tip.height) :
    Nonempty (StoredChain s tip floor) := by
  obtain ⟨oldest, hle, hwindow⟩ := h.window
  let block (n : Nat) : BlockRow := s.blocks.rows[(n : Int)]?.getD ⟨"", none, ""⟩
  have hblock : ∀ n : Nat, oldest ≤ n → n ≤ tip.height →
      s.blocks.rows[(n : Int)]? = some (block n) := by
    intro n hlow hhigh
    obtain ⟨row, hrow⟩ := (KeyedMap.mem_iff _ _).mp ((hwindow n).mpr (by omega))
    simp only [block, hrow, Option.getD_some]
  refine ⟨⟨max oldest floor, block, le_max_right _ _, max_le hle hfloor, fun n hlow hhigh => ?_,
    fun n hlow hlt => ?_, fun n hlow hlt => ?_, h.tipHash _ (hblock _ hle le_rfl)⟩⟩
  · exact hblock n (by omega) hhigh
  · refine Std.ExtTreeMap.getElem?_eq_none fun hmem => ?_
    have := (hwindow n).mp hmem
    omega
  · exact h.linked n _ _ (hblock n (by omega) (by omega)) (hblock (n + 1) (by omega) (by omega))

theorem stored_above (h : Following s tip) {height : Nat}
    (hmem : (height : Int) ∈ s.blocks.rows) :
    (KeyedMap.descending s.blocks.rows fun k => decide ((height : Int) < k)).length =
      tip.height - height := by
  obtain ⟨oldest, hle, hwindow⟩ := h.window
  have hlow := (hwindow height).mp hmem
  have hkeys : (KeyedMap.descending s.blocks.rows fun k => decide ((height : Int) < k)).map
      Prod.fst = (descend tip.height (height + 1)).map Int.ofNat := by
    refine eq_of_ordered (r := fun a b : Int => b < a) (fun _ _ => lt_asymm) ?_ ?_ fun k => ?_
    · rw [List.pairwise_map]
      exact (KeyedMap.descending_ordered _ _).imp compare_lt_iff_lt.mp
    · rw [List.pairwise_map]
      exact (descend_descending _ _).imp Int.ofNat_lt.mpr
    · simp only [List.mem_map, Prod.exists, exists_and_right, exists_eq_right, mem_descend,
        KeyedMap.mem_descending, decide_eq_true_eq, ← KeyedMap.mem_iff, hwindow]
      constructor
      · rintro ⟨hk, hlt⟩
        exact ⟨k.toNat, by omega, by simp only [Int.ofNat_eq_natCast]; omega⟩
      · rintro ⟨n, hn, rfl⟩
        simp only [Int.ofNat_eq_natCast]
        omega
  have hlen := congrArg List.length hkeys
  rw [List.length_map, List.length_map, length_descend] at hlen
  omega

theorem truncateAboveTx_stored (h : Following s tip) {height : Nat}
    (hmem : (height : Int) ∈ s.blocks.rows) :
    ∃ kept, truncateAboveTx s height = .ok (tip.height - height, kept) := by
  obtain ⟨key, hkey, hval⟩ := sqlHeight_of_le (s.blocks.bigint _ hmem)
  have hremoved := stored_above h hmem
  rw [← KeyedMap.size_sub_filter, ← hval] at hremoved
  let kept : Schema := ⟨(s.blocks.deleteWhere fun k _ => decide (key.val < k)).2, s.metadata⟩
  exact ⟨kept, bind_eq_ok.mpr ⟨key, hkey, congrArg (fun n => Except.ok (n, kept)) hremoved⟩⟩

end Follow

def SameParents (s : Schema) (c : CanonicalChain) : Prop :=
  ∀ (h : Nat) row, s.blocks.rows[(h : Int)]? = some row → h ≤ c.tip →
    row.hash = (c.header h).hash → row.parentHash = (c.header h).parentHash

section Verdicts
variable {s : Schema} {tip : BlockPtr} (tracker : FinalityTracker) (c : CanonicalChain)

theorem check_window (h : Following s tip) (w : StoredChain s tip (tracker.floor tip)) :
    tracker.check c.headerAt s tip = .ok (findCommonAncestor (fullComparison w c)) := by
  obtain ⟨stored, hstored, hselects⟩ :=
    headersDescending_spec s h.tip_bigint (Nat.sub_le tip.height tracker.searchDepth)
  rw [FinalityTracker.check_eq hstored, selects_eq (w := w) hselects,
    checkStored_full fun _ _ _ he => c.not_retryable he, funext c.comparisonOf_headerAt]
  rfl

theorem check_exact (h : Following s tip) (w : StoredChain s tip (tracker.floor tip))
    (hsame : SameParents s c) (d : ReorgDecision) :
    tracker.check c.headerAt s tip = .ok d ↔ Exact w c d := by
  have hexact : Exact w c (findCommonAncestor (fullComparison w c)) :=
    findCommonAncestor_exact fun n hlow hhigh => hsame n _ (w.stored n hlow hhigh)
  rw [check_window tracker c h w, Except.ok.injEq]
  constructor
  · rintro rfl
    exact hexact
  · exact exact_unique hexact

theorem check_canonical (h : Following s tip) (hcanonical : c.hashAt tip.height = some tip.hash) :
    tracker.check c.headerAt s tip = .ok .canonical := by
  have hfloor : tracker.floor tip ≤ tip.height := Nat.sub_le _ _
  obtain ⟨stored, hstored, hselects⟩ := headersDescending_spec s h.tip_bigint hfloor
  obtain ⟨row, hrow⟩ := (KeyedMap.mem_iff _ _).mp h.tip_mem
  obtain ⟨hle, hhash⟩ := CanonicalChain.hashAt_eq_some.mp hcanonical
  rw [FinalityTracker.check_eq hstored]
  cases stored with
  | nil =>
    have htop := (hselects.mem (storedHeader tip.height row)).mpr
      ⟨⟨hfloor, le_rfl⟩, row, hrow, rfl⟩
    cases htop
  | cons x rest =>
    rw [hselects.head hfloor hrow]
    exact checkStored_canonical_iff.mpr (matches_comparisonOf.mpr
      ⟨c.header tip.height, if_pos hle, hhash.trans (h.tipHash row hrow).symm⟩)

end Verdicts

def forkedHeader : Nat → Header
  | 9 => ⟨9, "0xa", some "0x9", none⟩
  | 10 => ⟨10, "0xb", some "0xa", none⟩
  | _ => ⟨11, "0xc", some "0xb", none⟩

def forkedCalls : List Call := [.commitTx (forkedHeader 9) .final 9,
  .commitTx (forkedHeader 10) .unfinalized 9, .commitTx (forkedHeader 11) .unfinalized 9]

theorem forked_fits (h : Nat) : ((forkedHeader h).height : Int) ≤ bigintMax := by
  unfold forkedHeader
  split
  all_goals decide

theorem forked_commit (s : Schema) (h : Nat) (finality : FinalityState) :
    commitTx s (forkedHeader h) finality 9 =
      .ok ((), s.apply (.commitTx (forkedHeader h) finality 9)) :=
  commitTx_apply s _ finality (forked_fits h) (forked_fits 9)

theorem forked_followed : Followed (Schema.history forkedCalls) ⟨11, "0xc"⟩ := by
  have hfirst := Followed.first (forked_commit Schema.empty 9 .final)
  have hsecond := hfirst.commit rfl (forked_commit _ 10 .unfinalized)
  exact hsecond.commit rfl (forked_commit _ 11 .unfinalized)

theorem forked_sameParents : SameParents (Schema.history forkedCalls) shortenedChain := by
  intro h row hrow htip hhash
  change h ≤ 10 at htip
  change (((Schema.empty.apply (.commitTx (forkedHeader 9) .final 9)).apply
    (.commitTx (forkedHeader 10) .unfinalized 9)).apply
      (.commitTx (forkedHeader 11) .unfinalized 9)).blocks.rows[(h : Int)]? = some row at hrow
  rw [commitTx_rows (forked_commit _ 11 .unfinalized),
    commitTx_rows (forked_commit _ 10 .unfinalized),
    commitTx_rows (forked_commit _ 9 .final)] at hrow
  simp only [forkedHeader] at hrow
  split_ifs at hrow with h11 h10 h9
  · omega
  · obtain rfl : h = 10 := by omega
    cases hrow
    exact absurd hhash (by decide)
  · obtain rfl : h = 9 := by omega
    cases hrow
    rfl
  · rw [show Schema.empty.blocks.rows[(h : Int)]? = none from Std.ExtTreeMap.getElem?_empty] at hrow
    cases hrow

theorem followed_checks_are_exact {s : Schema} {tip : BlockPtr} (h : Followed s tip)
    (tracker : FinalityTracker) : ∃ w : StoredChain s tip (tracker.floor tip),
      ∀ c, SameParents s c → ∀ d, tracker.check c.headerAt s tip = .ok d ↔ Exact w c d := by
  have hfollowing := following_of_followed h
  obtain ⟨w⟩ := storedChain hfollowing (Nat.sub_le tip.height tracker.searchDepth)
  exact ⟨w, fun c hsame d => check_exact tracker c hfollowing w hsame d⟩

theorem forked_check_is_exact : ∃ w : StoredChain (Schema.history forkedCalls) ⟨11, "0xc"⟩ 8,
    Exact w shortenedChain (.rewind ⟨9, "0xa"⟩ 2) := by
  obtain ⟨w, hexact⟩ :=
    followed_checks_are_exact forked_followed (FinalityTracker.new.withSearchDepth 3)
  exact ⟨w, (hexact shortenedChain forked_sameParents _).mp (by decide +kernel)⟩

def recommit (c : CanonicalChain) (mark : Nat → FinalityState × Nat) (height : Nat) :
    Nat → Schema → Except StoreError Schema
  | 0, s => .ok s
  | n + 1, s => do
    let s ← recommit c mark height n s
    let committed ← commitTx s (c.header (height + (n + 1))) (mark (height + (n + 1))).1
      (mark (height + (n + 1))).2
    return committed.2

structure Served (c : CanonicalChain) : Prop where
  height : ∀ n ≤ c.tip, (c.header n).height = n
  hash : ∀ n ≤ c.tip, (c.header n).hash ≠ ""

section Recovery
variable {s kept : Schema} {c : CanonicalChain} {mark : Nat → FinalityState × Nat}

theorem load_of_recorded {checkpoint : Checkpoint} (h : Recorded s checkpoint)
    (hhash : checkpoint.indexed.hash ≠ "") : load s = .ok (some checkpoint) := by
  rw [load, if_neg (by simp [h.indexedHeight])]
  exact bind_eq_ok.mpr ⟨_, number_eq h.indexedHeight (le_maxValue h.indexedBigint),
    bind_eq_ok.mpr ⟨_, required_eq h.indexedBlockHash hhash,
      bind_eq_ok.mpr ⟨_, number_eq h.finalizedHeight (le_maxValue h.finalizedBigint), rfl⟩⟩⟩

theorem recommit_follows (hserved : Served c) (hmark : ∀ n, ((mark n).2 : Int) ≤ bigintMax)
    (height : Nat) (h : Followed kept (c.header height).ptr) (n : Nat)
    (htip : height + n ≤ c.tip) (hfits : (height : Int) + n ≤ bigintMax) :
    ∃ s', recommit c mark height n kept = .ok s' ∧
      Followed s' (c.header (height + n)).ptr ∧ (0 < n → load s' =
        .ok (some ⟨(c.header (height + n)).ptr, (mark (height + n)).2⟩)) := by
  induction n with
  | zero => exact ⟨kept, rfl, h, fun hpos => absurd hpos (lt_irrefl 0)⟩
  | succ n ih =>
    obtain ⟨s, hrun, hfollowed, -⟩ := ih (by omega) (by omega)
    let header := c.header (height + (n + 1))
    have hheight : header.height = height + (n + 1) := hserved.height _ htip
    have hcommit := commitTx_apply s header (mark (height + (n + 1))).1
      (by rw [hheight]; push_cast; omega) (hmark (height + (n + 1)))
    have hlast := hserved.height (height + n) (by omega)
    have hcontinues : continuesChain (c.header (height + n)).ptr header = true := by
      refine (continues_iff (following_of_followed hfollowed)).mpr
        ⟨?_, c.linked (height + n) (by omega)⟩
      simp only [Header.ptr]
      omega
    exact ⟨_, bind_eq_ok.mpr ⟨s, hrun, bind_eq_ok.mpr ⟨_, hcommit, rfl⟩⟩,
      hfollowed.commit hcontinues hcommit,
      fun _ => load_of_recorded (recorded_commitTx hcommit) (hserved.hash _ htip)⟩

theorem hashAt_header (hserved : Served c) {n : Nat} (hn : n ≤ c.tip) :
    c.hashAt (c.header n).ptr.height = some (c.header n).ptr.hash := by
  simp only [Header.ptr]
  rw [hserved.height n hn]
  exact CanonicalChain.hashAt_eq_some.mpr ⟨hn, rfl⟩

end Recovery

theorem reported_rewind_recovers {s : Schema} {tip : BlockPtr} (h : Followed s tip)
    (tracker : FinalityTracker) {c : CanonicalChain} (hserved : Served c)
    (hsame : SameParents s c) {ancestor : BlockPtr} {depth : Nat}
    (hcheck : tracker.check c.headerAt s tip = .ok (.rewind ancestor depth))
    {mark : Nat → FinalityState × Nat} (hmark : ∀ n, ((mark n).2 : Int) ≤ bigintMax) :
    ∃ kept, truncateAboveTx s ancestor.height = .ok (depth, kept) ∧ Followed kept ancestor ∧
      tracker.check c.headerAt kept ancestor = .ok .canonical ∧
      ∀ n, ancestor.height + n ≤ c.tip → (ancestor.height : Int) + n ≤ bigintMax →
        ∃ s', recommit c mark ancestor.height n kept = .ok s' ∧
          Followed s' (c.header (ancestor.height + n)).ptr ∧
          tracker.check c.headerAt s' (c.header (ancestor.height + n)).ptr = .ok .canonical ∧
          (0 < n → load s' = .ok (some
            ⟨(c.header (ancestor.height + n)).ptr, (mark (ancestor.height + n)).2⟩)) := by
  have hfollowing := following_of_followed h
  obtain ⟨w⟩ := storedChain hfollowing (Nat.sub_le tip.height tracker.searchDepth)
  have hexact : RewindExact w c ancestor depth :=
    (check_exact tracker c hfollowing w hsame _).mp hcheck
  have hrow := w.stored ancestor.height hexact.oldest_le hexact.le_tip
  have hcanonical : c.hashAt ancestor.height = some ancestor.hash := by
    rw [hexact.kept ancestor.height hexact.oldest_le le_rfl, hexact.stored]
  obtain ⟨hle, hhash⟩ := CanonicalChain.hashAt_eq_some.mp hcanonical
  have hptr : ancestor = (c.header ancestor.height).ptr := by
    rw [Header.ptr, hserved.height _ hle, hhash]
  obtain ⟨kept, htruncate⟩ :=
    truncateAboveTx_stored hfollowing ((KeyedMap.mem_iff _ _).mpr ⟨_, hrow⟩)
  rw [← hexact.discarded] at htruncate
  have hkept := h.truncate hrow hexact.stored htruncate
  refine ⟨kept, htruncate, hkept,
    check_canonical tracker c (following_of_followed hkept) hcanonical, fun n hn hfits => ?_⟩
  obtain ⟨s', hrun, hfollowed, hload⟩ :=
    recommit_follows hserved hmark ancestor.height (hptr ▸ hkept) n hn hfits
  exact ⟨s', hrun, hfollowed, check_canonical tracker c (following_of_followed hfollowed)
    (hashAt_header hserved hn), hload⟩

theorem shortened_served : Served shortenedChain where
  height := fun _ _ => rfl
  hash := by
    intro n _
    change shortenedHash n ≠ ""
    unfold shortenedHash
    split_ifs
    all_goals decide

def forkedMark (_ : Nat) : FinalityState × Nat := (.unfinalized, 9)

theorem forked_store_recovers : ∃ kept s',
    truncateAboveTx (Schema.history forkedCalls) 9 = .ok (2, kept) ∧
    recommit shortenedChain forkedMark 9 1 kept = .ok s' ∧
    load s' = .ok (some ⟨⟨10, "0xd"⟩, 9⟩) := by
  have hcheck : (FinalityTracker.new.withSearchDepth 3).check shortenedChain.headerAt
      (Schema.history forkedCalls) ⟨11, "0xc"⟩ = .ok (.rewind ⟨9, "0xa"⟩ 2) := by
    decide +kernel
  have hmark : ∀ n, ((forkedMark n).2 : Int) ≤ bigintMax := fun _ => forked_fits 9
  obtain ⟨kept, htruncate, -, -, hrecover⟩ := reported_rewind_recovers forked_followed _
    shortened_served forked_sameParents hcheck hmark
  obtain ⟨s', hrun, -, -, hload⟩ := hrecover 1 (by decide) (forked_fits 10)
  exact ⟨kept, s', htruncate, hrun, hload Nat.one_pos⟩

end SuperqueryNode.Finality

import SuperqueryNode.Store.History
import SuperqueryNode.Store.Identity

namespace SuperqueryNode.Store
open Unsigned Radix Fallible ChainApi

inductive TxCall where
  | commitTx (header : Header) (finality : FinalityState) (finalizedHeight : Nat)
  | truncateAboveTx (height : Nat)
deriving DecidableEq, Repr

inductive StoreEvent where
  | committed (calls : List TxCall)
  | rolledBack (calls : List TxCall) (e : StoreError)
  | pruneBelow (height : Nat)
  | verify (call : VerifyCall)
deriving DecidableEq, Repr

-- A rejected call returns before its first statement, so the transaction goes on unchanged.
def TxCall.apply (s : Schema) : TxCall → Schema
  | .commitTx header finality finalizedHeight =>
    match CheckpointStore.commitTx s header finality finalizedHeight with
    | .ok (_, written) => written
    | .error _ => s
  | .truncateAboveTx height =>
    match CheckpointStore.truncateAboveTx s height with
    | .ok (_, written) => written
    | .error _ => s

def StoreEvent.apply (schema : String) (s : Schema) : StoreEvent → Schema
  | .committed calls => (transaction s fun work => .ok ((), calls.foldl TxCall.apply work)).2
  | .rolledBack calls e => (transaction s fun work =>
      let _ := calls.foldl TxCall.apply work
      (.error e : Except StoreError (Unit × Schema))).2
  | .pruneBelow height => (transaction s (CheckpointStore.pruneBelow · height)).2
  | .verify call => (transaction s fun work =>
      (verifyFacts schema work.metadata call).map fun r => (r.1, { work with metadata := r.2 })).2

structure Ledger where
  tip : Option Checkpoint
  headers : Nat → Option StoredHeader

def StoredHeader.of (header : Header) (finality : FinalityState) : StoredHeader :=
  ⟨header.height, header.hash, header.parentHash, finality⟩

def Fits (height : Nat) : Prop := (height : Int) ≤ bigintMax

instance (height : Nat) : Decidable (Fits height) := inferInstanceAs (Decidable (_ ≤ _))

namespace Ledger

def empty : Ledger := ⟨none, fun _ => none⟩

def keepWhere (l : Ledger) (keep : Nat → StoredHeader → Bool) : Ledger :=
  { l with headers := fun k => (l.headers k).filter (keep k) }

def commit (l : Ledger) (header : Header) (finality : FinalityState) (finalizedHeight : Nat) :
    Ledger :=
  ⟨some ⟨header.ptr, finalizedHeight⟩,
    Function.update l.headers header.height (some (.of header finality))⟩

def call (l : Ledger) : TxCall → Ledger
  | .commitTx header finality finalizedHeight =>
    if Fits header.height ∧ Fits finalizedHeight then l.commit header finality finalizedHeight else l
  | .truncateAboveTx height =>
    if Fits height then l.keepWhere fun k _ => decide (k ≤ height) else l

def event (l : Ledger) : StoreEvent → Ledger
  | .committed calls => calls.foldl call l
  | .rolledBack _ _ => l
  | .pruneBelow height =>
    if Fits height then l.keepWhere fun k x => decide (¬(k < height ∧ x.finality = .final)) else l
  | .verify _ => l

end Ledger

def StoredHeader.row (x : StoredHeader) : BlockRow :=
  ⟨x.hash, x.parentHash, finalityToStr x.finality⟩

theorem finalityToStr_eq_final {state : FinalityState} :
    finalityToStr state = "final" ↔ state = .final := by
  cases state <;> decide

structure Refines (s : Schema) (l : Ledger) : Prop where
  fresh : l.tip = none → Unrecorded s
  recorded : ∀ checkpoint, l.tip = some checkpoint → Recorded s checkpoint ∧
    checkpoint.indexed.hash ≠ ""
  rows : ∀ k : Nat, s.blocks.rows[(k : Int)]? = (l.headers k).map StoredHeader.row
  noNegative : ∀ k : Int, k < 0 → s.blocks.rows[k]? = none
  heights : ∀ k x, l.headers k = some x → x.height = k

section Reads
variable {s : Schema} {l : Ledger}

theorem storedHeader_row {k : Nat} {x : StoredHeader} (h : x.height = k) :
    CheckpointStore.storedHeader k x.row = x := by
  obtain ⟨height, hash, parentHash, finality⟩ := x
  cases h
  simp only [CheckpointStore.storedHeader, StoredHeader.row, finalityFromStr_toStr]

theorem le_maxValue {n : Nat} (h : (n : Int) ≤ bigintMax) : n ≤ maxValue 64 := by
  simp only [bigintMax, maxValue] at h ⊢
  omega

theorem required_eq {m : Metadata} {key value : String} (h : m key = some value)
    (hne : value ≠ "") : CheckpointStore.required m key = .ok value := by
  rw [CheckpointStore.required, h, Option.filter_some, if_pos (decide_eq_true hne)]

theorem number_eq {m : Metadata} {key : String} {n : Nat} (h : m key = some n.repr)
    (hmax : n ≤ maxValue 64) : CheckpointStore.number m key = .ok n := by
  refine bind_eq_ok.mpr ⟨n.repr, required_eq h Nat.repr_ne_empty, ?_⟩
  rw [fromStrRadix_repr hmax]
  rfl

theorem load_eq_tip (h : Refines s l) : CheckpointStore.load s = .ok l.tip := by
  cases htip : l.tip with
  | none => exact load_unrecorded (h.fresh htip)
  | some checkpoint =>
    obtain ⟨hrecorded, hhash⟩ := h.recorded checkpoint htip
    rw [CheckpointStore.load, if_neg (by simp [hrecorded.indexedHeight])]
    refine bind_eq_ok.mpr ⟨_, number_eq hrecorded.indexedHeight
      (le_maxValue hrecorded.indexedBigint), bind_eq_ok.mpr ⟨_,
      required_eq hrecorded.indexedBlockHash hhash, bind_eq_ok.mpr ⟨_,
      number_eq hrecorded.finalizedHeight (le_maxValue hrecorded.finalizedBigint), rfl⟩⟩⟩

theorem headerAt_eq (h : Refines s l) {height : Nat} (hfits : Fits height) :
    CheckpointStore.headerAt s height = .ok (l.headers height) := by
  obtain ⟨key, hkey, hval⟩ := sqlHeight_of_le hfits
  refine bind_eq_ok.mpr ⟨key, hkey, ?_⟩
  rw [hval, h.rows height]
  cases hx : l.headers height with
  | none => rfl
  | some x =>
    have hrow := storedHeader_row (h.heights height x hx)
    simp only [Option.map_some, CheckpointStore.rowToStoredHeader]
    rw [if_neg (by omega), Int.toNat_natCast, hrow]
    rfl

theorem headersDescending_eq (h : Refines s l) {high low : Nat} (hhigh : Fits high)
    (hlow : Fits low) : ∃ stored, CheckpointStore.headersDescending s high low = .ok stored ∧
      stored.Pairwise (fun a b => b.height < a.height) ∧
      ∀ x, x ∈ stored ↔ (low ≤ x.height ∧ x.height ≤ high) ∧ l.headers x.height = some x := by
  obtain ⟨stored, hok, hselects⟩ := CheckpointStore.headersDescending_selects s hhigh hlow
  refine ⟨stored, hok, hselects.descending, fun x => ?_⟩
  rw [hselects.mem x, h.rows x.height]
  refine and_congr_right fun _ => ?_
  constructor
  · rintro ⟨row, hrow, hx⟩
    obtain ⟨y, hy, rfl⟩ := Option.map_eq_some_iff.mp hrow
    rw [storedHeader_row (h.heights _ _ hy)] at hx
    exact hx ▸ hy
  · intro hx
    exact ⟨x.row, by rw [hx]; rfl, (storedHeader_row rfl).symm⟩

end Reads

def TxCall.Hashed : TxCall → Prop
  | .commitTx header _ _ => header.hash ≠ ""
  | .truncateAboveTx _ => True

def StoreEvent.Hashed : StoreEvent → Prop
  | .committed calls => ∀ call ∈ calls, call.Hashed
  | .rolledBack calls _ => ∀ call ∈ calls, call.Hashed
  | _ => True

section Steps
variable {s : Schema} {l : Ledger}

theorem refines_empty : Refines Schema.empty Ledger.empty :=
  ⟨fun _ => ⟨rfl, rfl, rfl⟩, fun _ h => (by cases h), fun _ => Std.ExtTreeMap.getElem?_empty,
    fun _ _ => Std.ExtTreeMap.getElem?_empty, fun _ _ h => (by cases h)⟩

theorem refines_deleteWhere (h : Refines s l) {p : Int → BlockRow → Bool}
    {keep : Nat → StoredHeader → Bool} (hp : ∀ (k : Nat) x, p k (StoredHeader.row x) = !keep k x) :
    Refines { s with blocks := (s.blocks.deleteWhere p).2 } (l.keepWhere keep) := by
  have hfewer : ∀ (k : Int) row, (s.blocks.deleteWhere p).2.rows[k]? = some row →
      s.blocks.rows[k]? = some row := fun k row hrow =>
    ((KeyedMap.mem_filter_iff s.blocks.rows (fun k row => !p k row) k row).mp hrow).1
  refine ⟨fun htip => ⟨(h.fresh htip).indexedHeight, (h.fresh htip).indexedBlockHash,
    (h.fresh htip).finalizedHeight⟩, fun checkpoint htip => ?_, fun k => ?_, fun k hk => ?_,
    fun k x hx => ?_⟩
  · obtain ⟨hrecorded, hhash⟩ := h.recorded checkpoint htip
    exact ⟨recorded_of_fewer_rows hrecorded rfl hfewer, hhash⟩
  · change (s.blocks.rows.filter fun k row => !p k row)[(k : Int)]? = _
    rw [Std.ExtTreeMap.getElem?_filter', h.rows k, Ledger.keepWhere, Option.filter_map]
    congr 2
    funext x
    simp [hp k x]
  · cases hrow : (s.blocks.deleteWhere p).2.rows[k]? with
    | none => rfl
    | some row =>
      have := hfewer k row hrow
      rw [h.noNegative k hk] at this
      cases this
  · exact h.heights k x (Option.filter_eq_some_iff.mp hx).1

theorem refines_commit (h : Refines s l) {header : Header} {finality : FinalityState}
    {finalizedHeight : Nat} {t : Schema} (hhash : header.hash ≠ "")
    (hok : CheckpointStore.commitTx s header finality finalizedHeight = .ok ((), t)) :
    Refines t (l.commit header finality finalizedHeight) := by
  have hrecorded := recorded_commitTx hok
  obtain ⟨height, hheight, hok⟩ := bind_eq_ok.mp hok
  obtain ⟨finalized, _, hok⟩ := bind_eq_ok.mp hok
  cases pure_eq_ok.mp hok
  have hrow : ∀ k : Int, (s.blocks.upsert height ⟨header.hash, header.parentHash,
      finalityToStr finality⟩).rows[k]? = if (header.height : Int) = k then
      some ⟨header.hash, header.parentHash, finalityToStr finality⟩ else s.blocks.rows[k]? := by
    intro k
    rw [BlocksTable.upsert, ← sqlHeight_ok hheight]
    exact KeyedMap.getElem?_insert _ _ _ _
  refine ⟨fun htip => (by cases htip), fun checkpoint htip => ?_, fun k => ?_, fun k hk => ?_,
    fun k x hx => ?_⟩
  · cases htip
    exact ⟨hrecorded, hhash⟩
  · rw [hrow]
    by_cases hk : k = header.height
    · subst hk
      simp only [Ledger.commit, Function.update_self]
      rfl
    · simp only [Ledger.commit, Function.update_of_ne hk]
      rw [if_neg (by omega), h.rows k]
  · rw [hrow, if_neg (by omega), h.noNegative k hk]
  · by_cases hkh : k = header.height
    · subst hkh
      simp only [Ledger.commit, Function.update_self, Option.some.injEq] at hx
      subst hx
      rfl
    · simp only [Ledger.commit, Function.update_of_ne hkh] at hx
      exact h.heights k x hx

theorem commitTx_cases (s : Schema) (header : Header) (finality : FinalityState)
    (finalizedHeight : Nat) :
    (Fits header.height ∧ Fits finalizedHeight ∧
      ∃ t, CheckpointStore.commitTx s header finality finalizedHeight = .ok ((), t)) ∨
    (¬(Fits header.height ∧ Fits finalizedHeight) ∧
      ∃ e, CheckpointStore.commitTx s header finality finalizedHeight = .error e) := by
  rw [CheckpointStore.commitTx]
  by_cases hheight : Fits header.height
  · obtain ⟨x, hx, _⟩ := sqlHeight_of_le hheight
    by_cases hfinalized : Fits finalizedHeight
    · obtain ⟨y, hy, _⟩ := sqlHeight_of_le hfinalized
      rw [hx, hy]
      exact .inl ⟨hheight, hfinalized, _, rfl⟩
    · obtain ⟨e, he⟩ := sqlHeight_error hfinalized
      rw [hx, he]
      exact .inr ⟨fun h => hfinalized h.2, e, rfl⟩
  · obtain ⟨e, he⟩ := sqlHeight_error hheight
    rw [he]
    exact .inr ⟨fun h => hheight h.1, e, rfl⟩

theorem refines_call (h : Refines s l) {call : TxCall} (hhash : call.Hashed) :
    Refines (call.apply s) (l.call call) := by
  cases call with
  | commitTx header finality finalizedHeight =>
    rw [TxCall.apply, Ledger.call]
    rcases commitTx_cases s header finality finalizedHeight with
      ⟨hheight, hfinalized, t, hok⟩ | ⟨hfits, e, herror⟩
    · rw [hok, if_pos ⟨hheight, hfinalized⟩]
      exact refines_commit h hhash hok
    · rw [herror, if_neg hfits]
      exact h
  | truncateAboveTx height =>
    rw [TxCall.apply, Ledger.call, CheckpointStore.truncateAboveTx]
    by_cases hfits : Fits height
    · obtain ⟨key, hkey, hval⟩ := sqlHeight_of_le hfits
      rw [hkey, if_pos hfits]
      refine refines_deleteWhere h fun k x => ?_
      rw [hval, Bool.eq_iff_iff]
      simp
    · obtain ⟨e, he⟩ := sqlHeight_error hfits
      rw [he, if_neg hfits]
      exact h

theorem refines_calls (h : Refines s l) {calls : List TxCall} (hhash : ∀ call ∈ calls, call.Hashed) :
    Refines (calls.foldl TxCall.apply s) (calls.foldl Ledger.call l) := by
  induction calls generalizing s l with
  | nil => exact h
  | cons call calls ih =>
    exact ih (refines_call h (hhash call List.mem_cons_self))
      fun c hc => hhash c (List.mem_cons_of_mem _ hc)

theorem refines_metadata (h : Refines s l) {metadata : Metadata}
    (hkeys : ∀ key ∈ [Keys.indexedHeight, Keys.indexedBlockHash, Keys.finalizedHeight],
      metadata key = s.metadata key) : Refines { s with metadata := metadata } l := by
  have hheight := hkeys Keys.indexedHeight (by simp)
  have hhash := hkeys Keys.indexedBlockHash (by simp)
  have hfinalized := hkeys Keys.finalizedHeight (by simp)
  refine ⟨fun htip => ?_, fun checkpoint htip => ?_, h.rows, h.noNegative, h.heights⟩
  · have hfresh := h.fresh htip
    exact ⟨hheight.trans hfresh.indexedHeight, hhash.trans hfresh.indexedBlockHash,
      hfinalized.trans hfresh.finalizedHeight⟩
  · obtain ⟨hrecorded, hne⟩ := h.recorded checkpoint htip
    exact ⟨⟨hheight.trans hrecorded.indexedHeight, hhash.trans hrecorded.indexedBlockHash,
      hfinalized.trans hrecorded.finalizedHeight, hrecorded.indexedBigint,
      hrecorded.finalizedBigint, hrecorded.sameHash⟩, hne⟩

theorem checks_other (call : VerifyCall) {key : String}
    (h : key ∈ [Keys.indexedHeight, Keys.indexedBlockHash, Keys.finalizedHeight]) :
    key ∉ call.checks.map (·.1) := by
  have hkeys : ∀ key ∈ [Keys.indexedHeight, Keys.indexedBlockHash, Keys.finalizedHeight],
      key ∉ [Keys.projectId, Keys.chainId, Keys.schemaVersion, Keys.manifestHash,
        Keys.mappingAbiVersion] := by decide
  cases call with
  | verifyOrInitialize projectId chainId =>
    intro hmem
    exact hkeys key h (List.mem_append_left [Keys.manifestHash, Keys.mappingAbiVersion] hmem)
  | verifyProject projectId chainId fingerprint abiVersion => exact hkeys key h

theorem refines_event {schema : String} (h : Refines s l) {event : StoreEvent}
    (hhash : event.Hashed) : Refines (event.apply schema s) (l.event event) := by
  cases event with
  | committed calls => exact refines_calls h hhash
  | rolledBack calls e => exact h
  | pruneBelow height =>
    rw [StoreEvent.apply, Ledger.event]
    by_cases hfits : Fits height
    · obtain ⟨key, hkey, hval⟩ := sqlHeight_of_le hfits
      rw [if_pos hfits, transaction, CheckpointStore.pruneBelow, hkey]
      refine refines_deleteWhere h fun k x => ?_
      rw [hval, Bool.eq_iff_iff]
      simp [StoredHeader.row, finalityToStr_eq_final]
    · obtain ⟨e, he⟩ := sqlHeight_error hfits
      rw [if_neg hfits, transaction, CheckpointStore.pruneBelow, he]
      exact h
  | verify call =>
    change Refines (transaction s _).2 l
    cases hfacts : verifyFacts schema s.metadata call with
    | error e =>
      rw [transaction, hfacts]
      exact h
    | ok r =>
      rw [transaction, hfacts]
      refine refines_metadata h fun key hkey => ?_
      rw [(verifyFacts_ok hfacts).2]
      exact stamped_other (checks_other call hkey)

theorem refines_events {schema : String} (h : Refines s l) {events : List StoreEvent}
    (hhash : ∀ event ∈ events, event.Hashed) :
    Refines (events.foldl (StoreEvent.apply schema) s) (events.foldl Ledger.event l) := by
  induction events generalizing s l with
  | nil => exact h
  | cons event events ih =>
    exact ih (refines_event h (hhash event List.mem_cons_self))
      fun e he => hhash e (List.mem_cons_of_mem _ he)

end Steps

def TxCall.checkpoint : TxCall → Option Checkpoint
  | .commitTx header _ finalizedHeight =>
    if Fits header.height ∧ Fits finalizedHeight then some ⟨header.ptr, finalizedHeight⟩ else none
  | .truncateAboveTx _ => none

def StoreEvent.commits : StoreEvent → List Checkpoint
  | .committed calls => calls.filterMap TxCall.checkpoint
  | _ => []

section Runs
variable {l : Ledger}

theorem tip_call (call : TxCall) : (l.call call).tip = call.checkpoint.or l.tip := by
  cases call with
  | commitTx header finality finalizedHeight =>
    rw [Ledger.call, TxCall.checkpoint]
    split_ifs <;> rfl
  | truncateAboveTx height =>
    rw [Ledger.call, TxCall.checkpoint]
    split_ifs <;> rfl

theorem getLast?_append_or {A : Type} (xs ys : List A) (x : Option A) :
    (xs ++ ys).getLast?.or x = ys.getLast?.or (xs.getLast?.or x) := by
  rw [List.getLast?_append, Option.or_assoc]

theorem tip_calls (calls : List TxCall) :
    (calls.foldl Ledger.call l).tip = (calls.filterMap TxCall.checkpoint).getLast?.or l.tip := by
  induction calls generalizing l with
  | nil => rfl
  | cons call calls ih =>
    rw [List.foldl_cons, ih, tip_call]
    cases hc : call.checkpoint with
    | none => rw [List.filterMap_cons_none hc, Option.none_or]
    | some checkpoint =>
      rw [List.filterMap_cons_some hc, ← List.singleton_append, getLast?_append_or]
      rfl

theorem tip_event (event : StoreEvent) :
    (l.event event).tip = event.commits.getLast?.or l.tip := by
  cases event with
  | committed calls => exact tip_calls calls
  | rolledBack calls e => rfl
  | pruneBelow height =>
    rw [Ledger.event]
    split_ifs <;> rfl
  | verify call => rfl

theorem tip_events (events : List StoreEvent) :
    (events.foldl Ledger.event l).tip = (events.flatMap StoreEvent.commits).getLast?.or l.tip := by
  induction events generalizing l with
  | nil => rfl
  | cons event events ih =>
    rw [List.foldl_cons, ih, tip_event, List.flatMap_cons, getLast?_append_or]

theorem rejected_commit_writes_nothing (work : Schema) {header : Header} {finalizedHeight : Nat}
    (h : ¬(Fits header.height ∧ Fits finalizedHeight)) (finality : FinalityState) :
    (∃ e, CheckpointStore.commitTx work header finality finalizedHeight = .error e) ∧
      (TxCall.commitTx header finality finalizedHeight).apply work = work := by
  rcases commitTx_cases work header finality finalizedHeight with
    ⟨hheight, hfinalized, _⟩ | ⟨_, e, he⟩
  · exact absurd ⟨hheight, hfinalized⟩ h
  · exact ⟨⟨e, he⟩, by rw [TxCall.apply, he]⟩

theorem checkpoint_reads_agree (schema : String) (events : List StoreEvent)
    (hhash : ∀ event ∈ events, event.Hashed) :
    CheckpointStore.load (events.foldl (StoreEvent.apply schema) Schema.empty) =
      .ok (events.flatMap StoreEvent.commits).getLast? ∧
    (∀ height, Fits height →
      CheckpointStore.headerAt (events.foldl (StoreEvent.apply schema) Schema.empty) height =
        .ok ((events.foldl Ledger.event Ledger.empty).headers height)) ∧
    (∀ high low, Fits high → Fits low → ∃ stored,
      CheckpointStore.headersDescending (events.foldl (StoreEvent.apply schema) Schema.empty)
        high low = .ok stored ∧
      stored.Pairwise (fun a b => b.height < a.height) ∧
      ∀ x, x ∈ stored ↔ (low ≤ x.height ∧ x.height ≤ high) ∧
        (events.foldl Ledger.event Ledger.empty).headers x.height = some x) ∧
    ∀ (work : Schema) header finality finalizedHeight,
      ¬(Fits header.height ∧ Fits finalizedHeight) →
      (∃ e, CheckpointStore.commitTx work header finality finalizedHeight = .error e) ∧
        (TxCall.commitTx header finality finalizedHeight).apply work = work := by
  have hrefines : Refines (events.foldl (StoreEvent.apply schema) Schema.empty)
      (events.foldl Ledger.event Ledger.empty) := refines_events refines_empty hhash
  refine ⟨?_, fun height hfits => headerAt_eq hrefines hfits,
    fun high low hhigh hlow => headersDescending_eq hrefines hhigh hlow,
    fun work header finality finalizedHeight h => rejected_commit_writes_nothing work h finality⟩
  rw [load_eq_tip hrefines, tip_events]
  exact congrArg Except.ok (Option.or_none ..)

def rewindRun : List StoreEvent :=
  [.committed [.commitTx ⟨7, "0xa7", some "0xa6", none⟩ .unfinalized 5],
    .committed [.commitTx ⟨8, "0xa8", some "0xa7", none⟩ .unfinalized 5],
    .verify (.verifyOrInitialize "project-a" "1"),
    .committed [.truncateAboveTx 6, .commitTx ⟨7, "0xb7", some "0xa6", none⟩ .final 7],
    .rolledBack [.commitTx ⟨9, "0xb9", none, none⟩ .final 9] (.postgres "connection closed")]

theorem rewind_run_reads_agree :
    CheckpointStore.load (rewindRun.foldl (StoreEvent.apply "app") Schema.empty) =
      .ok (some ⟨⟨7, "0xb7"⟩, 7⟩) ∧
    CheckpointStore.headerAt (rewindRun.foldl (StoreEvent.apply "app") Schema.empty) 8 =
      .ok none := by
  have hhash : ∀ event ∈ rewindRun, event.Hashed := by
    simp [rewindRun, StoreEvent.Hashed, TxCall.Hashed]
  have h := checkpoint_reads_agree "app" rewindRun hhash
  exact ⟨h.1, h.2.1 8 (by decide)⟩

end Runs
end SuperqueryNode.Store

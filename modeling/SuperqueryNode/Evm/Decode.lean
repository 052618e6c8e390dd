import Mathlib.Data.List.Sort
import SuperqueryNode.Lib.Fallible
import SuperqueryNode.Evm.Block
import SuperqueryNode.Evm.Rpc

namespace SuperqueryNode.Evm.Decode
open Unsigned Fallible ChainApi

def mismatch : ChainError := .decode "inconsistent block, transaction or log identity"

def hash (p : Primitives) (value : Json) : Except ChainError String :=
  okOr ((value.asStr.bind p.parseB256).map p.formatB256)
    (.decode "invalid block or transaction hash")

def address (p : Primitives) (value : Json) : Except ChainError String :=
  okOr ((value.asStr.bind p.parseAddress).map p.formatAddress) (.decode "invalid EVM address")

def bytes (p : Primitives) (value : Json) : Except ChainError String :=
  okOr ((value.asStr.bind p.parseBytes).map p.formatBytes) (.decode "invalid RPC byte string")

def header (p : Primitives) (value : Json) (expected : Nat) : Except ChainError Header := do
  ensure (!value.isNull) (.blockUnavailable expected)
  let height ← quantity (value.get "number")
  ensure (height == expected) (.decode "RPC returned the wrong height")
  let seconds ← quantity (value.get "timestamp")
  let timestamp ← okOr ((trySigned 64 seconds).bind p.fromTimestamp)
    (.decode "invalid block timestamp")
  let hash' ← hash p (value.get "hash")
  let parentHash ← hash p (value.get "parentHash")
  return ⟨height, hash', some parentHash, some timestamp⟩

-- The checks of one condition joined by `||` run in order, each with the same error.
def transactionHash (p : Primitives) (header : Header) (expected index : Nat)
    (hashes : List String) (tx : Json) : Except ChainError String := do
  let txHash ← hash p (tx.get "hash")
  let txIndex ← quantity (tx.get "transactionIndex")
  ensure (txIndex == index) mismatch
  let blockNumber ← quantity (tx.get "blockNumber")
  ensure (blockNumber == expected) mismatch
  let blockHash ← hash p (tx.get "blockHash")
  ensure (blockHash == header.hash) mismatch
  ensure (!hashes.contains txHash) mismatch
  return txHash

def toAddress (p : Primitives) (value : Json) : Except ChainError (Option String) :=
  if value.isNull then .ok none else (address p value).map some

def transaction (p : Primitives) (header : Header) (expected index : Nat) (hashes : List String)
    (tx : Json) : Except ChainError EvmTransaction := do
  let txHash ← transactionHash p header expected index hashes tx
  let rawValue ← okOr (tx.get "value").asStr mismatch
  let value ← okOr (p.parseU256 rawValue) mismatch
  let fromAddress ← address p (tx.get "from")
  let toAddress ← toAddress p (tx.get "to")
  let input ← bytes p (tx.get "input")
  return ⟨txHash, index, fromAddress, toAddress, p.formatU256 value, input⟩

def transactions (p : Primitives) (header : Header) (expected : Nat) :
    Nat → List String → List Json → Except ChainError (List EvmTransaction)
  | _, _, [] => .ok []
  | index, hashes, tx :: rest => do
    let decoded ← transaction p header expected index hashes tx
    let others ← transactions p header expected (index + 1) (decoded.hash :: hashes) rest
    return decoded :: others

def logTransaction (p : Primitives) (header : Header) (expected : Nat)
    (transactions : List EvmTransaction) (log : Json) :
    Except ChainError (Nat × EvmTransaction) := do
  let txIndex ← quantity (log.get "transactionIndex")
  let tx ← okOr transactions[txIndex]? mismatch
  ensure ((log.get "removed").asBool == some false) mismatch
  let blockHash ← hash p (log.get "blockHash")
  ensure (blockHash == header.hash) mismatch
  let blockNumber ← quantity (log.get "blockNumber")
  ensure (blockNumber == expected) mismatch
  let txHash ← hash p (log.get "transactionHash")
  ensure (txHash == tx.hash) mismatch
  return (txIndex, tx)

def log (p : Primitives) (header : Header) (expected : Nat) (transactions : List EvmTransaction)
    (log : Json) : Except ChainError EvmLog := do
  let (txIndex, tx) ← logTransaction p header expected transactions log
  let topicItems ← okOr (log.get "topics").asArray mismatch
  let topics ← topicItems.mapM (hash p)
  ensure (topics.length ≤ 4) mismatch
  let address' ← address p (log.get "address")
  let data ← bytes p (log.get "data")
  let logIndex ← quantity (log.get "logIndex")
  return ⟨address', topics, data, logIndex, tx.hash, txIndex⟩

def sortByLogIndex (logs : List EvmLog) : List EvmLog :=
  logs.insertionSort fun a b => a.logIndex ≤ b.logIndex

def indexed (logs : List EvmLog) : Bool := logs.zipIdx.all fun q => q.1.logIndex == q.2

def block (p : Primitives) (value logs : Json) (expected : Nat) : Except ChainError EvmBlock := do
  let header ← header p value expected
  let txItems ← okOr (value.get "transactions").asArray mismatch
  let transactions ← transactions p header expected 0 [] txItems
  let logItems ← okOr logs.asArray mismatch
  let decoded ← logItems.mapM (log p header expected transactions)
  let sorted := sortByLogIndex decoded
  ensure (indexed sorted) mismatch
  let parentHash ← okOr header.parentHash mismatch
  let timestamp ← quantity (value.get "timestamp")
  return ⟨expected, header.hash, parentHash, timestamp, transactions, sorted⟩

section Header
variable {p : Primitives} {value : Json} {expected : Nat} {h : Header}

structure HeaderOf (p : Primitives) (value : Json) (expected : Nat) (h : Header) : Prop where
  height : h.height = expected
  time : ∃ seconds, quantity (value.get "timestamp") = .ok seconds ∧
    h.timestamp = p.fromTimestamp (asSigned 64 seconds)

theorem header_ok (hok : header p value expected = .ok h) : HeaderOf p value expected h := by
  obtain ⟨_, _, hok⟩ := bind_eq_ok.mp hok
  obtain ⟨height, _, hok⟩ := bind_eq_ok.mp hok
  obtain ⟨_, hheight, hok⟩ := bind_eq_ok.mp hok
  obtain ⟨seconds, hseconds, hok⟩ := bind_eq_ok.mp hok
  obtain ⟨timestamp, htimestamp, hok⟩ := bind_eq_ok.mp hok
  obtain ⟨hash', _, hok⟩ := bind_eq_ok.mp hok
  obtain ⟨parentHash, _, hok⟩ := bind_eq_ok.mp hok
  cases pure_eq_ok.mp hok
  rw [ensure_eq_ok, beq_iff_eq] at hheight
  rw [okOr_eq_ok, Option.bind_eq_some_iff] at htimestamp
  obtain ⟨signed, hsigned, hfrom⟩ := htimestamp
  refine ⟨hheight, seconds, hseconds, ?_⟩
  rw [asSigned_of_trySigned hsigned, hfrom]

end Header

section Transactions
variable {p : Primitives} {header : Header} {expected index : Nat} {hashes : List String}

theorem transactionHash_fresh {tx : Json} {txHash : String}
    (h : transactionHash p header expected index hashes tx = .ok txHash) : txHash ∉ hashes := by
  obtain ⟨_, _, h⟩ := bind_eq_ok.mp h
  obtain ⟨_, _, h⟩ := bind_eq_ok.mp h
  obtain ⟨_, _, h⟩ := bind_eq_ok.mp h
  obtain ⟨_, _, h⟩ := bind_eq_ok.mp h
  obtain ⟨_, _, h⟩ := bind_eq_ok.mp h
  obtain ⟨_, _, h⟩ := bind_eq_ok.mp h
  obtain ⟨_, _, h⟩ := bind_eq_ok.mp h
  obtain ⟨_, hfresh, h⟩ := bind_eq_ok.mp h
  cases pure_eq_ok.mp h
  simpa using hfresh

theorem transaction_ok {tx : Json} {t : EvmTransaction}
    (h : transaction p header expected index hashes tx = .ok t) :
    t.transactionIndex = index ∧ t.hash ∉ hashes := by
  obtain ⟨txHash, hhash, h⟩ := bind_eq_ok.mp h
  obtain ⟨rawValue, _, h⟩ := bind_eq_ok.mp h
  obtain ⟨value, _, h⟩ := bind_eq_ok.mp h
  obtain ⟨fromAddress, _, h⟩ := bind_eq_ok.mp h
  obtain ⟨toAddress, _, h⟩ := bind_eq_ok.mp h
  obtain ⟨input, _, h⟩ := bind_eq_ok.mp h
  cases pure_eq_ok.mp h
  exact ⟨rfl, transactionHash_fresh hhash⟩

structure Numbered (index : Nat) (hashes : List String) (txs : List EvmTransaction) : Prop where
  indices : ∀ (i : Nat) (t : EvmTransaction), txs[i]? = some t → t.transactionIndex = index + i
  distinct : (txs.map (·.hash)).Nodup
  fresh : ∀ t ∈ txs, t.hash ∉ hashes

theorem Numbered.cons {t : EvmTransaction} {txs : List EvmTransaction}
    (hindex : t.transactionIndex = index) (hfresh : t.hash ∉ hashes)
    (h : Numbered (index + 1) (t.hash :: hashes) txs) : Numbered index hashes (t :: txs) := by
  refine ⟨fun i u hu => ?_, ?_, fun u hu => ?_⟩
  · cases i with
    | zero =>
      cases hu
      exact hindex
    | succ i =>
      have := h.indices i u hu
      omega
  · rw [List.map_cons, List.nodup_cons]
    refine ⟨fun hmem => ?_, h.distinct⟩
    obtain ⟨u, hu, heq⟩ := List.mem_map.mp hmem
    exact h.fresh u hu (heq ▸ List.mem_cons_self)
  · rcases List.mem_cons.mp hu with rfl | hu
    · exact hfresh
    · exact fun hmem => h.fresh u hu (List.mem_cons_of_mem _ hmem)

theorem transactions_ok {items : List Json} {txs : List EvmTransaction}
    (h : transactions p header expected index hashes items = .ok txs) :
    Numbered index hashes txs := by
  induction items generalizing index hashes txs with
  | nil =>
    cases h
    exact ⟨fun i t ht => (by cases ht), List.nodup_nil, fun t ht => (by cases ht)⟩
  | cons item items ih =>
    obtain ⟨decoded, hdecoded, h⟩ := bind_eq_ok.mp h
    obtain ⟨others, hothers, h⟩ := bind_eq_ok.mp h
    cases pure_eq_ok.mp h
    obtain ⟨hindex, hfresh⟩ := transaction_ok hdecoded
    exact .cons hindex hfresh (ih hothers)

end Transactions

section Logs
variable {p : Primitives} {header : Header} {expected : Nat} {txs : List EvmTransaction}

theorem logTransaction_ok {value : Json} {index : Nat} {tx : EvmTransaction}
    (h : logTransaction p header expected txs value = .ok (index, tx)) : txs[index]? = some tx := by
  obtain ⟨txIndex, _, h⟩ := bind_eq_ok.mp h
  obtain ⟨found, hfound, h⟩ := bind_eq_ok.mp h
  obtain ⟨_, _, h⟩ := bind_eq_ok.mp h
  obtain ⟨_, _, h⟩ := bind_eq_ok.mp h
  obtain ⟨_, _, h⟩ := bind_eq_ok.mp h
  obtain ⟨_, _, h⟩ := bind_eq_ok.mp h
  obtain ⟨_, _, h⟩ := bind_eq_ok.mp h
  obtain ⟨_, _, h⟩ := bind_eq_ok.mp h
  obtain ⟨_, _, h⟩ := bind_eq_ok.mp h
  cases pure_eq_ok.mp h
  exact okOr_eq_ok.mp hfound

structure LogOf (txs : List EvmTransaction) (l : EvmLog) : Prop where
  paired : ∃ tx, txs[l.transactionIndex]? = some tx ∧ tx.hash = l.transactionHash
  topics : l.topics.length ≤ 4

theorem log_ok {value : Json} {l : EvmLog} (h : log p header expected txs value = .ok l) :
    LogOf txs l := by
  obtain ⟨⟨index, tx⟩, htx, h⟩ := bind_eq_ok.mp h
  obtain ⟨topicItems, _, h⟩ := bind_eq_ok.mp h
  obtain ⟨topics, _, h⟩ := bind_eq_ok.mp h
  obtain ⟨_, hlength, h⟩ := bind_eq_ok.mp h
  obtain ⟨address', _, h⟩ := bind_eq_ok.mp h
  obtain ⟨data, _, h⟩ := bind_eq_ok.mp h
  obtain ⟨logIndex, _, h⟩ := bind_eq_ok.mp h
  cases pure_eq_ok.mp h
  exact ⟨⟨tx, logTransaction_ok htx, rfl⟩, by simpa using hlength⟩

theorem sortByLogIndex_perm (logs : List EvmLog) : (sortByLogIndex logs).Perm logs :=
  List.perm_insertionSort _ logs

theorem indexed_iff {logs : List EvmLog} :
    indexed logs = true ↔ ∀ (j : Nat) (l : EvmLog), logs[j]? = some l → l.logIndex = j := by
  rw [indexed, List.all_eq_true]
  constructor
  · intro h j l hl
    exact beq_iff_eq.mp (h (l, j) (List.mem_zipIdx_iff_getElem?.mpr hl))
  · intro h q hq
    exact beq_iff_eq.mpr (h q.2 q.1 (List.mem_zipIdx_iff_getElem?.mp hq))

end Logs

structure Accepted (p : Primitives) (value logs : Json) (expected : Nat) (b : EvmBlock) :
    Prop where
  number : b.number = expected
  numbered : ∀ (i : Nat) (tx : EvmTransaction), b.transactions[i]? = some tx →
    tx.transactionIndex = i
  distinctHashes : (b.transactions.map (·.hash)).Nodup
  oneForEachLog : ∃ items decoded, logs = .array items ∧
    List.Forall₂ (fun item l => log p (b.header p) expected b.transactions item = .ok l)
      items decoded ∧
    b.logs.Perm decoded
  logPositions : ∀ (j : Nat) (l : EvmLog), b.logs[j]? = some l → l.logIndex = j
  paired : ∀ l ∈ b.logs, ∃ tx, b.transactions[l.transactionIndex]? = some tx ∧
    tx.hash = l.transactionHash
  topics : ∀ l ∈ b.logs, l.topics.length ≤ 4
  sameHeader : header p value expected = .ok (b.header p)

theorem block_ok {p : Primitives} {value logs : Json} {expected : Nat} {b : EvmBlock}
    (h : block p value logs expected = .ok b) : Accepted p value logs expected b := by
  obtain ⟨hd, hheader, h⟩ := bind_eq_ok.mp h
  obtain ⟨txItems, _, h⟩ := bind_eq_ok.mp h
  obtain ⟨txs, htxs, h⟩ := bind_eq_ok.mp h
  obtain ⟨logItems, hitems, h⟩ := bind_eq_ok.mp h
  obtain ⟨decoded, hdecoded, h⟩ := bind_eq_ok.mp h
  obtain ⟨_, hindexed, h⟩ := bind_eq_ok.mp h
  obtain ⟨parentHash, hparent, h⟩ := bind_eq_ok.mp h
  obtain ⟨timestamp, htimestamp, h⟩ := bind_eq_ok.mp h
  have hb := pure_eq_ok.mp h
  rw [okOr_eq_ok] at hitems hparent
  rw [ensure_eq_ok, indexed_iff] at hindexed
  have hsame : hd = b.header p := by
    have hof := header_ok hheader
    obtain ⟨seconds, hseconds, htime⟩ := hof.time
    rw [htimestamp] at hseconds
    cases hseconds
    obtain ⟨height, hash', parent, time⟩ := hd
    cases hparent
    cases hof.height
    rw [← hb]
    simp only [EvmBlock.header, ← htime]
  have hnumbered := transactions_ok htxs
  have hperm := sortByLogIndex_perm decoded
  have hlogs : ∀ l ∈ sortByLogIndex decoded, LogOf txs l := by
    intro l hl
    obtain ⟨item, _, hitem⟩ := exists_of_mem_mapM hdecoded (hperm.mem_iff.mp hl)
    exact log_ok hitem
  rw [hsame] at hheader hdecoded
  subst hb
  refine ⟨rfl, fun i tx htx => ?_, hnumbered.distinct, ?_, hindexed,
    fun l hl => (hlogs l hl).paired, fun l hl => (hlogs l hl).topics, hheader⟩
  · have := hnumbered.indices i tx htx
    omega
  · exact ⟨logItems, decoded, Json.asArray_eq_some.mp hitems, mapM_eq_ok.mp hdecoded, hperm⟩

end SuperqueryNode.Evm.Decode

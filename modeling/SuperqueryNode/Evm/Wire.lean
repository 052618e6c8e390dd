import SuperqueryNode.Evm.LogOrder
import SuperqueryNode.Evm.NormalForm
import SuperqueryNode.Evm.Quantity

namespace SuperqueryNode.Evm.Decode
open Unsigned Radix Fallible ChainApi EvmAdapter

section Items
variable {p : Primitives} {header : Header} {expected index : Nat} {hashes : List String}
  {item value logs : Json}

structure HeaderItem (p : Primitives) (value : Json) (b : EvmBlock) : Prop where
  present : value.isNull = false
  number : quantity (value.get "number") = .ok b.number
  timestamp : quantity (value.get "timestamp") = .ok b.timestamp
  inRange : ((trySigned 64 b.timestamp).bind p.fromTimestamp).isSome
  hash : Decode.hash p (value.get "hash") = .ok b.hash
  parentHash : Decode.hash p (value.get "parentHash") = .ok b.parentHash

structure TransactionItem (p : Primitives) (header : Header) (expected : Nat) (item : Json)
    (t : EvmTransaction) : Prop where
  hash : Decode.hash p (item.get "hash") = .ok t.hash
  index : quantity (item.get "transactionIndex") = .ok t.transactionIndex
  blockNumber : quantity (item.get "blockNumber") = .ok expected
  blockHash : Decode.hash p (item.get "blockHash") = .ok header.hash
  value : ((item.get "value").asStr.bind p.parseU256).map p.formatU256 = some t.value
  fromAddress : address p (item.get "from") = .ok t.fromAddress
  toAddress : Decode.toAddress p (item.get "to") = .ok t.toAddress
  input : bytes p (item.get "input") = .ok t.input

structure LogItem (p : Primitives) (header : Header) (expected : Nat) (txs : List EvmTransaction)
    (item : Json) (l : EvmLog) : Prop where
  transaction : ∃ tx, txs[l.transactionIndex]? = some tx ∧ tx.hash = l.transactionHash
  transactionIndex : quantity (item.get "transactionIndex") = .ok l.transactionIndex
  transactionHash : Decode.hash p (item.get "transactionHash") = .ok l.transactionHash
  removed : (item.get "removed").asBool = some false
  blockHash : Decode.hash p (item.get "blockHash") = .ok header.hash
  blockNumber : quantity (item.get "blockNumber") = .ok expected
  topics : ∃ items, item.get "topics" = .array items ∧
    List.Forall₂ (fun topic h => Decode.hash p topic = .ok h) items l.topics
  few : l.topics.length ≤ 4
  address : Decode.address p (item.get "address") = .ok l.address
  data : bytes p (item.get "data") = .ok l.data
  logIndex : quantity (item.get "logIndex") = .ok l.logIndex

theorem header_eq_ok {b : EvmBlock} :
    Decode.header p value b.number = .ok (b.header p) ∧
        quantity (value.get "timestamp") = .ok b.timestamp ↔ HeaderItem p value b := by
  constructor
  · rintro ⟨h, htime⟩
    obtain ⟨_, hpresent, h⟩ := bind_eq_ok.mp h
    obtain ⟨height, hheight, h⟩ := bind_eq_ok.mp h
    obtain ⟨_, hsame, h⟩ := bind_eq_ok.mp h
    obtain ⟨seconds, hseconds, h⟩ := bind_eq_ok.mp h
    obtain ⟨timestamp, htimestamp, h⟩ := bind_eq_ok.mp h
    obtain ⟨hash', hhash, h⟩ := bind_eq_ok.mp h
    obtain ⟨parentHash, hparent, h⟩ := bind_eq_ok.mp h
    have hb := pure_eq_ok.mp h
    simp only [EvmBlock.header, Header.mk.injEq, Option.some.injEq] at hb
    obtain ⟨rfl, rfl, rfl, -⟩ := hb
    rw [htime] at hseconds
    cases hseconds
    rw [ensure_eq_ok, Bool.not_eq_true'] at hpresent
    rw [okOr_eq_ok] at htimestamp
    exact ⟨hpresent, hheight, htime, by rw [htimestamp]; rfl, hhash, hparent⟩
  · intro h
    refine ⟨?_, h.timestamp⟩
    obtain ⟨time, htime⟩ := Option.isSome_iff_exists.mp h.inRange
    obtain ⟨i, hi, hfrom⟩ := Option.bind_eq_some_iff.mp htime
    refine bind_eq_ok.mpr ⟨⟨⟩, ensure_eq_ok.mpr ?_, bind_eq_ok.mpr ⟨_, h.number, bind_eq_ok.mpr
      ⟨⟨⟩, ensure_eq_ok.mpr (beq_self_eq_true _), bind_eq_ok.mpr ⟨_, h.timestamp, bind_eq_ok.mpr
        ⟨time, okOr_eq_ok.mpr htime, bind_eq_ok.mpr ⟨_, h.hash, bind_eq_ok.mpr
          ⟨_, h.parentHash, pure_eq_ok.mpr ?_⟩⟩⟩⟩⟩⟩⟩
    · rw [h.present]
      rfl
    · rw [EvmBlock.header, asSigned_of_trySigned hi, hfrom]

theorem transactionHash_eq_ok {txHash : String} :
    transactionHash p header expected index hashes item = .ok txHash ↔
      Decode.hash p (item.get "hash") = .ok txHash ∧
      quantity (item.get "transactionIndex") = .ok index ∧
      quantity (item.get "blockNumber") = .ok expected ∧
      Decode.hash p (item.get "blockHash") = .ok header.hash ∧ txHash ∉ hashes := by
  constructor
  · intro h
    obtain ⟨_, hhash, h⟩ := bind_eq_ok.mp h
    obtain ⟨_, hindex, h⟩ := bind_eq_ok.mp h
    obtain ⟨_, hsame, h⟩ := bind_eq_ok.mp h
    obtain ⟨_, hnumber, h⟩ := bind_eq_ok.mp h
    obtain ⟨_, hexpected, h⟩ := bind_eq_ok.mp h
    obtain ⟨_, hblock, h⟩ := bind_eq_ok.mp h
    obtain ⟨_, hheader, h⟩ := bind_eq_ok.mp h
    obtain ⟨_, hfresh, h⟩ := bind_eq_ok.mp h
    cases pure_eq_ok.mp h
    rw [ensure_eq_ok, beq_iff_eq] at hsame hexpected hheader
    subst hsame hexpected
    exact ⟨hhash, hindex, hnumber, hheader ▸ hblock, by simpa using hfresh⟩
  · rintro ⟨hhash, hindex, hnumber, hblock, hfresh⟩
    exact bind_eq_ok.mpr ⟨_, hhash, bind_eq_ok.mpr ⟨_, hindex, bind_eq_ok.mpr
      ⟨⟨⟩, ensure_eq_ok.mpr (beq_self_eq_true _), bind_eq_ok.mpr ⟨_, hnumber, bind_eq_ok.mpr
        ⟨⟨⟩, ensure_eq_ok.mpr (beq_self_eq_true _), bind_eq_ok.mpr ⟨_, hblock, bind_eq_ok.mpr
          ⟨⟨⟩, ensure_eq_ok.mpr (beq_self_eq_true _), bind_eq_ok.mpr
            ⟨⟨⟩, ensure_eq_ok.mpr (by simpa using hfresh), rfl⟩⟩⟩⟩⟩⟩⟩⟩

theorem transaction_eq_ok {t : EvmTransaction} :
    transaction p header expected index hashes item = .ok t ↔
      TransactionItem p header expected item t ∧ t.transactionIndex = index ∧ t.hash ∉ hashes := by
  constructor
  · intro h
    obtain ⟨txHash, hhash, h⟩ := bind_eq_ok.mp h
    obtain ⟨rawValue, hraw, h⟩ := bind_eq_ok.mp h
    obtain ⟨n, hn, h⟩ := bind_eq_ok.mp h
    obtain ⟨fromAddress, hfrom, h⟩ := bind_eq_ok.mp h
    obtain ⟨toAddress, hto, h⟩ := bind_eq_ok.mp h
    obtain ⟨input, hinput, h⟩ := bind_eq_ok.mp h
    cases pure_eq_ok.mp h
    obtain ⟨hhash, hindex, hnumber, hblock, hfresh⟩ := transactionHash_eq_ok.mp hhash
    rw [okOr_eq_ok] at hraw hn
    refine ⟨⟨hhash, hindex, hnumber, hblock, ?_, hfrom, hto, hinput⟩, rfl, hfresh⟩
    rw [hraw, Option.bind_some, hn, Option.map_some]
  · rintro ⟨h, rfl, hfresh⟩
    obtain ⟨n, hn, hvalue⟩ := Option.map_eq_some_iff.mp h.value
    obtain ⟨raw, hraw, hparsed⟩ := Option.bind_eq_some_iff.mp hn
    refine bind_eq_ok.mpr ⟨_, transactionHash_eq_ok.mpr
      ⟨h.hash, h.index, h.blockNumber, h.blockHash, hfresh⟩, bind_eq_ok.mpr
      ⟨raw, okOr_eq_ok.mpr hraw, bind_eq_ok.mpr ⟨n, okOr_eq_ok.mpr hparsed, bind_eq_ok.mpr
        ⟨_, h.fromAddress, bind_eq_ok.mpr ⟨_, h.toAddress, bind_eq_ok.mpr
          ⟨_, h.input, pure_eq_ok.mpr ?_⟩⟩⟩⟩⟩⟩
    rw [hvalue]

theorem transactions_items {items : List Json} {txs : List EvmTransaction}
    (h : transactions p header expected index hashes items = .ok txs) :
    List.Forall₂ (TransactionItem p header expected) items txs := by
  induction items generalizing index hashes txs with
  | nil =>
    cases h
    exact .nil
  | cons item items ih =>
    obtain ⟨decoded, hdecoded, h⟩ := bind_eq_ok.mp h
    obtain ⟨others, hothers, h⟩ := bind_eq_ok.mp h
    cases pure_eq_ok.mp h
    exact .cons (transaction_eq_ok.mp hdecoded).1 (ih hothers)

theorem Numbered.tail {t : EvmTransaction} {txs : List EvmTransaction}
    (h : Numbered index hashes (t :: txs)) : Numbered (index + 1) (t.hash :: hashes) txs := by
  have hdistinct := h.distinct
  rw [List.map_cons, List.nodup_cons] at hdistinct
  refine ⟨fun i u hu => ?_, hdistinct.2, fun u hu hmem => ?_⟩
  · rw [h.indices (i + 1) u hu]
    omega
  · rcases List.mem_cons.mp hmem with heq | hmem
    · exact hdistinct.1 (heq ▸ List.mem_map_of_mem hu)
    · exact h.fresh u (List.mem_cons_of_mem _ hu) hmem

theorem transactions_of_items {items : List Json} {txs : List EvmTransaction}
    (hnumbered : Numbered index hashes txs)
    (hitems : List.Forall₂ (TransactionItem p header expected) items txs) :
    transactions p header expected index hashes items = .ok txs := by
  induction hitems generalizing index hashes with
  | nil => rfl
  | @cons item t items txs hitem _ ih =>
    have hfirst := hnumbered.indices 0 t rfl
    exact bind_eq_ok.mpr ⟨t, transaction_eq_ok.mpr
      ⟨hitem, hfirst, hnumbered.fresh t List.mem_cons_self⟩, bind_eq_ok.mpr
        ⟨txs, ih hnumbered.tail, rfl⟩⟩

theorem logTransaction_eq_ok {txs : List EvmTransaction} {tx : EvmTransaction} :
    logTransaction p header expected txs item = .ok (index, tx) ↔ txs[index]? = some tx ∧
      quantity (item.get "transactionIndex") = .ok index ∧
      Decode.hash p (item.get "transactionHash") = .ok tx.hash ∧
      (item.get "removed").asBool = some false ∧
      Decode.hash p (item.get "blockHash") = .ok header.hash ∧
      quantity (item.get "blockNumber") = .ok expected := by
  constructor
  · intro h
    have hfound := logTransaction_ok h
    obtain ⟨_, hindex, h⟩ := bind_eq_ok.mp h
    obtain ⟨_, _, h⟩ := bind_eq_ok.mp h
    obtain ⟨_, hremoved, h⟩ := bind_eq_ok.mp h
    obtain ⟨_, hblock, h⟩ := bind_eq_ok.mp h
    obtain ⟨_, hheader, h⟩ := bind_eq_ok.mp h
    obtain ⟨_, hnumber, h⟩ := bind_eq_ok.mp h
    obtain ⟨_, hexpected, h⟩ := bind_eq_ok.mp h
    obtain ⟨_, hhash, h⟩ := bind_eq_ok.mp h
    obtain ⟨_, hsame, h⟩ := bind_eq_ok.mp h
    cases pure_eq_ok.mp h
    rw [ensure_eq_ok, beq_iff_eq] at hremoved hheader hexpected hsame
    subst hexpected
    exact ⟨hfound, hindex, hsame ▸ hhash, hremoved, hheader ▸ hblock, hnumber⟩
  · rintro ⟨hfound, hindex, hhash, hremoved, hblock, hnumber⟩
    exact bind_eq_ok.mpr ⟨_, hindex, bind_eq_ok.mpr ⟨tx, okOr_eq_ok.mpr hfound, bind_eq_ok.mpr
      ⟨⟨⟩, ensure_eq_ok.mpr (beq_iff_eq.mpr hremoved), bind_eq_ok.mpr ⟨_, hblock, bind_eq_ok.mpr
        ⟨⟨⟩, ensure_eq_ok.mpr (beq_self_eq_true _), bind_eq_ok.mpr ⟨_, hnumber, bind_eq_ok.mpr
          ⟨⟨⟩, ensure_eq_ok.mpr (beq_self_eq_true _), bind_eq_ok.mpr ⟨_, hhash, bind_eq_ok.mpr
            ⟨⟨⟩, ensure_eq_ok.mpr (beq_self_eq_true _), rfl⟩⟩⟩⟩⟩⟩⟩⟩⟩

theorem log_eq_ok {txs : List EvmTransaction} {l : EvmLog} :
    log p header expected txs item = .ok l ↔ LogItem p header expected txs item l := by
  constructor
  · intro h
    obtain ⟨⟨index, tx⟩, htx, h⟩ := bind_eq_ok.mp h
    obtain ⟨topicItems, hitems, h⟩ := bind_eq_ok.mp h
    obtain ⟨topics, htopics, h⟩ := bind_eq_ok.mp h
    obtain ⟨_, hlength, h⟩ := bind_eq_ok.mp h
    obtain ⟨address', haddress, h⟩ := bind_eq_ok.mp h
    obtain ⟨data, hdata, h⟩ := bind_eq_ok.mp h
    obtain ⟨logIndex, hlogIndex, h⟩ := bind_eq_ok.mp h
    cases pure_eq_ok.mp h
    obtain ⟨hfound, hindex, hhash, hremoved, hblock, hnumber⟩ := logTransaction_eq_ok.mp htx
    rw [okOr_eq_ok, Json.asArray_eq_some] at hitems
    exact ⟨⟨tx, hfound, rfl⟩, hindex, hhash, hremoved, hblock, hnumber,
      ⟨topicItems, hitems, mapM_eq_ok.mp htopics⟩, by simpa using hlength, haddress, hdata,
      hlogIndex⟩
  · intro h
    obtain ⟨tx, hfound, hhash⟩ := h.transaction
    obtain ⟨topicItems, hitems, htopics⟩ := h.topics
    refine bind_eq_ok.mpr ⟨(l.transactionIndex, tx), logTransaction_eq_ok.mpr
      ⟨hfound, h.transactionIndex, hhash ▸ h.transactionHash, h.removed, h.blockHash,
        h.blockNumber⟩, bind_eq_ok.mpr ⟨topicItems, ?_, bind_eq_ok.mpr
      ⟨_, mapM_eq_ok.mpr htopics, bind_eq_ok.mpr ⟨⟨⟩, ?_, bind_eq_ok.mpr
        ⟨_, h.address, bind_eq_ok.mpr ⟨_, h.data, bind_eq_ok.mpr ⟨_, h.logIndex, ?_⟩⟩⟩⟩⟩⟩⟩
    · exact okOr_eq_ok.mpr (Json.asArray_eq_some.mpr hitems)
    · exact ensure_eq_ok.mpr (decide_eq_true h.few)
    · rw [hhash]
      rfl

end Items

structure BlockItem (p : Primitives) (value logs : Json) (b : EvmBlock) : Prop where
  header : HeaderItem p value b
  numbered : Numbered 0 [] b.transactions
  transactions : ∃ items, value.get "transactions" = .array items ∧
    List.Forall₂ (TransactionItem p (b.header p) b.number) items b.transactions
  positions : ∀ (j : Nat) (l : EvmLog), b.logs[j]? = some l → l.logIndex = j
  logs : ∃ items decoded, logs = .array items ∧
    List.Forall₂ (LogItem p (b.header p) b.number b.transactions) items decoded ∧
      b.logs.Perm decoded

section Blocks
variable {p : Primitives} {value logs : Json} {expected : Nat} {b : EvmBlock}

theorem block_items (h : block p value logs expected = .ok b) : BlockItem p value logs b := by
  have haccepted := block_ok h
  obtain ⟨items, decoded, hitems, hdecoded, hperm⟩ := haccepted.oneForEachLog
  have hheader := haccepted.sameHeader
  obtain ⟨hd, hfirst, h⟩ := bind_eq_ok.mp h
  obtain ⟨txItems, htxItems, h⟩ := bind_eq_ok.mp h
  obtain ⟨txs, htxs, h⟩ := bind_eq_ok.mp h
  obtain ⟨_, _, h⟩ := bind_eq_ok.mp h
  obtain ⟨_, _, h⟩ := bind_eq_ok.mp h
  obtain ⟨_, _, h⟩ := bind_eq_ok.mp h
  obtain ⟨_, _, h⟩ := bind_eq_ok.mp h
  obtain ⟨timestamp, htimestamp, h⟩ := bind_eq_ok.mp h
  cases haccepted.number
  rw [hheader] at hfirst
  cases hfirst
  rw [okOr_eq_ok, Json.asArray_eq_some] at htxItems
  have hb := pure_eq_ok.mp h
  have htransactions : txs = b.transactions := by rw [← hb]
  have htime : timestamp = b.timestamp := by rw [← hb]
  subst htransactions htime
  exact ⟨header_eq_ok.mp ⟨hheader, htimestamp⟩, transactions_ok htxs,
    ⟨txItems, htxItems, transactions_items htxs⟩, haccepted.logPositions,
    items, decoded, hitems, hdecoded.imp fun _ _ hlog => log_eq_ok.mp hlog, hperm⟩

theorem sortByLogIndex_positions {xs ys : List EvmLog} (hp : ys.Perm xs)
    (h : ∀ (j : Nat) (l : EvmLog), ys[j]? = some l → l.logIndex = j) : sortByLogIndex xs = ys := by
  have hindexed : indexed ys = true := indexed_iff.mpr h
  have hascending : ys.Pairwise fun a b => a.logIndex ≤ b.logIndex := by
    rw [List.pairwise_iff_getElem]
    intro i j hi hj hlt
    rw [h i _ (List.getElem?_eq_getElem hi), h j _ (List.getElem?_eq_getElem hj)]
    exact hlt.le
  have hsorted : sortByLogIndex ys = ys := List.Pairwise.insertionSort_eq hascending
  exact (sortByLogIndex_eq_of_perm hp.symm (by rwa [hsorted])).trans hsorted

theorem block_of_items (h : BlockItem p value logs b) : block p value logs b.number = .ok b := by
  obtain ⟨hheader, htimestamp⟩ := header_eq_ok.mpr h.header
  obtain ⟨txItems, htxItems, htxs⟩ := h.transactions
  obtain ⟨logItems, decoded, rfl, hlogs, hperm⟩ := h.logs
  have hsorted := sortByLogIndex_positions hperm h.positions
  refine bind_eq_ok.mpr ⟨_, hheader, bind_eq_ok.mpr
    ⟨txItems, okOr_eq_ok.mpr (Json.asArray_eq_some.mpr htxItems), bind_eq_ok.mpr
      ⟨_, transactions_of_items h.numbered htxs, bind_eq_ok.mpr ⟨logItems, rfl, bind_eq_ok.mpr
        ⟨decoded, mapM_eq_ok.mpr (hlogs.imp fun _ _ hlog => log_eq_ok.mpr hlog), ?_⟩⟩⟩⟩⟩
  simp only [hsorted]
  exact bind_eq_ok.mpr ⟨⟨⟩, ensure_eq_ok.mpr (indexed_iff.mpr h.positions), bind_eq_ok.mpr
    ⟨_, rfl, bind_eq_ok.mpr ⟨_, htimestamp, rfl⟩⟩⟩

theorem block_eq_ok :
    block p value logs expected = .ok b ↔ b.number = expected ∧ BlockItem p value logs b := by
  constructor
  · intro h
    exact ⟨(block_ok h).number, block_items h⟩
  · rintro ⟨rfl, h⟩
    exact block_of_items h

end Blocks

def Normal {A : Type} (parse : String → Option A) (format : A → String) (s : String) : Prop :=
  (parse s).map format = some s

structure Lawful (p : Primitives) : Prop where
  b256 : ∀ s h, p.parseB256 s = some h → p.parseB256 (p.formatB256 h) = some h
  address : ∀ s a, p.parseAddress s = some a → p.parseAddress (p.formatAddress a) = some a
  bytes : ∀ s bs, p.parseBytes s = some bs → p.parseBytes (p.formatBytes bs) = some bs
  u256 : ∀ s n, p.parseU256 s = some n → p.parseU256 (p.formatU256 n) = some n

structure TransactionNormal (p : Primitives) (t : EvmTransaction) : Prop where
  index : t.transactionIndex ≤ maxValue 64
  hash : Normal p.parseB256 p.formatB256 t.hash
  fromAddress : Normal p.parseAddress p.formatAddress t.fromAddress
  toAddress : ∀ a, t.toAddress = some a → Normal p.parseAddress p.formatAddress a
  value : Normal p.parseU256 p.formatU256 t.value
  input : Normal p.parseBytes p.formatBytes t.input

structure LogNormal (p : Primitives) (txs : List EvmTransaction) (l : EvmLog) : Prop where
  transaction : ∃ tx, txs[l.transactionIndex]? = some tx ∧ tx.hash = l.transactionHash
  index : l.logIndex ≤ maxValue 64
  address : Normal p.parseAddress p.formatAddress l.address
  topics : ∀ topic ∈ l.topics, Normal p.parseB256 p.formatB256 topic
  few : l.topics.length ≤ 4
  data : Normal p.parseBytes p.formatBytes l.data

structure WellFormed (p : Primitives) (b : EvmBlock) : Prop where
  number : b.number ≤ maxValue 64
  timestamp : b.timestamp ≤ maxValue 64
  inRange : ((trySigned 64 b.timestamp).bind p.fromTimestamp).isSome
  hash : Normal p.parseB256 p.formatB256 b.hash
  parentHash : Normal p.parseB256 p.formatB256 b.parentHash
  numbered : Numbered 0 [] b.transactions
  transactions : ∀ t ∈ b.transactions, TransactionNormal p t
  positions : ∀ (j : Nat) (l : EvmLog), b.logs[j]? = some l → l.logIndex = j
  logs : ∀ l ∈ b.logs, LogNormal p b.transactions l

def wireTransaction (b : EvmBlock) (t : EvmTransaction) : Json := .object [
  ("hash", .string t.hash), ("blockHash", .string b.hash), ("blockNumber", hexQuantity b.number),
  ("transactionIndex", hexQuantity t.transactionIndex), ("from", .string t.fromAddress),
  ("to", t.toAddress.elim .null .string), ("value", .string t.value), ("input", .string t.input)]

def wireLog (b : EvmBlock) (l : EvmLog) : Json := .object [
  ("blockHash", .string b.hash), ("blockNumber", hexQuantity b.number),
  ("transactionHash", .string l.transactionHash),
  ("transactionIndex", hexQuantity l.transactionIndex), ("logIndex", hexQuantity l.logIndex),
  ("removed", .bool false), ("address", .string l.address),
  ("topics", .array (l.topics.map .string)), ("data", .string l.data)]

def wireBlock (b : EvmBlock) : Json := .object [
  ("number", hexQuantity b.number), ("hash", .string b.hash), ("parentHash", .string b.parentHash),
  ("timestamp", hexQuantity b.timestamp),
  ("transactions", .array (b.transactions.map (wireTransaction b)))]

section Normal
variable {p : Primitives} {value : Json} {text : String}

theorem normal_of_parsed {A : Type} {parse : String → Option A} {format : A → String}
    (hlaw : ∀ s a, parse s = some a → parse (format a) = some a)
    (h : (value.asStr.bind parse).map format = some text) : Normal parse format text := by
  obtain ⟨a, ha, rfl⟩ := Option.map_eq_some_iff.mp h
  obtain ⟨s, -, hs⟩ := Option.bind_eq_some_iff.mp ha
  rw [Normal, hlaw s a hs]
  rfl

theorem hash_normal (hp : Lawful p) (h : hash p value = .ok text) :
    Normal p.parseB256 p.formatB256 text :=
  normal_of_parsed hp.b256 (okOr_eq_ok.mp h)

theorem address_normal (hp : Lawful p) (h : address p value = .ok text) :
    Normal p.parseAddress p.formatAddress text :=
  normal_of_parsed hp.address (okOr_eq_ok.mp h)

theorem bytes_normal (hp : Lawful p) (h : bytes p value = .ok text) :
    Normal p.parseBytes p.formatBytes text :=
  normal_of_parsed hp.bytes (okOr_eq_ok.mp h)

theorem hash_string (h : Normal p.parseB256 p.formatB256 text) :
    hash p (.string text) = .ok text :=
  okOr_eq_ok.mpr h

theorem address_string (h : Normal p.parseAddress p.formatAddress text) :
    address p (.string text) = .ok text :=
  okOr_eq_ok.mpr h

theorem bytes_string (h : Normal p.parseBytes p.formatBytes text) :
    bytes p (.string text) = .ok text :=
  okOr_eq_ok.mpr h

theorem quantity_hexQuantity {n : Nat} (h : n ≤ maxValue 64) : quantity (hexQuantity n) = .ok n :=
  quantity_eq_ok.mpr (.inl (isQuantity_format h))

end Normal

section RoundTrip
variable {p : Primitives} {value logs : Json} {expected : Nat} {b : EvmBlock}

theorem TransactionItem.normal (hp : Lawful p) {header : Header} {item : Json} {t : EvmTransaction}
    (h : TransactionItem p header expected item t) : TransactionNormal p t := by
  refine ⟨quantity_le h.index, hash_normal hp h.hash, address_normal hp h.fromAddress,
    fun a ha => ?_, normal_of_parsed hp.u256 h.value, bytes_normal hp h.input⟩
  have hto := h.toAddress
  rw [ha, Decode.toAddress] at hto
  split_ifs at hto
  · cases hto
  · cases haddress : address p (item.get "to") with
    | error e =>
      rw [haddress] at hto
      cases hto
    | ok text =>
      rw [haddress] at hto
      cases hto
      exact address_normal hp haddress

theorem LogItem.normal (hp : Lawful p) {header : Header} {txs : List EvmTransaction} {item : Json}
    {l : EvmLog} (h : LogItem p header expected txs item l) : LogNormal p txs l := by
  obtain ⟨items, -, htopics⟩ := h.topics
  refine ⟨h.transaction, quantity_le h.logIndex, address_normal hp h.address, fun topic ht => ?_,
    h.few, bytes_normal hp h.data⟩
  obtain ⟨_, -, hitem⟩ := exists_left htopics ht
  exact hash_normal hp hitem

theorem BlockItem.wellFormed (hp : Lawful p) (h : BlockItem p value logs b) : WellFormed p b := by
  obtain ⟨txItems, -, htxs⟩ := h.transactions
  obtain ⟨logItems, decoded, -, hlogs, hperm⟩ := h.logs
  refine ⟨quantity_le h.header.number, quantity_le h.header.timestamp, h.header.inRange,
    hash_normal hp h.header.hash, hash_normal hp h.header.parentHash, h.numbered, fun t ht => ?_,
    h.positions, fun l hl => ?_⟩
  · obtain ⟨item, -, hitem⟩ := exists_left htxs ht
    exact hitem.normal hp
  · obtain ⟨item, -, hitem⟩ := exists_left hlogs (hperm.mem_iff.mp hl)
    exact hitem.normal hp

theorem wireTransaction_item (h : WellFormed p b) {t : EvmTransaction} (ht : t ∈ b.transactions) :
    TransactionItem p (b.header p) b.number (wireTransaction b t) t := by
  have hnormal := h.transactions t ht
  refine ⟨hash_string hnormal.hash, quantity_hexQuantity hnormal.index,
    quantity_hexQuantity h.number, hash_string h.hash, hnormal.value,
    address_string hnormal.fromAddress, ?_, bytes_string hnormal.input⟩
  have hget : (wireTransaction b t).get "to" = t.toAddress.elim .null .string := rfl
  rw [hget]
  cases hto : t.toAddress with
  | none => rfl
  | some a =>
    have hwritten : address p (.string a) = .ok a := address_string (hnormal.toAddress a hto)
    simp only [Option.elim_some, toAddress, Json.isNull, Bool.false_eq_true, if_false, hwritten]
    rfl

theorem wireLog_item (h : WellFormed p b) {l : EvmLog} (hl : l ∈ b.logs) :
    LogItem p (b.header p) b.number b.transactions (wireLog b l) l := by
  have hnormal := h.logs l hl
  obtain ⟨tx, htx, hhash⟩ := hnormal.transaction
  have hmem := List.mem_of_getElem? htx
  have hindex : tx.transactionIndex = l.transactionIndex := by
    have := h.numbered.indices l.transactionIndex tx htx
    omega
  have htxNormal := h.transactions tx hmem
  refine ⟨⟨tx, htx, hhash⟩, quantity_hexQuantity (hindex ▸ htxNormal.index),
    hash_string (hhash ▸ htxNormal.hash), rfl, hash_string h.hash, quantity_hexQuantity h.number,
    ⟨l.topics.map .string, rfl, ?_⟩, hnormal.few, address_string hnormal.address,
    bytes_string hnormal.data, quantity_hexQuantity hnormal.index⟩
  rw [List.forall₂_map_left_iff, List.forall₂_same]
  exact fun topic htopic => hash_string (hnormal.topics topic htopic)

theorem wireBlock_item (h : WellFormed p b) {items : List Json}
    (hitems : items.Perm (b.logs.map (wireLog b))) :
    BlockItem p (wireBlock b) (.array items) b := by
  obtain ⟨decoded, hdecoded, hperm⟩ : ∃ decoded,
      List.Forall₂ (LogItem p (b.header p) b.number b.transactions) items decoded ∧
        decoded.Perm b.logs := by
    refine List.perm_comp_forall₂ hitems (List.forall₂_map_left_iff.mpr ?_)
    rw [List.forall₂_same]
    exact fun l hl => wireLog_item h hl
  refine ⟨⟨rfl, quantity_hexQuantity h.number, quantity_hexQuantity h.timestamp, h.inRange,
    hash_string h.hash, hash_string h.parentHash⟩, h.numbered,
    ⟨b.transactions.map (wireTransaction b), rfl, ?_⟩, h.positions,
    items, decoded, rfl, hdecoded, hperm.symm⟩
  rw [List.forall₂_map_left_iff, List.forall₂_same]
  exact fun t ht => wireTransaction_item h ht

theorem decoded_blocks_are_wellFormed_blocks (p : Primitives) (hp : Lawful p) (b : EvmBlock) :
    (∀ value logs expected, block p value logs expected = .ok b ↔
      b.number = expected ∧ BlockItem p value logs b) ∧
    ((∃ value logs expected, block p value logs expected = .ok b) ↔ WellFormed p b) ∧
    (WellFormed p b → ∀ items : List Json, items.Perm (b.logs.map (wireLog b)) →
      block p (wireBlock b) (.array items) b.number = .ok b) := by
  have hencoded : WellFormed p b → ∀ items : List Json, items.Perm (b.logs.map (wireLog b)) →
      block p (wireBlock b) (.array items) b.number = .ok b :=
    fun h items hitems => block_of_items (wireBlock_item h hitems)
  refine ⟨fun value logs expected => block_eq_ok,
    ⟨?_, fun h => ⟨_, _, _, hencoded h _ (List.Perm.refl _)⟩⟩, hencoded⟩
  rintro ⟨value, logs, expected, h⟩
  exact (block_items h).wellFormed hp

theorem parseHexWord_format {width n : Nat} (hw : 0 < width) (hn : n < 16 ^ width) :
    parseHexWord width (formatHexWord width n) = some n := by
  have hshort := (Nat.length_toDigits_le_iff (by decide) hw).mpr hn
  have hlist : (formatHexWord width n).toList = '0' :: 'x' :: padded width n := by
    rw [formatHexWord, String.toList_append, String.toList_ofList, String.toList_ofList]
    rfl
  have hlength : (padded width n).length = width := by
    rw [padded, List.length_append, List.length_replicate]
    omega
  rw [parseHexWord, hlist]
  simp only [hlength, if_true, digitsValue_padded]

theorem lowerHexPrimitives_lawful : Lawful lowerHexPrimitives := by
  refine ⟨fun s h _ => ?_, fun s a _ => ?_, fun s bs hs => ?_, fun s n _ => ?_⟩
  · have hn : h.toNat < 16 ^ 64 := lt_of_lt_of_eq h.isLt (Nat.pow_mul 2 4 64)
    simp only [lowerHexPrimitives, parseHexWord_format (by decide) hn, Option.map_some,
      BitVec.ofNat_toNat, BitVec.setWidth_eq]
  · have hn : a.toNat < 16 ^ 40 := lt_of_lt_of_eq a.isLt (Nat.pow_mul 2 4 40)
    simp only [lowerHexPrimitives, parseHexWord_format (by decide) hn, Option.map_some,
      BitVec.ofNat_toNat, BitVec.setWidth_eq]
  · simp only [lowerHexPrimitives] at hs ⊢
    split_ifs at hs
    exact hs
  · have hn : n.toNat ≤ maxValue 256 := Nat.le_pred_of_lt n.isLt
    simp only [lowerHexPrimitives, fromStrRadix_repr hn, Option.map_some, BitVec.ofNat_toNat,
      BitVec.setWidth_eq]

theorem fixture_block_round_trips : WellFormed lowerHexPrimitives fixtureDecoded ∧
    block lowerHexPrimitives (wireBlock fixtureDecoded)
      (.array (fixtureDecoded.logs.map (wireLog fixtureDecoded)).reverse) 2 =
        .ok fixtureDecoded := by
  obtain ⟨-, hiff, hencoded⟩ := decoded_blocks_are_wellFormed_blocks lowerHexPrimitives
    lowerHexPrimitives_lawful fixtureDecoded
  have hwell := hiff.mp ⟨_, _, _, fixture_decodes⟩
  exact ⟨hwell, hencoded hwell _ (List.reverse_perm _)⟩

end RoundTrip

end SuperqueryNode.Evm.Decode

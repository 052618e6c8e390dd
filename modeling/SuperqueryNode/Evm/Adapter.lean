import Std.Data.ExtTreeMap
import SuperqueryNode.Evm.Decode

namespace SuperqueryNode.Evm
open Unsigned Radix Fallible ChainApi Decode

namespace EvmAdapter

def hexQuantity (height : Nat) : Json := .string ("0x" ++ String.ofList (Nat.toDigits 16 height))

def fetchBlock (p : Primitives) (request : String → Json → Except ChainError Json)
    (height : Nat) : Except ChainError (GenericBlock EvmBlock) := do
  let value ← request "eth_getBlockByNumber" (.array [hexQuantity height, .bool true])
  let header ← header p value height
  let logs ← request "eth_getLogs" (.array [.object [("blockHash", .string header.hash)]])
  let block ← block p value logs height
  return ⟨header, block⟩

def byIndex (b : EvmBlock) : Std.ExtTreeMap Nat EvmTransaction :=
  Std.ExtTreeMap.ofList (b.transactions.map fun tx => (tx.transactionIndex, tx)) compare

def decodeEvents (b : EvmBlock) : Except ChainError (List EvmEvent) :=
  .ok (b.logs.map fun log => ⟨log, (byIndex b)[log.transactionIndex]?, b.number⟩)

section
variable {p : Primitives} {value logs : Json} {expected : Nat} {b : EvmBlock}

theorem byIndex_of_numbered
    (hnumbered : ∀ (i : Nat) (tx : EvmTransaction), b.transactions[i]? = some tx →
      tx.transactionIndex = i)
    {i : Nat} {tx : EvmTransaction} (h : b.transactions[i]? = some tx) :
    (byIndex b)[i]? = some tx := by
  refine Std.ExtTreeMap.getElem?_ofList_of_mem Std.ReflCmp.compare_self ?_ ?_
  · rw [List.pairwise_map, List.pairwise_iff_getElem]
    intro j k hj hk hlt heq
    have hjk := Std.LawfulEqCmp.compare_eq_iff_eq.mp heq
    rw [hnumbered j _ (List.getElem?_eq_getElem hj),
      hnumbered k _ (List.getElem?_eq_getElem hk)] at hjk
    omega
  · exact List.mem_map.mpr ⟨tx, List.mem_of_getElem? h, by rw [hnumbered i tx h]⟩

structure EventsPaired (b : EvmBlock) (events : List EvmEvent) : Prop where
  logOrder : events.map (·.log) = b.logs
  transaction : ∀ e ∈ events, ∃ tx, e.transaction = some tx ∧ tx.hash = e.log.transactionHash
  blockNumber : ∀ e ∈ events, e.blockNumber = b.number

theorem decodeEvents_paired (h : Accepted p value logs expected b) :
    ∃ events, decodeEvents b = .ok events ∧ EventsPaired b events := by
  refine ⟨_, rfl, ?_, fun e he => ?_, fun e he => ?_⟩
  · rw [List.map_map]
    exact List.map_id _
  · obtain ⟨log, hlog, rfl⟩ := List.mem_map.mp he
    obtain ⟨tx, htx, hhash⟩ := h.paired log hlog
    exact ⟨tx, byIndex_of_numbered h.numbered htx, hhash⟩
  · obtain ⟨log, hlog, rfl⟩ := List.mem_map.mp he
    rfl

theorem fetchBlock_header {request : String → Json → Except ChainError Json} {height : Nat}
    {fetched : GenericBlock EvmBlock} (h : fetchBlock p request height = .ok fetched) :
    fetched.header = fetched.inner.header p := by
  obtain ⟨value, _, h⟩ := bind_eq_ok.mp h
  obtain ⟨header, hheader, h⟩ := bind_eq_ok.mp h
  obtain ⟨logs, _, h⟩ := bind_eq_ok.mp h
  obtain ⟨block, hblock, h⟩ := bind_eq_ok.mp h
  cases pure_eq_ok.mp h
  have hsame := (block_ok hblock).sameHeader
  rw [hheader] at hsame
  cases hsame
  rfl

end

theorem accepted_block_consistent (p : Primitives) (value logs : Json) (expected : Nat)
    (b : EvmBlock) (h : block p value logs expected = .ok b) :
    Accepted p value logs expected b ∧
    (∃ events, decodeEvents b = .ok events ∧ EventsPaired b events) ∧
    ∀ request height fetched, fetchBlock p request height = .ok fetched →
      fetched.header = fetched.inner.header p := by
  have haccepted := block_ok h
  exact ⟨haccepted, decodeEvents_paired haccepted, fun _ _ _ hfetch => fetchBlock_header hfetch⟩

def parseHexWord (width : Nat) (s : String) : Option Nat :=
  match s.toList with
  | '0' :: 'x' :: digits => if digits.length = width then digitsValue 16 0 digits else none
  | _ => none

def formatHexWord (width n : Nat) : String :=
  let digits := Nat.toDigits 16 n
  "0x" ++ String.ofList (List.replicate (width - digits.length) '0' ++ digits)

def lowerHexPrimitives : Primitives where
  parseB256 s := (parseHexWord 64 s).map (BitVec.ofNat 256)
  formatB256 h := formatHexWord 64 h.toNat
  parseAddress s := (parseHexWord 40 s).map (BitVec.ofNat 160)
  formatAddress a := formatHexWord 40 a.toNat
  parseBytes s := if s = "0x" then some [] else none
  formatBytes _ := "0x"
  parseU256 s := (fromStrRadix 256 10 s).map (BitVec.ofNat 256)
  formatU256 n := n.toNat.repr
  fromTimestamp t := if t.natAbs ≤ 8210266876799 then some ⟨t * 10 ^ 9⟩ else none

def word (c : Char) : String := "0x" ++ String.ofList (List.replicate 64 c)

def account (c : Char) : String := "0x" ++ String.ofList (List.replicate 40 c)

def fixtureBlock : Json := .object [
  ("number", .string "0x2"), ("hash", .string (word 'a')), ("parentHash", .string (word '0')),
  ("timestamp", .string "0x1234"),
  ("transactions", .array [.object [
    ("hash", .string (word 'c')), ("blockHash", .string (word 'a')), ("blockNumber", .string "0x2"),
    ("transactionIndex", .string "0x0"), ("from", .string (account '1')), ("to", .null),
    ("value", .string "7"), ("input", .string "0x")]])]

def fixtureLog (index : String) : Json := .object [
  ("blockHash", .string (word 'a')), ("blockNumber", .string "0x2"),
  ("transactionHash", .string (word 'c')), ("transactionIndex", .string "0x0"),
  ("logIndex", .string index), ("removed", .bool false), ("address", .string (account '1')),
  ("topics", .array [.string (word 'd')]), ("data", .string "0x")]

def fixtureDecoded : EvmBlock where
  number := 2
  hash := word 'a'
  parentHash := word '0'
  timestamp := 0x1234
  transactions := [⟨word 'c', 0, account '1', none, "7", "0x"⟩]
  logs := [⟨account '1', [word 'd'], "0x", 0, word 'c', 0⟩,
    ⟨account '1', [word 'd'], "0x", 1, word 'c', 0⟩]

theorem fixture_decodes :
    block lowerHexPrimitives fixtureBlock (.array [fixtureLog "0x1", fixtureLog "0x0"]) 2 =
      .ok fixtureDecoded := by
  decide +kernel

theorem fixture_block_consistent :
    Accepted lowerHexPrimitives fixtureBlock (.array [fixtureLog "0x1", fixtureLog "0x0"]) 2
      fixtureDecoded ∧
    ∃ events, decodeEvents fixtureDecoded = .ok events ∧ EventsPaired fixtureDecoded events := by
  have h := accepted_block_consistent lowerHexPrimitives fixtureBlock
    (.array [fixtureLog "0x1", fixtureLog "0x0"]) 2 fixtureDecoded fixture_decodes
  exact ⟨h.1, h.2.1⟩

end EvmAdapter
end SuperqueryNode.Evm

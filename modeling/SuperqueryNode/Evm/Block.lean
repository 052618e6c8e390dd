import SuperqueryNode.ChainApi.Types

namespace SuperqueryNode.Evm
open Unsigned ChainApi

-- What the code takes from alloy's primitive types and from chrono.
structure Primitives where
  parseB256 : String → Option (BitVec 256)
  formatB256 : BitVec 256 → String
  parseAddress : String → Option (BitVec 160)
  formatAddress : BitVec 160 → String
  parseBytes : String → Option (List UInt8)
  formatBytes : List UInt8 → String
  parseU256 : String → Option (BitVec 256)
  formatU256 : BitVec 256 → String
  fromTimestamp : Int → Option DateTime

structure EvmTransaction where
  hash : String
  transactionIndex : Nat
  fromAddress : String
  toAddress : Option String
  value : String
  input : String
deriving DecidableEq, Repr

structure EvmLog where
  address : String
  topics : List String
  data : String
  logIndex : Nat
  transactionHash : String
  transactionIndex : Nat
deriving DecidableEq, Repr

structure EvmBlock where
  number : Nat
  hash : String
  parentHash : String
  timestamp : Nat
  transactions : List EvmTransaction
  logs : List EvmLog
deriving DecidableEq, Repr

def EvmBlock.header (p : Primitives) (b : EvmBlock) : Header :=
  ⟨b.number, b.hash, some b.parentHash, p.fromTimestamp (asSigned 64 b.timestamp)⟩

structure EvmEvent where
  log : EvmLog
  transaction : Option EvmTransaction
  blockNumber : Nat
deriving DecidableEq, Repr

end SuperqueryNode.Evm

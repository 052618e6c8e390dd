import SuperqueryNode.Config.Project
import SuperqueryNode.Evm.Adapter
import SuperqueryNode.Evm.Filter
import SuperqueryNode.Sdk.Manifest

namespace SuperqueryNode.Evm
open ChainApi Fallible HexText

-- What the code takes from alloy's human-readable ABI: the selector of a parsed signature.
structure Signatures where
  event : String → Option (BitVec 256)
  function : String → Option (Vector UInt8 4)
  formatSelector : Vector UInt8 4 → String

inductive InputFilter where
  | block (modulo : Option Nat)
  | log (filter : EvmLogFilter)
  | transaction (filter : EvmTransactionFilter)
deriving DecidableEq, Repr

structure PreparedHandler where
  function : String
  start : Nat
  stop : Option Nat
  filter : InputFilter
deriving DecidableEq, Repr

def isMultipleOf (n m : Nat) : Bool := if m = 0 then n == 0 else n % m == 0

def PreparedHandler.matchingInputs (h : PreparedHandler) (block : EvmBlock) : Nat :=
  if block.number < h.start || h.stop.any fun stop => stop < block.number then 0
  else match h.filter with
  | .block modulo => (modulo.all fun m => isMultipleOf block.number m).toNat
  | .log filter => block.logs.countP fun l => filter.matches l.view
  | .transaction filter => block.transactions.countP fun t => filter.matches t.view

namespace Project
variable (p : Primitives) (s : Signatures)

def address : Option String → Except ChainError (Option String)
  | none => .ok none
  | some raw => okOr ((p.parseAddress raw).map (some ∘ p.formatAddress))
      (.decode "invalid manifest address")

def bad (handler : Sdk.Handler) : ChainError :=
  .decode s!"invalid or unsupported filter for {handler.handler}"

def compileTopics (handler : Sdk.Handler) (log : Sdk.LogFilter) :
    Except ChainError (List TopicFilter) := do
  let selector ← okOr (s.event log.event) (bad handler)
  let topics ← log.topics.mapM fun topic =>
    okOr ((p.parseB256 topic).map (.one ∘ p.formatB256)) (bad handler)
  let topics := TopicFilter.one (p.formatB256 selector) :: topics
  ensure (topics.length ≤ 4) (bad handler)
  return topics

def compileLog (contract : Option String) (handler : Sdk.Handler) :
    Except ChainError EvmLogFilter :=
  match handler.filter with
  | some (.log log) => do
    let topics ← compileTopics p s handler log
    return ⟨contract, topics⟩
  | some _ => .error (bad handler)
  | none => .ok ⟨contract, []⟩

def recipient (contract : Option String) (handler : Sdk.Handler) (f : Sdk.TransactionFilter) :
    Except ChainError (Option String) := do
  let given ← address p f.toAddress
  ensure (given.all fun a => contract.all fun c => c == a) (bad handler)
  return given.or contract

def compileTransaction (contract : Option String) (handler : Sdk.Handler) :
    Except ChainError EvmTransactionFilter :=
  match handler.filter with
  | some (.transaction f) => do
    let selector ← okOr (s.function f.function) (bad handler)
    let fromAddress ← address p f.fromAddress
    let toAddress ← recipient p contract handler f
    return ⟨toAddress, fromAddress, some (s.formatSelector selector)⟩
  | some _ => .error (bad handler)
  | none => .ok ⟨contract, none, none⟩

def compileBlock (handler : Sdk.Handler) : Except ChainError (Option Nat) :=
  match handler.filter with
  | none => .ok none
  | some (.block f) =>
    if f.modulo ≠ some 0 ∧ f.timestamp = none then .ok f.modulo else .error (bad handler)
  | some _ => .error (bad handler)

def compileFilter (contract : Option String) (handler : Sdk.Handler) :
    Except ChainError InputFilter :=
  if handler.kind = "evm/LogHandler" then (compileLog p s contract handler).map .log
  else if handler.kind = "evm/TransactionHandler" then
    (compileTransaction p s contract handler).map .transaction
  else if handler.kind = "evm/BlockHandler" then (compileBlock handler).map .block
  else .error (bad handler)

def checkOptions (options : Sdk.DataSourceOptions) : Except ChainError Unit :=
  match options.keys.find? fun key => !(key == "address" || key == "abi") with
  | some key => .error (.decode s!"unsupported datasource option {key}")
  | none => ensure (!(options.contains "address" && (options.getStr "address").isNone))
      (.decode "datasource address must be a string")

def prepareHandler (project : Sdk.ProjectManifest) (ds : Sdk.DataSource)
    (contract : Option String) (handler : Sdk.Handler) : Except ChainError PreparedHandler := do
  let filter ← compileFilter p s contract handler
  return ⟨handler.handler, project.effectiveStartBlock ds, ds.endBlock, filter⟩

def prepareDataSource (project : Sdk.ProjectManifest) (ds : Sdk.DataSource) :
    Except ChainError (List PreparedHandler) := do
  checkOptions ds.options
  let contract ← address p (ds.options.getStr "address")
  ds.handlers.mapM (prepareHandler p s project ds contract)

def prepareHandlers (project : Sdk.ProjectManifest) : Except ChainError (List PreparedHandler) := do
  let prepared ← project.dataSources.mapM (prepareDataSource p s project)
  return prepared.flatten

end Project

end SuperqueryNode.Evm

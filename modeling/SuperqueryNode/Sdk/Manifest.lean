import Mathlib.Data.Option.Basic
import SuperqueryNode.Lib.Json

namespace SuperqueryNode.Sdk

structure LogFilter where
  event : String
  topics : List String
deriving DecidableEq, Repr

structure TransactionFilter where
  function : String
  fromAddress : Option String
  toAddress : Option String
deriving DecidableEq, Repr

structure BlockFilter where
  modulo : Option Nat
  timestamp : Option String
deriving DecidableEq, Repr

inductive HandlerFilter where
  | log (f : LogFilter)
  | transaction (f : TransactionFilter)
  | block (f : BlockFilter)
deriving DecidableEq, Repr

structure Handler where
  handler : String
  kind : String
  filter : Option HandlerFilter
deriving DecidableEq, Repr

-- A `BTreeMap`: its keys in ascending order, each once.
structure DataSourceOptions where
  entries : List (String × Json)
  ascending : entries.Pairwise fun a b => a.1 < b.1

namespace DataSourceOptions

def keys (o : DataSourceOptions) : List String := o.entries.map (·.1)

def contains (o : DataSourceOptions) (key : String) : Bool := (o.entries.lookup key).isSome

def getStr (o : DataSourceOptions) (key : String) : Option String :=
  (o.entries.lookup key).bind Json.asStr

end DataSourceOptions

structure DataSource where
  startBlock : Option Nat
  endBlock : Option Nat
  options : DataSourceOptions
  handlers : List Handler

structure ProjectManifest where
  startBlock : Option Nat
  dataSources : List DataSource

def ProjectManifest.effectiveStartBlock (project : ProjectManifest) (ds : DataSource) : Nat :=
  (ds.startBlock.or project.startBlock).getD 0

end SuperqueryNode.Sdk

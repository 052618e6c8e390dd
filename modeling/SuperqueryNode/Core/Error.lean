import SuperqueryNode.ChainApi.Types

namespace SuperqueryNode

inductive StoreError where
  | postgres (message : String)
  | pool (message : String)
  | invalidIdentifier (name : String)
  | schema (message : String)
  | unsupportedType (name : String)
  | unknownEntity (name : String)
  | decode (message : String)
  | metadataConflict (message : String)
deriving DecidableEq, Repr

inductive CoreError where
  | chain (e : ChainApi.ChainError)
  | store (e : StoreError)
  | noDataSources (height : Nat)
  | reorgBeyondHistory (oldestKnown : Nat)
  | handler (handler : String) (height : Nat) (source : String)
  | project (message : String)
  | other (message : String)
deriving DecidableEq, Repr

end SuperqueryNode

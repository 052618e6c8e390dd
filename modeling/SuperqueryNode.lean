import SuperqueryNode.Lib.Unsigned
import SuperqueryNode.Lib.LabelledRun
import SuperqueryNode.Lib.Assoc
import SuperqueryNode.Lib.KeyedMap
import SuperqueryNode.Lib.Enumeration
import SuperqueryNode.Lib.Fallible
import SuperqueryNode.Lib.Linked
import SuperqueryNode.Lib.FirstMatch
import SuperqueryNode.Lib.Descent
import SuperqueryNode.Lib.Ascii
import SuperqueryNode.Lib.Radix
import SuperqueryNode.Lib.Sql
import SuperqueryNode.Lib.Framing
import SuperqueryNode.Lib.Json
import SuperqueryNode.Lib.Regex
import SuperqueryNode.Lib.Ending
import SuperqueryNode.Lib.SqlRun
import SuperqueryNode.Lib.SqlQuery
import SuperqueryNode.Lib.SqlText
import SuperqueryNode.Lib.SqlLiteral
import SuperqueryNode.Lib.Effects
import SuperqueryNode.Lib.JsonNumeral
import SuperqueryNode.Lib.JsonTokens
import SuperqueryNode.Lib.JsonText
import SuperqueryNode.Lib.Ascending
import SuperqueryNode.Lib.HexText
import SuperqueryNode.Lib.Serde
import SuperqueryNode.Lib.PercentEncoding
import SuperqueryNode.Lib.Conninfo
import SuperqueryNode.Lib.SqlTable
import SuperqueryNode.Lib.Ranked
import SuperqueryNode.ChainApi.Types
import SuperqueryNode.ChainApi.Filter
import SuperqueryNode.Sdk.Manifest
import SuperqueryNode.Core.Error
import SuperqueryNode.Core.BlockHeightMap
import SuperqueryNode.Config.Project
import SuperqueryNode.Config.Db
import SuperqueryNode.Config.ConnectionString
import SuperqueryNode.Config.Manifest
import SuperqueryNode.Config.Validate
import SuperqueryNode.Config.Load
import SuperqueryNode.Config.Node
import SuperqueryNode.Dispatcher.OrderedCommit
import SuperqueryNode.Dispatcher.RunContract
import SuperqueryNode.Dispatcher.Queue
import SuperqueryNode.Dispatcher.Dispatcher
import SuperqueryNode.Finality.Reorg
import SuperqueryNode.Dispatcher.Succession
import SuperqueryNode.Fetch.Range
import SuperqueryNode.Fetch.MaximalBatch
import SuperqueryNode.Fetch.Backpressure
import SuperqueryNode.Fetch.Scheduler
import SuperqueryNode.Fetch.SchedulerRun
import SuperqueryNode.Fetch.Transitions
import SuperqueryNode.Fetch.Liveness
import SuperqueryNode.Pipeline.Bypass
import SuperqueryNode.Pipeline.Bounded
import SuperqueryNode.Store.Postgres
import SuperqueryNode.Store.Rewind
import SuperqueryNode.Store.Ingestion
import SuperqueryNode.Store.Metadata
import SuperqueryNode.Store.Identity
import SuperqueryNode.Store.Checkpoint
import SuperqueryNode.Store.History
import SuperqueryNode.Store.Ledger
import SuperqueryNode.Store.Naming
import SuperqueryNode.Store.Separators
import SuperqueryNode.Store.Schema
import SuperqueryNode.Store.Ddl
import SuperqueryNode.Store.PlainModel
import SuperqueryNode.Store.Literal
import SuperqueryNode.Store.Upsert
import SuperqueryNode.Store.Names
import SuperqueryNode.Store.Collision
import SuperqueryNode.Store.Batch
import SuperqueryNode.Store.Query
import SuperqueryNode.Store.Lookup
import SuperqueryNode.Store.Pagination
import SuperqueryNode.Store.Injection
import SuperqueryNode.Store.Migration
import SuperqueryNode.Store.JsonColumn
import SuperqueryNode.Store.EntityTable
import SuperqueryNode.Runtime.Host
import SuperqueryNode.Node.Ingest
import SuperqueryNode.Node.CatchUp
import SuperqueryNode.Node.Provenance
import SuperqueryNode.Evm.Rpc
import SuperqueryNode.Evm.Block
import SuperqueryNode.Evm.Decode
import SuperqueryNode.Evm.Adapter
import SuperqueryNode.Evm.Filter
import SuperqueryNode.Evm.Project
import SuperqueryNode.Evm.NormalForm
import SuperqueryNode.Evm.Selection
import SuperqueryNode.Evm.Acceptance
import SuperqueryNode.Evm.RpcClient
import SuperqueryNode.Evm.Quantity
import SuperqueryNode.Evm.LogOrder
import SuperqueryNode.Evm.Wire
import SuperqueryNode.Evm.Network
import SuperqueryNode.Node.Startup
import SuperqueryNode.Node.Deployment
import SuperqueryNode.Node.Availability
import SuperqueryNode.Finality.Tracker
import SuperqueryNode.Finality.Verdict
import SuperqueryNode.Finality.MissingEvidence
import SuperqueryNode.Finality.Evidence
import SuperqueryNode.Finality.Recovery
import SuperqueryNode.Evm.EventFilter

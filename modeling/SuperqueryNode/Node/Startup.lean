import SuperqueryNode.Config.Load
import SuperqueryNode.Config.Node
import SuperqueryNode.Evm.Acceptance
import SuperqueryNode.Evm.Network
import SuperqueryNode.Fetch.Scheduler
import SuperqueryNode.Store.Schema

namespace SuperqueryNode.Node
open Unsigned Radix Fallible ChainApi Config Evm Fetch Store

inductive StartupError where
  | message (text : String)
  | chain (e : ChainError)
  | store (e : StoreError)
deriving DecidableEq, Repr

-- What a start asks of the machine, the network and the third-party parsers.
structure Environment (P D : Type) where
  primitives : Primitives
  signatures : Signatures
  files : Files
  pathExists : String → Bool
  isDir : String → Bool
  parse : String → Except String Manifest
  isSemver : String → Bool
  sha256 : List UInt8 → List UInt8
  toVec : ProjectManifest Manifest ManifestSource → Except String Bytes
  parser : GraphqlParser
  connect : String → Except String P
  script : RpcClient.Script P
  database : Except StartupError D
  parallelism : Nat

structure EffectiveRange where
  start : Nat
  stop : Option Nat
  start_le : start ≤ maxValue 63
  ordered : ∀ e ∈ stop, start ≤ e
  stop_le : ∀ e ∈ stop, e ≤ maxValue 64

structure NodeContext (P D : Type) where
  client : RpcClient P
  handlers : List PreparedHandler
  project : LoadedProject
  database : D
  rpcEndpoints : List String
  range : EffectiveRange
  sameChain : fromStrRadix 64 10 project.manifest.network.chainId = some client.chainId

theorem stop_le {config : NodeConfig} :
    ∀ e ∈ config.endHeight.map UInt64.toNat, e ≤ maxValue 64 := by
  intro e he
  obtain ⟨stop, -, rfl⟩ := Option.map_eq_some_iff.mp he
  have := stop.toNat_lt
  have hmax : maxValue 64 = 2 ^ 64 - 1 := rfl
  omega

def startOf (config : NodeConfig) (m : Manifest) : Nat :=
  (config.startHeight.map UInt64.toNat).getD m.minStartBlock

def effectiveRange (config : NodeConfig) (m : Manifest) : Except StartupError EffectiveRange :=
  if h : startOf config m ≤ maxValue 63 ∧
      ∀ e ∈ config.endHeight.map UInt64.toNat, startOf config m ≤ e then
    .ok ⟨startOf config m, config.endHeight.map UInt64.toNat, h.1, h.2, stop_le⟩
  else .error (.message "invalid effective project start/end height")

def adapterConfig (config : NodeConfig) (m : Manifest) (endpoints : List String) :
    EvmAdapterConfig where
  endpoints := endpoints
  chainId := m.network.chainId
  timeoutSecs := config.rpcTimeoutSecs.toNat
  maxRetries := config.rpcMaxRetries.toNat
  finalityConfirmations := config.finalityConfirmations.toNat

theorem new_chainId {P : Type} {connect : String → Except String P} {config : EvmAdapterConfig}
    {client : RpcClient P} (h : RpcClient.new connect config = .ok client) :
    fromStrRadix 64 10 config.chainId = some client.chainId := by
  rw [RpcClient.new] at h
  split_ifs at h
  split at h
  · cases h
  · split at h
    · cases h
    next chainId hid =>
      cases h
      exact hid

-- The adapter's client, built at its first request and kept from then on.
def connectChain {P : Type} (connect : String → Except String P) (config : EvmAdapterConfig) :
    Except ChainError
      { client : RpcClient P // fromStrRadix 64 10 config.chainId = some client.chainId } :=
  match h : RpcClient.new connect config with
  | .error e => .error e
  | .ok client => .ok ⟨client, new_chainId h⟩

section Bootstrap
variable {P D : Type} (env : Environment P D) (config : NodeConfig)

def resolveProject (path : String) : Except StartupError Unit := do
  ensure (env.pathExists path) (.message s!"project path '{path}' does not exist")
  ensure (env.isDir path)
    (.message s!"project path '{path}' is not a directory (expected a built project)")

def resolveEndpoints (endpoints : List String) : Except StartupError Unit := do
  ensure (!endpoints.isEmpty)
    (.message "no RPC endpoint configured: pass --rpc-url or set SUPERQUERY_RPC_URL")
  let _ ← (endpoints.mapM env.connect).mapError .message
  return ()

def endpointsOf (m : Manifest) : List String :=
  if config.rpcUrls.isEmpty then m.network.endpoint else config.rpcUrls

def bootstrap : Except StartupError (NodeContext P D) := do
  resolveProject env config.project
  let project ← (LoadedProject.load env.files env.parse env.isSemver env.sha256 env.toVec
    config.project).mapError .message
  let _ ← (parseEntities env.parser project.schema).mapError .store
  let endpoints := endpointsOf config project.manifest
  resolveEndpoints env endpoints
  let handlers ← (Project.prepareHandlers env.primitives env.signatures
    project.manifest.project).mapError .chain
  let range ← effectiveRange config project.manifest
  let client ← (connectChain env.connect
    (adapterConfig config project.manifest endpoints)).mapError .chain
  (EvmAdapter.validateNetwork (client.1.ask env.script)
    project.manifest.network.chainId).mapError .chain
  let database ← env.database
  return ⟨client.1, handlers, project, database, endpoints, range, client.2⟩

def main : Except StartupError (NodeContext P D) := do
  (config.validate env.parallelism).mapError .message
  ensure config.ingestOnly (.message ("mapping execution is not yet available; " ++
    "use --ingest-only for finalized block ingestion"))
  bootstrap env config

def NodeContext.schedulerConfig (context : NodeContext P D) (config : NodeConfig) :
    SchedulerConfig where
  startHeight := context.range.start
  endHeight := context.range.stop
  batchSize := config.batchSize.toNat
  indexUnfinalized := false
  finalityConfirmations := config.finalityConfirmations.toNat
  backpressure := .new config.maxInFlight.toNat config.queueCapacity.toNat
  start_le := context.range.start_le.trans (by decide)
  end_le := context.range.stop_le

structure Started (env : Environment P D) (config : NodeConfig) (context : NodeContext P D) :
    Prop where
  sound : config.Sound env.parallelism
  ingestOnly : config.ingestOnly = true
  loaded : LoadedProject.Loaded env.files env.sha256 env.toVec context.project
  compiled : Project.prepareHandlers env.primitives env.signatures
    context.project.manifest.project = .ok context.handlers
  range : effectiveRange config context.project.manifest = .ok context.range
  attested : ∃ attempt id, env.script "eth_chainId" (context.client.idCall attempt) = .value id ∧
    quantity id = .ok context.client.chainId

variable {env config} {context : NodeContext P D}

theorem validateNetwork_attested {client : RpcClient P} {script : RpcClient.Script P}
    {expected : String} {done : Unit}
    (h : EvmAdapter.validateNetwork (client.ask script) expected = .ok done) :
    ∃ attempt id, script "eth_chainId" (client.idCall attempt) = .value id ∧
      quantity id = .ok client.chainId := by
  obtain ⟨value, hvalue, -⟩ := bind_eq_ok.mp h
  have hbudget : client.Budgeted (script "eth_chainId") "eth_chainId" (.array [])
      (client.request (script "eth_chainId") "eth_chainId" (.array [])) :=
    (RpcClient.requestLoop_looped client.positive (Nat.zero_add _)).budgeted
  obtain ⟨attempt, _, id, -, -, htrusted⟩ := hbudget.trusted value hvalue
  exact ⟨attempt, id, htrusted.verified⟩

theorem main_started (h : main env config = .ok context) : Started env config context := by
  obtain ⟨_, hvalid, h⟩ := bind_eq_ok.mp h
  obtain ⟨_, hingest, h⟩ := bind_eq_ok.mp h
  obtain ⟨_, -, h⟩ := bind_eq_ok.mp h
  obtain ⟨project, hproject, h⟩ := bind_eq_ok.mp h
  obtain ⟨_, -, h⟩ := bind_eq_ok.mp h
  obtain ⟨_, -, h⟩ := bind_eq_ok.mp h
  obtain ⟨handlers, hhandlers, h⟩ := bind_eq_ok.mp h
  obtain ⟨range, hrange, h⟩ := bind_eq_ok.mp h
  obtain ⟨client, -, h⟩ := bind_eq_ok.mp h
  obtain ⟨_, hnetwork, h⟩ := bind_eq_ok.mp h
  obtain ⟨database, -, h⟩ := bind_eq_ok.mp h
  cases pure_eq_ok.mp h
  exact ⟨NodeConfig.validate_eq_ok.mp (mapError_eq_ok.mp hvalid), ensure_eq_ok.mp hingest,
    LoadedProject.load_loaded (mapError_eq_ok.mp hproject), mapError_eq_ok.mp hhandlers, hrange,
    validateNetwork_attested (mapError_eq_ok.mp hnetwork)⟩

end Bootstrap

section Compile
variable {p : Primitives} {s : Signatures} {contract : Option (BitVec 160)} {handler : Sdk.Handler}

def Compiles (p : Primitives) (s : Signatures) (contract : Option (BitVec 160)) :
    Sdk.HandlerFilter → Prop
  | .log f => (s.event f.event).isSome ∧ (∀ raw ∈ f.topics, (p.parseB256 raw).isSome) ∧
      f.topics.length ≤ 3
  | .transaction f => (s.function f.function).isSome ∧
      (∀ raw ∈ f.fromAddress, (p.parseAddress raw).isSome) ∧
        ∀ raw ∈ f.toAddress, ∃ a, p.parseAddress raw = some a ∧ ∀ c ∈ contract, c = a
  | .block f => f.modulo ≠ some 0 ∧ f.timestamp = none

structure SourceCompiles (p : Primitives) (s : Signatures) (ds : Sdk.DataSource) : Prop where
  options : ∀ key ∈ ds.options.keys, key = "address" ∨ key = "abi"
  address : ds.options.contains "address" = true →
    ∃ raw, ds.options.getStr "address" = some raw ∧ (p.parseAddress raw).isSome
  filters : ∀ handler ∈ ds.handlers, ∀ filter, handler.filter = some filter →
    Compiles p s (Project.contractOf p ds) filter

theorem supportedHandler_iff (hfits : HandlerFits .evm handler)
    (hkind : handler.kind ∈ LoadedProject.handlerKinds) :
    Project.SupportedHandler p s contract handler ↔
      ∀ filter, handler.filter = some filter → Compiles p s contract filter := by
  simp only [LoadedProject.handlerKinds, List.mem_cons, List.not_mem_nil, or_false] at hkind
  rw [Project.SupportedHandler]
  cases hfilter : handler.filter with
  | none =>
    refine iff_of_true ?_ fun _ h => (by cases h)
    exact hkind.imp (fun h => ⟨h, .inl rfl⟩)
      (Or.imp (fun h => ⟨h, .inl rfl⟩) fun h => ⟨h, .inl rfl⟩)
  | some filter =>
    have hshape := hfits.shape filter hfilter
    simp only [Option.some.injEq, forall_eq']
    rcases hkind with h | h | h
    · rw [h] at hshape ⊢
      cases filter with
      | log f => simp [Project.SupportedLog, Compiles]
      | transaction f => exact (hshape "LogHandler" (by simp [foreignKinds]) (by decide)).elim
      | block f => exact (hshape "LogHandler" (by simp [foreignKinds]) (by decide)).elim
    · rw [h] at hshape ⊢
      cases filter with
      | log f => exact (hshape "TransactionHandler" (by simp [foreignKinds]) (by decide)).elim
      | transaction f => simp [Project.SupportedTransaction, Compiles]
      | block f => exact (hshape "TransactionHandler" (by simp [foreignKinds]) (by decide)).elim
    · rw [h] at hshape ⊢
      cases filter with
      | log f => exact (hshape "BlockHandler" (by simp [foreignKinds]) (by decide)).elim
      | transaction f => exact (hshape "BlockHandler" (by simp [foreignKinds]) (by decide)).elim
      | block f => simp [Project.SupportedBlock, Compiles]

theorem loaded_project_compiles_iff (p : Primitives) (s : Signatures) (hhex : LowerHex p s)
    (files : Files) (parse : String → Except String Manifest) (isSemver : String → Bool)
    (sha256 : List UInt8 → List UInt8)
    (toVec : ProjectManifest Manifest ManifestSource → Except String Bytes) (directory : String)
    (project : LoadedProject)
    (h : LoadedProject.load files parse isSemver sha256 toVec directory = .ok project) :
    (∃ hs, Project.prepareHandlers p s project.manifest.project = .ok hs) ↔
      ∀ ds ∈ project.manifest.dataSources, SourceCompiles p s ds.toDataSource := by
  have hloaded := LoadedProject.load_loaded h
  rw [Project.prepareHandlers_accepts hhex]
  have hsources : ∀ ds ∈ project.manifest.dataSources,
      (Project.SupportedSource p s ds.toDataSource ↔ SourceCompiles p s ds.toDataSource) := by
    intro ds hds
    have hfits := hloaded.valid.fits ds hds
    obtain ⟨-, hkinds⟩ := hloaded.kinds ds hds
    have hhandlers : ∀ handler ∈ ds.handlers,
        (Project.SupportedHandler p s (Project.contractOf p ds.toDataSource) handler ↔
          ∀ filter, handler.filter = some filter →
            Compiles p s (Project.contractOf p ds.toDataSource) filter) := fun handler hhandler =>
      supportedHandler_iff (hloaded.valid.family ▸ hfits.fits handler hhandler)
        (hkinds handler hhandler)
    constructor
    · intro hs
      exact ⟨hs.options, hs.address, fun handler hhandler =>
        (hhandlers handler hhandler).mp (hs.handlers handler hhandler)⟩
    · intro hs
      exact ⟨hs.options, hs.address, fun handler hhandler =>
        (hhandlers handler hhandler).mpr (hs.filters handler hhandler)⟩
  constructor
  · intro hall ds hds
    exact (hsources ds hds).mp (hall _ (List.mem_map_of_mem hds))
  · intro hall ds hds
    obtain ⟨source, hsource, rfl⟩ := List.mem_map.mp hds
    exact (hsources source hsource).mpr (hall source hsource)

def erc20Manifest : Manifest where
  name := "erc20-transfers"
  version := "0.1.0"
  network := ⟨.evm, "1", ["https://ethereum-rpc.publicnode.com/"]⟩
  schemaFile := "./schema.graphql"
  startBlock := some 21000000
  dataSources := [{ Project.usdcSource with
    kind := "evm/Runtime"
    name := some "usdc"
    assets := [(⟨"erc20Abi", by decide⟩, "./abis/ERC20.json")]
    sorted := List.pairwise_singleton _ _ }]

def erc20Schema : String := "type Transfer @entity \x7b id: ID! \x7d"

def erc20Yaml : String :=
  "specVersion: \"1.0\"\nname: erc20-transfers\nversion: \"0.1.0\"\n" ++
    "network:\n  family: evm\n  chainId: \"1\"\n" ++
    "  endpoint:\n    - \"https://ethereum-rpc.publicnode.com\"\n" ++
    "startBlock: 21000000\nschema:\n  file: \"./schema.graphql\"\n" ++
    "dataSources:\n  - kind: evm/Runtime\n    name: usdc\n" ++
    "    options:\n      address: \"" ++ Evm.usdc ++ "\"\n" ++
    "    assets:\n      erc20Abi:\n        file: \"./abis/ERC20.json\"\n" ++
    "    handlers:\n      - handler: handle_transfer\n        kind: evm/LogHandler\n" ++
    "        filter:\n          event: \"Transfer(address,address,uint256)\"\n"

def erc20Json : Bytes := .ofString
  ("\x7b\"specVersion\":\"1.0\",\"name\":\"erc20-transfers\",\"version\":\"0.1.0\"," ++
    "\"network\":\x7b\"family\":\"evm\",\"chainId\":\"1\"," ++
    "\"endpoint\":[\"https://ethereum-rpc.publicnode.com/\"]\x7d," ++
    "\"schema\":\x7b\"file\":\"./schema.graphql\"\x7d,\"startBlock\":21000000," ++
    "\"dataSources\":[\x7b\"kind\":\"evm/Runtime\",\"name\":\"usdc\"," ++
    "\"options\":\x7b\"address\":\"" ++ Evm.usdc ++ "\"\x7d," ++
    "\"assets\":\x7b\"erc20Abi\":\x7b\"file\":\"./abis/ERC20.json\"\x7d\x7d," ++
    "\"handlers\":[\x7b\"handler\":\"handle_transfer\",\"kind\":\"evm/LogHandler\"," ++
    "\"filter\":\x7b\"event\":\"Transfer(address,address,uint256)\"\x7d\x7d]\x7d]\x7d")
  (by decide +kernel)

def erc20Digest : List UInt8 := [
  0x4d, 0x87, 0xea, 0x5e, 0xcd, 0x33, 0x4a, 0x3c, 0xee, 0xc6, 0x5c, 0x97, 0xff, 0x77, 0x8b, 0x3a,
  0xe8, 0x5e, 0x5f, 0x1c, 0x4e, 0xa0, 0xd9, 0x1f, 0x87, 0x86, 0x42, 0x74, 0x4a, 0x5f, 0xdb, 0xc9]

def erc20Files : Files where
  canonicalize directory := if directory = "sdk-erc20" then .ok ["sdk-erc20"] else .error "not found"
  isFile path := path == ["sdk-erc20", "project.yaml"]
  readToString _ := .ok erc20Yaml
  isAbsolute _ := false
  resolve root relative := if relative = "./schema.graphql" then .ok (root ++ ["schema.graphql"])
    else if relative = "./abis/ERC20.json" then .ok (root ++ ["abis", "ERC20.json"])
    else .error "not found"
  read path := if path = ["sdk-erc20", "schema.graphql"] then
      .ok (.ofString erc20Schema (by decide))
    else .ok (.ofString "[\x7b\"type\":\"event\"\x7d]" (by decide))

def parseErc20 (source : String) : Except String Manifest :=
  if source = erc20Yaml then .ok erc20Manifest else .error "invalid manifest"

def loadErc20 : Except String LoadedProject :=
  LoadedProject.load erc20Files parseErc20 (fun _ => true) (fun _ => erc20Digest)
    (fun _ => .ok erc20Json) "sdk-erc20"

def erc20Loaded : LoadedProject :=
  ⟨erc20Manifest, ["sdk-erc20"], lowerHex erc20Digest, erc20Schema⟩

theorem erc20_loads : loadErc20 = .ok erc20Loaded := by
  have hreport : (Validate.validate (fun _ => true) none erc20Manifest).hasErrors = false := by
    decide
  have hsources : erc20Manifest.dataSources.mapM (LoadedProject.checkSource erc20Files
      ["sdk-erc20"]) = .ok [()] := by
    rfl
  have hschema : LoadedProject.readInput erc20Files ["sdk-erc20"] "./schema.graphql" =
      .ok (.ofString erc20Schema (by decide)) := by
    rfl
  have hutf8 : String.fromUTF8? ⟨erc20Schema.toByteArray.data.toList.toArray⟩ =
      some erc20Schema := by
    rfl
  have hdigest : Config.fingerprint (fun _ => erc20Digest) (fun _ => .ok erc20Json)
      (LoadedProject.readInput erc20Files ["sdk-erc20"]) erc20Manifest.inputs =
        .ok (lowerHex erc20Digest) := by
    rfl
  refine bind_eq_ok.mpr ⟨["sdk-erc20"], rfl, bind_eq_ok.mpr ⟨_, rfl, ?_⟩⟩
  refine bind_eq_ok.mpr ⟨erc20Yaml, rfl, bind_eq_ok.mpr ⟨erc20Manifest, if_pos rfl, ?_⟩⟩
  refine bind_eq_ok.mpr ⟨(), ensure_eq_ok.mpr (congrArg not hreport), ?_⟩
  refine bind_eq_ok.mpr ⟨_, hsources, bind_eq_ok.mpr ⟨_, hschema, ?_⟩⟩
  refine bind_eq_ok.mpr ⟨erc20Schema, okOr_eq_ok.mpr hutf8, ?_⟩
  exact bind_eq_ok.mpr ⟨_, hdigest, rfl⟩

theorem erc20_project_compiles : ∃ hs,
    Project.prepareHandlers Project.hexPrimitives Project.erc20Signatures erc20Manifest.project =
      .ok hs := by
  refine (loaded_project_compiles_iff _ _ Project.hexPrimitives_lowerHex _ _ _ _ _ _ _
    erc20_loads).mpr fun ds hds => ?_
  cases List.mem_singleton.mp hds
  refine ⟨by decide, fun _ => ⟨Evm.usdc, rfl, by decide⟩, fun handler hhandler filter hfilter => ?_⟩
  cases List.mem_singleton.mp hhandler
  cases hfilter
  exact ⟨rfl, by decide, by decide⟩

end Compile

section Erc20

def erc20Parser : GraphqlParser where
  parseSchema sdl :=
    if sdl = erc20Schema then
      .ok [.object ⟨"Transfer", ["entity"], [⟨"id", .nonNull (.named "ID")⟩]⟩]
    else .error "unexpected token"
  names := by
    intro sdl doc obj hdoc hobj
    split_ifs at hdoc
    cases hdoc
    cases List.mem_singleton.mp hobj
    decide

def erc20Script : RpcClient.Script Unit := fun _ c =>
  if c.method = "eth_chainId" then .value (.string "0x1")
  else if c.method = "eth_blockNumber" then .value (.string "0x2")
  else if c.method = "eth_getLogs" then
    .value (.array [EvmAdapter.fixtureLog "0x1", EvmAdapter.fixtureLog "0x0"])
  else .value EvmAdapter.fixtureBlock

def erc20Env : Environment Unit Unit where
  primitives := Project.hexPrimitives
  signatures := Project.erc20Signatures
  files := erc20Files
  pathExists _ := true
  isDir _ := true
  parse := parseErc20
  isSemver _ := true
  sha256 _ := erc20Digest
  toVec _ := .ok erc20Json
  parser := erc20Parser
  connect _ := .ok ()
  script := erc20Script
  database := .ok ()
  parallelism := 1

def erc20Config : NodeConfig where
  project := "sdk-erc20"
  databaseUrl := none
  rpcUrls := []
  ingestOnly := true
  startHeight := some 2
  endHeight := some 2
  batchSize := 50
  maxInFlight := 10
  rpcTimeoutSecs := 30
  rpcMaxRetries := 5
  queueCapacity := 100
  workers := none
  historical := .height
  queryLimit := 100
  unfinalizedBlocks := false
  finalityConfirmations := 64
  mappingFuel := 1000
  mappingTimeoutMs := 1000
  mappingMemoryMb := 64

def erc20Client : RpcClient Unit := ⟨[()], 1, 5, 30, by decide, by decide⟩

def erc20Range : EffectiveRange where
  start := 2
  stop := some 2
  start_le := by decide
  ordered := by decide
  stop_le := by decide

theorem erc20_starts : ∃ hs, main erc20Env erc20Config = .ok ⟨erc20Client, hs, erc20Loaded, (),
    erc20Manifest.network.endpoint, erc20Range, by rfl⟩ := by
  obtain ⟨hs, hhs⟩ := erc20_project_compiles
  refine ⟨hs, ?_⟩
  refine bind_eq_ok.mpr ⟨(), by decide, bind_eq_ok.mpr ⟨(), rfl, ?_⟩⟩
  refine bind_eq_ok.mpr ⟨(), rfl, bind_eq_ok.mpr ⟨erc20Loaded, mapError_eq_ok.mpr erc20_loads, ?_⟩⟩
  refine bind_eq_ok.mpr ⟨_, mapError_eq_ok.mpr rfl, bind_eq_ok.mpr ⟨(), rfl, ?_⟩⟩
  refine bind_eq_ok.mpr ⟨hs, mapError_eq_ok.mpr hhs, bind_eq_ok.mpr ⟨erc20Range, rfl, ?_⟩⟩
  refine bind_eq_ok.mpr ⟨⟨erc20Client, rfl⟩, mapError_eq_ok.mpr rfl, ?_⟩
  exact bind_eq_ok.mpr ⟨(), rfl, rfl⟩

end Erc20

end SuperqueryNode.Node

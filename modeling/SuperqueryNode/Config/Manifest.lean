import SuperqueryNode.Config.Project
import SuperqueryNode.Sdk.Manifest

namespace SuperqueryNode.Config
open Radix

inductive ChainFamily where
  | evm
  | stellar
  | solana
deriving DecidableEq, Repr

namespace ChainFamily

def asStr : ChainFamily → String
  | evm => "evm"
  | stellar => "stellar"
  | solana => "solana"

def kindPrefix (family : ChainFamily) : String := family.asStr

def isImplemented : ChainFamily → Bool
  | evm => true
  | _ => false

end ChainFamily

namespace Kind

def splitOnce (kind : String) : Option (String × String) :=
  match kind.toList.span fun c => c ≠ '/' with
  | (before, _ :: after) => some (String.ofList before, String.ofList after)
  | (_, []) => none

def familyPrefix (kind : String) : Option String := (splitOnce kind).map (·.1)

def suffix (kind : String) : Option String := (splitOnce kind).map (·.2)

def belongsTo (kind : String) (family : ChainFamily) : Bool :=
  familyPrefix kind == some family.kindPrefix

end Kind

structure NetworkConfig where
  family : ChainFamily
  chainId : String
  endpoint : List String
deriving DecidableEq, Repr

-- A datasource with the fields that validation and the fingerprint read.
structure ManifestSource extends Sdk.DataSource where
  kind : String
  name : Option String
  assets : List (AssetName × String)
  sorted : assets.Pairwise fun a b => a.1.text < b.1.text

structure Manifest where
  name : String
  version : String
  network : NetworkConfig
  schemaFile : String
  startBlock : Option Nat
  dataSources : List ManifestSource

namespace Manifest

def project (m : Manifest) : Sdk.ProjectManifest :=
  ⟨m.startBlock, m.dataSources.map (·.toDataSource)⟩

def inputs (m : Manifest) : ProjectManifest Manifest ManifestSource :=
  ⟨m, m.schemaFile, m.dataSources.map fun ds => ⟨ds, ds.assets, ds.sorted⟩⟩

def effectiveStartBlock (m : Manifest) (ds : ManifestSource) : Nat :=
  (ds.startBlock.or m.startBlock).getD 0

def minStartBlock (m : Manifest) : Nat :=
  (m.dataSources.map m.effectiveStartBlock).min?.getD (m.startBlock.getD 0)

end Manifest

structure InvalidProjectId where
  found : String
  reason : String
deriving DecidableEq, Repr

namespace ProjectId

def maxLen : Nat := 48

def new (name : String) : Except InvalidProjectId String :=
  if name.isEmpty then .error ⟨name, "must not be empty"⟩
  else if maxLen < name.utf8ByteSize then .error ⟨name, "must be at most 48 characters"⟩
  else if !(name.toList.head?.any Char.isLower) then
    .error ⟨name, "must start with a lowercase letter"⟩
  else if name.toList.getLast? = some '-' then .error ⟨name, "must not end with `-`"⟩
  else if !(name.toList.all fun c => c.isLower || c.isDigit || c == '-') then
    .error ⟨name, "may only contain lowercase letters, digits and `-`"⟩
  else .ok name

end ProjectId

inductive Severity where
  | error
  | warning
deriving DecidableEq, Repr

structure Diagnostic where
  field : String
  message : String
  help : Option String
  severity : Severity
deriving DecidableEq, Repr

namespace Diagnostic

def error (field message : String) : Diagnostic := ⟨field, message, none, .error⟩

def warning (field message : String) : Diagnostic := ⟨field, message, none, .warning⟩

def withHelp (d : Diagnostic) (help : String) : Diagnostic := { d with help := some help }

end Diagnostic

structure ValidationReport where
  diagnostics : List Diagnostic

namespace ValidationReport

def errors (report : ValidationReport) : List Diagnostic :=
  report.diagnostics.filter fun d => d.severity = .error

def hasErrors (report : ValidationReport) : Bool := !report.errors.isEmpty

end ValidationReport

-- Unicode's `White_Space`, which `str::trim` removes.
def isWhitespace (c : Char) : Bool :=
  let n := c.toNat
  (9 ≤ n && n ≤ 13) || n == 0x20 || n == 0x85 || n == 0xa0 || n == 0x1680 ||
    (0x2000 ≤ n && n ≤ 0x200a) || n == 0x2028 || n == 0x2029 || n == 0x202f || n == 0x205f ||
    n == 0x3000

def blank (s : String) : Bool := s.toList.all isWhitespace

inductive FilterShape where
  | log
  | transaction
  | block
deriving DecidableEq, Repr

namespace FilterShape

def asStr : FilterShape → String
  | log => "log"
  | transaction => "transaction"
  | block => "block"

def endsWith (s ending : String) : Bool := ending.toList.isSuffixOf s.toList

def expected (suffix : String) : Option FilterShape :=
  if endsWith suffix "LogHandler" || endsWith suffix "EventHandler" then some log
  else if endsWith suffix "TransactionHandler" || endsWith suffix "CallHandler" then
    some transaction
  else if endsWith suffix "BlockHandler" then some block
  else none

def actual : Sdk.HandlerFilter → FilterShape
  | .log _ => log
  | .transaction _ => transaction
  | .block _ => block

def describe : Sdk.HandlerFilter → String
  | .log _ => "log filter (`event`)"
  | .transaction _ => "transaction filter (`function`)"
  | .block _ => "block filter (`modulo`/`timestamp`)"

end FilterShape

namespace Validate
variable (isSemver : String → Bool) (base : Option (String → Bool)) (m : Manifest)

def checkIdentity : List Diagnostic :=
  (match ProjectId.new m.name with
    | .error e => [(Diagnostic.error "name" e.reason).withHelp
        ("the project name becomes a directory, a database schema and a URL segment, " ++
          "so it is restricted to lowercase letters, digits and `-`")]
    | .ok _ => []) ++
  (if isSemver m.version then []
    else [(Diagnostic.warning "version" s!"`{m.version}` is not a semver version").withHelp
      "use a version like `0.1.0` so tooling can order releases"])

def checkNetwork : List Diagnostic :=
  (if m.network.family.isImplemented then []
    else [(Diagnostic.error "network.family"
      s!"chain family `{m.network.family.asStr}` is not implemented in this SDK build").withHelp
      "only `evm` is supported today; Stellar and Solana land in Milestone 12"]) ++
  (if blank m.network.chainId then
      [(Diagnostic.error "network.chainId" "must not be empty").withHelp
        "for EVM this is the numeric chain id, e.g. \"1\" for Ethereum mainnet"]
    else if m.network.family = .evm ∧ fromStrRadix 64 10 m.network.chainId = none then
      [(Diagnostic.error "network.chainId"
        s!"`{m.network.chainId}` is not a numeric EVM chain id").withHelp
        "EVM chain ids are decimal numbers written as strings, e.g. \"1\""]
    else []) ++
  (if m.network.endpoint.isEmpty then
      [(Diagnostic.warning "network.endpoint" "no RPC endpoint declared").withHelp
        "the node will need one supplied at run time to index this project"]
    else [])

def missingFile (isFile : String → Bool) (field file help : String) : List Diagnostic :=
  if isFile file then []
  else [(Diagnostic.error field s!"`{file}` does not exist").withHelp help]

def checkSchema : List Diagnostic :=
  match base with
  | none => []
  | some isFile => missingFile isFile "schema.file" m.schemaFile
      "create the GraphQL entity schema, or fix the path"

def checkFilterShape (handler : Sdk.Handler) (field : String) : List Diagnostic :=
  match handler.filter, (Kind.suffix handler.kind).bind FilterShape.expected with
  | some filter, some expected =>
    if expected ≠ FilterShape.actual filter then
      [(Diagnostic.error field
        (s!"handler kind `{handler.kind}` expects a {expected.asStr} filter, " ++
          s!"but found a {FilterShape.describe filter}")).withHelp
        "a mismatched filter never matches, so the handler would never run"]
    else []
  | _, _ => []

def wrongKind (family : ChainFamily) (field kind what : String) : Diagnostic :=
  (Diagnostic.error field s!"`{kind}` is not a `{family.asStr}` {what} kind").withHelp
    s!"expected a kind prefixed `{family.kindPrefix}/`"

def checkHandlerName (seen : List String) (handler : Sdk.Handler) (field : String) :
    List Diagnostic :=
  if blank handler.handler then [Diagnostic.error field "handler name must not be empty"]
  else if handler.handler ∈ seen then
    [(Diagnostic.warning field
      s!"`{handler.handler}` is referenced by more than one handler entry").withHelp
      "this is legal, but usually means a copy/paste slip"]
  else []

def checkHandlerKind (family : ChainFamily) (handler : Sdk.Handler) (kindField filterField : String) :
    List Diagnostic :=
  if !Kind.belongsTo handler.kind family then
    [wrongKind family kindField handler.kind "handler"]
  else checkFilterShape handler filterField

def sourceField (i : Nat) (suffix : String) : String := s!"dataSources[{i}]{suffix}"

def handlerField (i j : Nat) (suffix : String) : String :=
  s!"dataSources[{i}].handlers[{j}]{suffix}"

def seeHandler (seen : List String) (handler : Sdk.Handler) : List String :=
  if blank handler.handler then seen else handler.handler :: seen

def checkHandlers (family : ChainFamily) (i : Nat) :
    Nat → List String → List Sdk.Handler → List Diagnostic
  | _, _, [] => []
  | j, seen, handler :: rest =>
    checkHandlerName seen handler (handlerField i j ".handler") ++
      checkHandlerKind family handler (handlerField i j ".kind") (handlerField i j ".filter") ++
      checkHandlers family i (j + 1) (seeHandler seen handler) rest

def checkSourceName (seen : List String) (ds : ManifestSource) (field : String) :
    List Diagnostic :=
  match ds.name with
  | none => []
  | some name =>
    if name ∈ seen then
      [(Diagnostic.error field s!"duplicate datasource name `{name}`").withHelp
        "datasource names must be unique within a project"]
    else []

def checkRange (ds : ManifestSource) (field : String) : List Diagnostic :=
  match ds.endBlock with
  | none => []
  | some stop =>
    if stop < m.effectiveStartBlock ds then
      [Diagnostic.error field s!"endBlock {stop} is before startBlock {m.effectiveStartBlock ds}"]
    else []

def assetField (i : Nat) (name : String) : String := sourceField i s!".assets.{name}.file"

def checkAssets (i : Nat) (ds : ManifestSource) : List Diagnostic :=
  match base with
  | none => []
  | some isFile => ds.assets.flatMap fun asset =>
      missingFile isFile (assetField i asset.1.text) asset.2
        "check the path, or run `superquery codegen` after adding the file"

def checkDataSource (i : Nat) (seenNames seenHandlers : List String) (ds : ManifestSource) :
    List Diagnostic :=
  checkSourceName seenNames ds (sourceField i ".name") ++
    (if !Kind.belongsTo ds.kind m.network.family then
        [wrongKind m.network.family (sourceField i ".kind") ds.kind "datasource"]
      else []) ++
    checkRange m ds (sourceField i ".endBlock") ++ checkAssets base i ds ++
    (if ds.handlers.isEmpty then
        [(Diagnostic.error (sourceField i ".handlers")
          "a datasource must declare at least one handler").withHelp
          "without a handler this datasource would index nothing"]
      else []) ++
    checkHandlers m.network.family i 0 seenHandlers ds.handlers

def seeName (seen : List String) (ds : ManifestSource) : List String := ds.name.toList ++ seen

def checkSources : Nat → List String → List String → List ManifestSource → List Diagnostic
  | _, _, _, [] => []
  | i, seenNames, seenHandlers, ds :: rest =>
    checkDataSource base m i seenNames seenHandlers ds ++
      checkSources (i + 1) (seeName seenNames ds) (ds.handlers.foldl seeHandler seenHandlers) rest

def checkDataSources : List Diagnostic :=
  if m.dataSources.isEmpty then
    [(Diagnostic.error "dataSources" "a project must declare at least one datasource").withHelp
      "add an entry describing the contract or blocks to index"]
  else checkSources base m 0 [] [] m.dataSources

def validate : ValidationReport :=
  ⟨checkIdentity isSemver m ++ checkNetwork m ++ checkSchema base m ++ checkDataSources base m⟩

end Validate

end SuperqueryNode.Config

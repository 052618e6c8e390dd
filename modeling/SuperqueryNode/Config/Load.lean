import SuperqueryNode.Config.Validate

namespace SuperqueryNode.Config
open Fallible

-- What loading asks of the operating system; a canonical path is a list of components.
structure Files where
  canonicalize : String → Except String (List String)
  isFile : List String → Bool
  readToString : List String → Except String String
  isAbsolute : String → Bool
  resolve : List String → String → Except String (List String)
  read : List String → Except String Bytes

structure LoadedProject where
  manifest : Manifest
  root : List String
  fingerprint : String
  schema : String

namespace LoadedProject
variable (files : Files) (parse : String → Except String Manifest) (isSemver : String → Bool)
  (sha256 : List UInt8 → List UInt8)
  (toVec : ProjectManifest Manifest ManifestSource → Except String Bytes)

def readInput (root : List String) (relative : String) : Except String Bytes := do
  ensure (!files.isAbsolute relative) "project input paths must be relative"
  let path ← (files.resolve root relative).mapError fun e => s!"input {relative}: {e}"
  ensure (root.isPrefixOf path) s!"input {relative} escapes project directory"
  (files.read path).mapError fun e => s!"input {relative}: {e}"

def candidates (root : List String) : List (List String) :=
  (["project.yaml", "project.yml"].map fun name => root ++ [name]).filter files.isFile

def onlyCandidate (root : List String) : Except String (List String) :=
  match candidates files root with
  | [path] => .ok path
  | _ => .error "project must contain exactly one project.yaml or project.yml"

def describe (d : Diagnostic) : String := s!"{d.field}: {d.message}"

def handlerKinds : List String := ["evm/LogHandler", "evm/TransactionHandler", "evm/BlockHandler"]

def checkHandlerKind (handler : Sdk.Handler) : Except String Unit :=
  ensure (handlerKinds.contains handler.kind) s!"unsupported handler kind: {handler.kind}"

def checkSource (root : List String) (ds : ManifestSource) : Except String Unit := do
  ensure (ds.kind == "evm/Runtime") s!"unsupported datasource kind: {ds.kind}"
  let _ ← ds.handlers.mapM checkHandlerKind
  let _ ← ds.assets.mapM fun asset => readInput files root asset.2
  return ()

def load (directory : String) : Except String LoadedProject := do
  let root ← (files.canonicalize directory).mapError fun e => s!"project directory: {e}"
  let path ← onlyCandidate files root
  let source ← (files.readToString path).mapError fun e => s!"manifest: {e}"
  let manifest ← parse source
  let report := Validate.validate isSemver none manifest
  ensure (!report.hasErrors) ("; ".intercalate (report.errors.map describe))
  let _ ← manifest.dataSources.mapM (checkSource files root)
  let bytes ← readInput files root manifest.schemaFile
  let schema ← okOr (String.fromUTF8? ⟨bytes.bytes.toArray⟩) "schema must be UTF-8"
  let digest ← Config.fingerprint sha256 toVec (readInput files root) manifest.inputs
  return ⟨manifest, root, digest, schema⟩

variable {files parse isSemver sha256 toVec}

structure Loaded (files : Files) (sha256 : List UInt8 → List UInt8)
    (toVec : ProjectManifest Manifest ManifestSource → Except String Bytes) (p : LoadedProject) :
    Prop where
  valid : Valid none p.manifest
  kinds : ∀ ds ∈ p.manifest.dataSources, ds.kind = "evm/Runtime" ∧
    ∀ handler ∈ ds.handlers, handler.kind ∈ handlerKinds
  inside : ∀ file, (file = p.manifest.schemaFile ∨
      ∃ ds ∈ p.manifest.dataSources, ∃ asset ∈ ds.assets, file = asset.2) →
    ∃ path content, p.root <+: path ∧ files.resolve p.root file = .ok path ∧
      files.read path = .ok content
  digest : Config.fingerprint sha256 toVec (readInput files p.root) p.manifest.inputs = .ok p.fingerprint

theorem readInput_inside {root : List String} {relative : String} {bytes : Bytes}
    (h : readInput files root relative = .ok bytes) : ∃ path content, root <+: path ∧
      files.resolve root relative = .ok path ∧ files.read path = .ok content := by
  obtain ⟨_, _, h⟩ := bind_eq_ok.mp h
  obtain ⟨path, hpath, h⟩ := bind_eq_ok.mp h
  obtain ⟨_, hinside, h⟩ := bind_eq_ok.mp h
  exact ⟨path, bytes, List.isPrefixOf_iff_prefix.mp (ensure_eq_ok.mp hinside),
    mapError_eq_ok.mp hpath, mapError_eq_ok.mp h⟩

theorem checkSource_ok {root : List String} {ds : ManifestSource} {done : Unit}
    (h : checkSource files root ds = .ok done) : ds.kind = "evm/Runtime" ∧
      (∀ handler ∈ ds.handlers, handler.kind ∈ handlerKinds) ∧
        ∀ asset ∈ ds.assets, ∃ bytes, readInput files root asset.2 = .ok bytes := by
  obtain ⟨_, hkind, h⟩ := bind_eq_ok.mp h
  obtain ⟨_, hhandlers, h⟩ := bind_eq_ok.mp h
  obtain ⟨_, hassets, h⟩ := bind_eq_ok.mp h
  refine ⟨beq_iff_eq.mp (ensure_eq_ok.mp hkind), fun handler hhandler => ?_, fun asset hasset => ?_⟩
  · obtain ⟨_, _, hok⟩ := exists_right (mapM_eq_ok.mp hhandlers) hhandler
    exact List.contains_iff_mem.mp (ensure_eq_ok.mp hok)
  · obtain ⟨bytes, _, hbytes⟩ := exists_right (mapM_eq_ok.mp hassets) hasset
    exact ⟨bytes, hbytes⟩

theorem load_loaded {directory : String} {p : LoadedProject}
    (h : load files parse isSemver sha256 toVec directory = .ok p) :
    Loaded files sha256 toVec p := by
  obtain ⟨root, _, h⟩ := bind_eq_ok.mp h
  obtain ⟨path, _, h⟩ := bind_eq_ok.mp h
  obtain ⟨source, _, h⟩ := bind_eq_ok.mp h
  obtain ⟨manifest, _, h⟩ := bind_eq_ok.mp h
  obtain ⟨_, hreport, h⟩ := bind_eq_ok.mp h
  obtain ⟨_, hsources, h⟩ := bind_eq_ok.mp h
  obtain ⟨bytes, hbytes, h⟩ := bind_eq_ok.mp h
  obtain ⟨schema, _, h⟩ := bind_eq_ok.mp h
  obtain ⟨digest, hdigest, h⟩ := bind_eq_ok.mp h
  cases pure_eq_ok.mp h
  have hchecked : ∀ ds ∈ manifest.dataSources, ∃ done, checkSource files root ds = .ok done := by
    intro ds hds
    obtain ⟨done, _, hdone⟩ := exists_right (mapM_eq_ok.mp hsources) hds
    exact ⟨done, hdone⟩
  rw [ensure_eq_ok, Bool.not_eq_true'] at hreport
  refine ⟨Validate.hasErrors_validate.mp hreport, fun ds hds => ?_, ?_, hdigest⟩
  · obtain ⟨done, hdone⟩ := hchecked ds hds
    obtain ⟨hkind, hhandlers, -⟩ := checkSource_ok hdone
    exact ⟨hkind, hhandlers⟩
  · rintro file (rfl | ⟨ds, hds, asset, hasset, rfl⟩)
    · exact readInput_inside hbytes
    · obtain ⟨done, hdone⟩ := hchecked ds hds
      obtain ⟨-, -, hassets⟩ := checkSource_ok hdone
      obtain ⟨content, hcontent⟩ := hassets asset hasset
      exact readInput_inside hcontent

end LoadedProject
end SuperqueryNode.Config

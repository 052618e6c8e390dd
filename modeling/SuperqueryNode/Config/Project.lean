import SuperqueryNode.Lib.Fallible
import SuperqueryNode.Lib.Framing
import SuperqueryNode.Lib.Radix

namespace SuperqueryNode.Config
open Framing Fallible Radix

-- A byte slice: its length is a `usize`.
structure Bytes where
  bytes : List UInt8
  bounded : bytes.length < 256 ^ 8

def Bytes.ofString (s : String) (h : s.toByteArray.data.toList.length < 256 ^ 8) : Bytes :=
  ⟨s.toByteArray.data.toList, h⟩

structure AssetName where
  text : String
  bounded : text.toByteArray.data.toList.length < 256 ^ 8

def AssetName.asBytes (name : AssetName) : Bytes := .ofString name.text name.bounded

-- The assets of a datasource in the map's order; `D` and `M` hold the fields the fingerprint
-- reaches only through the serialized manifest.
structure DataSource (D : Type) where
  rest : D
  assets : List (AssetName × String)
  ascending : assets.Pairwise fun a b => a.1.text < b.1.text

structure ProjectManifest (M D : Type) where
  rest : M
  schemaFile : String
  dataSources : List (DataSource D)

section Fingerprint
variable {M D : Type}

def projectTag : Bytes := .ofString "superquery-project-v1" (by decide)

def add (hash : List UInt8) (slice : Bytes) : List UInt8 :=
  hash ++ bigEndian 8 slice.bytes.length ++ slice.bytes

def addAsset (readInput : String → Except String Bytes) (hash : List UInt8)
    (asset : AssetName × String) : Except String (List UInt8) := do
  let content ← readInput asset.2
  return add (add hash asset.1.asBytes) content

def addDataSource (readInput : String → Except String Bytes) (hash : List UInt8)
    (ds : DataSource D) : Except String (List UInt8) :=
  ds.assets.foldlM (addAsset readInput) hash

-- What `Sha256::update` has received when `finalize` is called.
def stream (toVec : ProjectManifest M D → Except String Bytes)
    (readInput : String → Except String Bytes) (manifest : ProjectManifest M D) :
    Except String (List UInt8) := do
  let hash := add [] projectTag
  let json ← toVec manifest
  let hash := add hash json
  let schema ← readInput manifest.schemaFile
  let hash := add hash schema
  manifest.dataSources.foldlM (addDataSource readInput) hash

def hexPair (b : UInt8) : List Char :=
  [Nat.digitChar (b.toNat / 16), Nat.digitChar (b.toNat % 16)]

def lowerHex (digest : List UInt8) : String := String.ofList (digest.flatMap hexPair)

def fingerprint (sha256 : List UInt8 → List UInt8)
    (toVec : ProjectManifest M D → Except String Bytes)
    (readInput : String → Except String Bytes) (manifest : ProjectManifest M D) :
    Except String String := do
  let hash ← stream toVec readInput manifest
  return lowerHex (sha256 hash)

end Fingerprint

section Frames

def chunk (slice : Bytes) : List UInt8 := bigEndian 8 slice.bytes.length ++ slice.bytes

theorem add_eq (hash : List UInt8) (slice : Bytes) : add hash slice = hash ++ chunk slice :=
  List.append_assoc _ _ _

theorem bytes_injective : Function.Injective Bytes.bytes := by
  rintro ⟨bytes, bounded⟩ ⟨bytes', bounded'⟩ h
  cases h
  rfl

theorem chunk_prefixFree : PrefixFree chunk :=
  prefixFree_lengthPrefixed (length_bigEndian 8)
    (fun _ _ hm hn h => bigEndian_injective 8 hm hn h) Bytes.bounded bytes_injective

theorem chunk_ne_nil (slice : Bytes) : chunk slice ≠ [] := by
  intro h
  have hlength := congrArg List.length h
  rw [chunk, List.length_append, length_bigEndian] at hlength
  simp only [List.length_nil] at hlength
  omega

theorem asBytes_injective : Function.Injective AssetName.asBytes := by
  rintro ⟨text, bounded⟩ ⟨text', bounded'⟩ h
  have hdata : text.toByteArray.data.toList = text'.toByteArray.data.toList :=
    congrArg Bytes.bytes h
  have htext : text = text' := by
    rw [Array.toList_inj, ← ByteArray.ext_iff, String.toByteArray_inj] at hdata
    exact hdata
  cases htext
  rfl

def assetChunks (asset : AssetName × Bytes) : List Bytes := [asset.1.asBytes, asset.2]

theorem assetChunks_injective :
    Function.Injective fun assets : List (AssetName × Bytes) => assets.flatMap assetChunks := by
  have hlength : ∀ asset, (assetChunks asset).length = 2 := fun _ => rfl
  refine PrefixFree.flatMap_injective (prefixFree_of_length hlength ?_) fun _ h => (by cases h)
  rintro ⟨name, content⟩ ⟨name', content'⟩ h
  simp only [assetChunks, List.cons.injEq, and_true] at h
  obtain ⟨hname, rfl⟩ := h
  rw [asBytes_injective hname]

end Frames

section Stream
variable {M D : Type} {toVec : ProjectManifest M D → Except String Bytes}
  {readInput : String → Except String Bytes} {manifest : ProjectManifest M D}

def readAsset (readInput : String → Except String Bytes) (asset : AssetName × String) :
    Except String (AssetName × Bytes) := do
  let content ← readInput asset.2
  return (asset.1, content)

def namedAssets (readInput : String → Except String Bytes) (manifest : ProjectManifest M D) :
    Except String (List (AssetName × Bytes)) :=
  (manifest.dataSources.flatMap DataSource.assets).mapM (readAsset readInput)

theorem foldlM_addAsset {assets : List (AssetName × String)} {hash out : List UInt8}
    (h : assets.foldlM (addAsset readInput) hash = .ok out) :
    ∃ contents, assets.mapM (readAsset readInput) = .ok contents ∧
      out = hash ++ (contents.flatMap assetChunks).flatMap chunk := by
  induction assets generalizing hash with
  | nil =>
    cases pure_eq_ok.mp h
    exact ⟨[], rfl, (List.append_nil _).symm⟩
  | cons asset assets ih =>
    rw [List.foldlM_cons] at h
    obtain ⟨next, hnext, h⟩ := bind_eq_ok.mp h
    obtain ⟨content, hcontent, hadd⟩ := bind_eq_ok.mp hnext
    obtain ⟨contents, hcontents, rfl⟩ := ih h
    cases pure_eq_ok.mp hadd
    refine ⟨(asset.1, content) :: contents, ?_, ?_⟩
    · rw [List.mapM_cons]
      exact bind_eq_ok.mpr ⟨_, bind_eq_ok.mpr ⟨content, hcontent, rfl⟩,
        bind_eq_ok.mpr ⟨contents, hcontents, rfl⟩⟩
    · simp [add_eq, assetChunks, List.append_assoc]

theorem foldlM_addDataSource (dataSources : List (DataSource D)) (hash : List UInt8) :
    dataSources.foldlM (addDataSource readInput) hash =
      (dataSources.flatMap DataSource.assets).foldlM (addAsset readInput) hash := by
  induction dataSources generalizing hash with
  | nil => rfl
  | cons ds dataSources ih =>
    rw [List.foldlM_cons, List.flatMap_cons, List.foldlM_append]
    exact congrArg _ (funext ih)

structure Streamed (toVec : ProjectManifest M D → Except String Bytes)
    (readInput : String → Except String Bytes) (manifest : ProjectManifest M D)
    (json schema : Bytes) (contents : List (AssetName × Bytes)) : Prop where
  json : toVec manifest = .ok json
  schema : readInput manifest.schemaFile = .ok schema
  assets : namedAssets readInput manifest = .ok contents

theorem stream_ok {out : List UInt8} (h : stream toVec readInput manifest = .ok out) :
    ∃ json schema contents, Streamed toVec readInput manifest json schema contents ∧
      out = (projectTag :: json :: schema :: contents.flatMap assetChunks).flatMap chunk := by
  obtain ⟨json, hjson, h⟩ := bind_eq_ok.mp h
  obtain ⟨schema, hschema, h⟩ := bind_eq_ok.mp h
  rw [foldlM_addDataSource] at h
  obtain ⟨contents, hcontents, rfl⟩ := foldlM_addAsset h
  refine ⟨json, schema, contents, ⟨hjson, hschema, hcontents⟩, ?_⟩
  simp [add_eq, List.append_assoc]

theorem stream_injective {readInput' : String → Except String Bytes}
    {manifest' : ProjectManifest M D} {out : List UInt8}
    (h : stream toVec readInput manifest = .ok out)
    (h' : stream toVec readInput' manifest' = .ok out) :
    ∃ json schema contents, Streamed toVec readInput manifest json schema contents ∧
      Streamed toVec readInput' manifest' json schema contents := by
  obtain ⟨json, schema, contents, hstreamed, hout⟩ := stream_ok h
  obtain ⟨json', schema', contents', hstreamed', hout'⟩ := stream_ok h'
  have hframes := chunk_prefixFree.flatMap_injective chunk_ne_nil (hout.symm.trans hout')
  simp only [List.cons.injEq, true_and] at hframes
  obtain ⟨rfl, rfl, hassets⟩ := hframes
  cases assetChunks_injective hassets
  exact ⟨json, schema, contents, hstreamed, hstreamed'⟩

end Stream

section Digest

theorem digitChar_injective {d e : Nat} (hd : d < 16) (he : e < 16)
    (h : Nat.digitChar d = Nat.digitChar e) : d = e := by
  have hdigit : toDigit 16 (Nat.digitChar d) = some d := toDigit_digitChar Nat.le.refl hd
  rw [h, toDigit_digitChar Nat.le.refl he] at hdigit
  exact (Option.some.inj hdigit).symm

theorem hexPair_injective : Function.Injective hexPair := by
  intro a b h
  simp only [hexPair, List.cons.injEq, and_true] at h
  have ha := a.toNat_lt
  have hb := b.toNat_lt
  have hhigh := digitChar_injective (by omega) (by omega) h.1
  have hlow := digitChar_injective (by omega) (by omega) h.2
  exact UInt8.toNat_inj.mp (by omega)

theorem lowerHex_injective : Function.Injective lowerHex := by
  intro a b h
  have hlength : ∀ byte, (hexPair byte).length = 2 := fun _ => rfl
  exact (prefixFree_of_length hlength hexPair_injective).flatMap_injective
    (fun _ h => (by cases h)) (String.ofList_injective h)

end Digest

section Identity
variable {M D : Type} {toVec : ProjectManifest M D → Except String Bytes}

theorem same_asset {read read' : String → Except String Bytes}
    {assets : List (AssetName × String)} {contents : List (AssetName × Bytes)}
    (h : assets.mapM (readAsset read) = .ok contents)
    (h' : assets.mapM (readAsset read') = .ok contents) {asset : AssetName × String}
    (hmem : asset ∈ assets) :
    ∃ content, read asset.2 = .ok content ∧ read' asset.2 = .ok content := by
  induction assets generalizing contents with
  | nil => cases hmem
  | cons first assets ih =>
    rw [List.mapM_cons] at h h'
    obtain ⟨content, hcontent, h⟩ := bind_eq_ok.mp h
    obtain ⟨contents', hcontents, h⟩ := bind_eq_ok.mp h
    obtain ⟨other, hother, h'⟩ := bind_eq_ok.mp h'
    obtain ⟨others, hothers, h'⟩ := bind_eq_ok.mp h'
    cases pure_eq_ok.mp h
    cases pure_eq_ok.mp h'
    rcases List.mem_cons.mp hmem with rfl | hmem
    · obtain ⟨bytes, hbytes, hpair⟩ := bind_eq_ok.mp hcontent
      obtain ⟨bytes', hbytes', hpair'⟩ := bind_eq_ok.mp hother
      cases pure_eq_ok.mp hpair
      cases pure_eq_ok.mp hpair'
      exact ⟨bytes, hbytes, hbytes'⟩
    · exact ih hcontents hothers hmem

theorem fingerprint_distinguishes_inputs (sha256 : List UInt8 → List UInt8)
    (toVec : ProjectManifest M D → Except String Bytes) (manifest manifest' : ProjectManifest M D)
    (readInput readInput' : String → Except String Bytes) :
    (∀ out, stream toVec readInput manifest = .ok out → stream toVec readInput' manifest' = .ok out →
      ∃ json schema contents, Streamed toVec readInput manifest json schema contents ∧
        Streamed toVec readInput' manifest' json schema contents) ∧
    ((∀ json, toVec manifest = .ok json → toVec manifest' = .ok json → manifest = manifest') →
      (∀ out out', stream toVec readInput manifest = .ok out →
        stream toVec readInput' manifest' = .ok out' → sha256 out = sha256 out' → out = out') →
      ∀ digest, fingerprint sha256 toVec readInput manifest = .ok digest →
        fingerprint sha256 toVec readInput' manifest' = .ok digest →
        manifest = manifest' ∧
        (∃ schema, readInput manifest.schemaFile = .ok schema ∧
          readInput' manifest.schemaFile = .ok schema) ∧
        ∀ ds ∈ manifest.dataSources, ∀ asset ∈ ds.assets,
          ∃ content, readInput asset.2 = .ok content ∧ readInput' asset.2 = .ok content) := by
  refine ⟨fun out => stream_injective, fun hjson hcollision digest h h' => ?_⟩
  obtain ⟨out, hout, hdigest⟩ := bind_eq_ok.mp h
  obtain ⟨out', hout', hdigest'⟩ := bind_eq_ok.mp h'
  cases pure_eq_ok.mp hdigest
  have hsame : sha256 out' = sha256 out := lowerHex_injective (pure_eq_ok.mp hdigest')
  cases hcollision out out' hout hout' hsame.symm
  obtain ⟨json, schema, contents, hstreamed, hstreamed'⟩ := stream_injective hout hout'
  cases hjson json hstreamed.json hstreamed'.json
  refine ⟨rfl, ⟨schema, hstreamed.schema, hstreamed'.schema⟩, fun ds hds asset hasset => ?_⟩
  exact same_asset hstreamed.assets hstreamed'.assets (List.mem_flatMap.mpr ⟨ds, hds, hasset⟩)

def oneAssetManifest : ProjectManifest Unit Unit :=
  ⟨(), "s.graphql", [⟨(), [(⟨"erc20", by decide⟩, "a.json")], List.pairwise_singleton _ _⟩]⟩

def oneAssetJson : Bytes := .ofString
  ("\x7b\"specVersion\":\"1.0\",\"name\":\"app\"," ++
    "\"version\":\"1\"," ++
    "\"network\":\x7b\"family\":\"evm\",\"chainId\":\"1\",\"endpoint\":[]\x7d," ++
    "\"schema\":\x7b\"file\":\"s.graphql\"\x7d," ++
    "\"dataSources\":[\x7b\"kind\":\"evm/Runtime\"," ++
    "\"options\":\x7b\x7d,\"assets\":\x7b\"erc20\":\x7b\"file\":\"a.json\"\x7d\x7d,\"handlers\":[]\x7d]\x7d")
  (by decide +kernel)

def rootFiles (missing path : String) : Except String Bytes :=
  if path = "s.graphql" then .ok (.ofString "type T \x7b id: ID! \x7d" (by decide))
  else if path = "a.json" then .ok (.ofString "[]" (by decide))
  else .error missing

def oneAssetDigest : List UInt8 := [
  0x0e, 0xb5, 0xe2, 0x48, 0x53, 0xbe, 0x7c, 0x23, 0xc4, 0xc6, 0x51,
  0x6f, 0x46, 0xda, 0x40, 0x53, 0x44, 0x82, 0xe3, 0x24, 0x3f, 0xcf,
  0xa6, 0x5e, 0x01, 0x2a, 0xf6, 0xfd, 0xf5, 0x7c, 0x0f, 0x2d]

theorem same_fingerprint_same_asset :
    ∃ content, rootFiles "first" "a.json" = .ok content ∧ rootFiles "second" "a.json" = .ok content := by
  have h := (fingerprint_distinguishes_inputs (fun _ => oneAssetDigest) (fun _ => .ok oneAssetJson)
    oneAssetManifest oneAssetManifest (rootFiles "first") (rootFiles "second")).2
    (fun _ _ _ => rfl) (fun out out' hout hout' _ => Except.ok.inj (hout.symm.trans hout')) _ rfl rfl
  exact h.2.2 _ (List.mem_singleton_self _) _ (List.mem_singleton_self _)

end Identity
end SuperqueryNode.Config

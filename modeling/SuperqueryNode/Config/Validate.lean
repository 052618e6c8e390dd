import Mathlib.Data.List.TakeDrop
import SuperqueryNode.Lib.Ascii
import SuperqueryNode.Config.Manifest

namespace SuperqueryNode.Config
open Radix

def Clean (ds : List Diagnostic) : Prop := ∀ d ∈ ds, d.severity = .warning

section Clean
variable {ds es : List Diagnostic} {field message help : String}

@[simp] theorem clean_nil : Clean [] := fun _ h => by cases h

@[simp] theorem clean_append : Clean (ds ++ es) ↔ Clean ds ∧ Clean es := List.forall_mem_append

@[simp] theorem clean_warning : Clean [(Diagnostic.warning field message).withHelp help] :=
  fun _ h => List.mem_singleton.mp h ▸ rfl

@[simp] theorem not_clean_error : ¬Clean [(Diagnostic.error field message).withHelp help] :=
  fun h => by cases h _ (List.mem_singleton_self _)

@[simp] theorem not_clean_plain : ¬Clean [Diagnostic.error field message] :=
  fun h => by cases h _ (List.mem_singleton_self _)

theorem hasErrors_eq_false {report : ValidationReport} :
    report.hasErrors = false ↔ Clean report.diagnostics := by
  rw [ValidationReport.hasErrors, Bool.not_eq_false', List.isEmpty_iff, ValidationReport.errors,
    List.filter_eq_nil_iff]
  refine forall₂_congr fun d _ => ?_
  cases d.severity <;> decide

end Clean

-- A kind names its family before its first slash.
def KindOf (kind : String) : ChainFamily → Prop
  | .evm => "evm/".toList <+: kind.toList
  | .stellar => "stellar/".toList <+: kind.toList
  | .solana => "solana/".toList <+: kind.toList

-- The endings of the kinds whose handlers never run on such a filter.
def foreignKinds : Sdk.HandlerFilter → List String
  | .log _ => ["TransactionHandler", "CallHandler", "BlockHandler"]
  | .transaction _ => ["LogHandler", "EventHandler", "BlockHandler"]
  | .block _ => ["LogHandler", "EventHandler", "TransactionHandler", "CallHandler"]

structure HandlerFits (family : ChainFamily) (handler : Sdk.Handler) : Prop where
  named : ∃ c ∈ handler.handler.toList, isWhitespace c = false
  kind : KindOf handler.kind family
  shape : ∀ filter, handler.filter = some filter →
    ∀ ending ∈ foreignKinds filter, ¬ending.toList <:+ handler.kind.toList

structure SourceFits (base : Option (String → Bool)) (m : Manifest) (ds : ManifestSource) :
    Prop where
  kind : KindOf ds.kind m.network.family
  range : ∀ stop, ds.endBlock = some stop → m.effectiveStartBlock ds ≤ stop
  assets : ∀ isFile, base = some isFile → ∀ asset ∈ ds.assets, isFile asset.2 = true
  handlers : ds.handlers ≠ []
  fits : ∀ handler ∈ ds.handlers, HandlerFits m.network.family handler

structure ProjectName (name : String) : Prop where
  first : name.toList.head?.any Char.isLower = true
  letters : ∀ c ∈ name.toList, c.isLower = true ∨ c.isDigit = true ∨ c = '-'
  last : name.toList.getLast? ≠ some '-'
  length : name.toList.length ≤ 48

structure Valid (base : Option (String → Bool)) (m : Manifest) : Prop where
  name : ProjectName m.name
  family : m.network.family = .evm
  chainId : ∃ id, fromStrRadix 64 10 m.network.chainId = some id
  schema : ∀ isFile, base = some isFile → isFile m.schemaFile = true
  sources : m.dataSources ≠ []
  distinct : (m.dataSources.filterMap (·.name)).Nodup
  fits : ∀ ds ∈ m.dataSources, SourceFits base m ds

inductive Field (m : Manifest) : String → Prop
  | top {field : String} (h : field ∈ ["name", "version", "network.family", "network.chainId",
      "network.endpoint", "schema.file", "dataSources"]) : Field m field
  | source {i : Nat} {ds : ManifestSource} (h : m.dataSources[i]? = some ds) {suffix : String}
      (hs : suffix ∈ [".name", ".kind", ".endBlock", ".handlers"]) :
      Field m (Validate.sourceField i suffix)
  | asset {i : Nat} {ds : ManifestSource} (h : m.dataSources[i]? = some ds)
      {asset : AssetName × String} (ha : asset ∈ ds.assets) :
      Field m (Validate.assetField i asset.1.text)
  | handler {i j : Nat} {ds : ManifestSource} {handler : Sdk.Handler}
      (h : m.dataSources[i]? = some ds) (hj : ds.handlers[j]? = some handler) {suffix : String}
      (hs : suffix ∈ [".handler", ".kind", ".filter"]) :
      Field m (Validate.handlerField i j suffix)

namespace Validate
variable {isSemver : String → Bool} {base : Option (String → Bool)} {m : Manifest}
  {family : ChainFamily} {handler : Sdk.Handler} {i j : Nat} {field kindField : String}

section Handlers

theorem blank_eq_false {s : String} : blank s = false ↔ ∃ c ∈ s.toList, isWhitespace c = false := by
  rw [blank, List.all_eq_false]
  simp only [Bool.not_eq_true]

theorem splitOnce_slash {kind : String} {before after : List Char} (hbefore : '/' ∉ before)
    (h : kind.toList = before ++ '/' :: after) :
    Kind.splitOnce kind = some (String.ofList before, String.ofList after) := by
  have hall : ∀ c ∈ before, decide (c ≠ '/') = true := by
    intro c hc
    rw [decide_eq_true_eq]
    rintro rfl
    exact hbefore hc
  rw [Kind.splitOnce, h, List.span_eq_takeWhile_dropWhile, List.takeWhile_append_of_pos hall,
    List.dropWhile_append_of_pos hall]
  simp

theorem slash_splitOnce {kind before after : String}
    (h : Kind.splitOnce kind = some (before, after)) :
    kind.toList = before.toList ++ '/' :: after.toList := by
  rw [Kind.splitOnce, List.span_eq_takeWhile_dropWhile] at h
  have hsplit := List.takeWhile_append_dropWhile (p := fun c => decide (c ≠ '/')) (l := kind.toList)
  have hhead := List.head?_dropWhile_not (fun c => decide (c ≠ '/')) kind.toList
  cases hrest : kind.toList.dropWhile fun c => decide (c ≠ '/') with
  | nil =>
    rw [hrest] at h
    cases h
  | cons c rest =>
    rw [hrest] at h hsplit hhead
    cases h
    obtain rfl : c = '/' := by simpa using hhead
    simpa using hsplit.symm

theorem belongsTo_iff {kind : String} : Kind.belongsTo kind family = true ↔ KindOf kind family := by
  rw [Kind.belongsTo, Kind.familyPrefix, beq_iff_eq, Option.map_eq_some_iff]
  constructor
  · rintro ⟨⟨before, after⟩, hsplit, rfl⟩
    have hkind := slash_splitOnce hsplit
    cases family <;> exact ⟨after.toList, hkind.symm⟩
  · intro h
    cases family <;> obtain ⟨after, h⟩ := h <;>
      exact ⟨_, splitOnce_slash (by decide) h.symm, rfl⟩

theorem ending_suffix {kind before after : String} {ending : List Char} (hslash : '/' ∉ ending)
    (h : kind.toList = before.toList ++ '/' :: after.toList) :
    ending <:+ kind.toList ↔ ending <:+ after.toList := by
  rw [h]
  constructor
  · rintro ⟨rest, hrest⟩
    obtain ⟨more, -, hending⟩ | ⟨more, -, hending⟩ := List.append_eq_append_iff.mp hrest
    · exact absurd (hending ▸ List.mem_append_right _ List.mem_cons_self) hslash
    · cases more with
      | nil =>
        obtain rfl : '/' :: after.toList = ending := hending
        exact absurd List.mem_cons_self hslash
      | cons c more => exact ⟨more, (List.cons.inj hending).2.symm⟩
  · exact fun hafter => hafter.trans ⟨before.toList ++ ['/'], by simp⟩

theorem foreignKinds_plain (filter : Sdk.HandlerFilter) :
    ∀ ending ∈ foreignKinds filter, '/' ∉ ending.toList := by
  cases filter <;> simp only [foreignKinds] <;> decide

def handlerEndings : List String :=
  ["LogHandler", "EventHandler", "TransactionHandler", "CallHandler", "BlockHandler"]

-- No suffix ends in two of them, so the order of the comparisons does not matter.
theorem endings_apart {suffix : List Char} {e d : String} (he : e ∈ handlerEndings)
    (hd : d ∈ handlerEndings) (hne : e ≠ d) (hsuffix : e.toList <:+ suffix) :
    ¬d.toList <:+ suffix := by
  have hapart : ∀ e ∈ handlerEndings, ∀ d ∈ handlerEndings, e ≠ d → ¬e.toList <:+ d.toList := by
    decide
  intro hother
  rcases List.suffix_or_suffix_of_suffix hsuffix hother with h | h
  · exact hapart e he d hd hne h
  · exact hapart d hd e he hne.symm h

theorem expected_agrees {suffix : String} {filter : Sdk.HandlerFilter} :
    (∀ expected, FilterShape.expected suffix = some expected →
      expected = FilterShape.actual filter) ↔
    ∀ ending ∈ foreignKinds filter, ¬ending.toList <:+ suffix.toList := by
  have hends (ending : String) : ¬ending.toList <:+ suffix.toList ↔
      FilterShape.endsWith suffix ending = false := by
    rw [← List.isSuffixOf_iff_suffix, Bool.not_eq_true, FilterShape.endsWith]
  have hapart {e d : String} (he : e ∈ handlerEndings) (hd : d ∈ handlerEndings) (hne : e ≠ d)
      (h : FilterShape.endsWith suffix e = true) : FilterShape.endsWith suffix d = false :=
    (hends d).mp (endings_apart he hd hne (List.isSuffixOf_iff_suffix.mp h))
  simp only [hends]
  rw [FilterShape.expected]
  generalize FilterShape.endsWith suffix = ends at hapart
  have hlog : ends "LogHandler" = true ∨ ends "EventHandler" = true →
      ends "TransactionHandler" = false ∧ ends "CallHandler" = false ∧
        ends "BlockHandler" = false := by
    rintro (h | h) <;> exact ⟨hapart (by decide) (by decide) (by decide) h,
      hapart (by decide) (by decide) (by decide) h, hapart (by decide) (by decide) (by decide) h⟩
  have htransaction : ends "TransactionHandler" = true ∨ ends "CallHandler" = true →
      ends "BlockHandler" = false := by
    rintro (h | h) <;> exact hapart (by decide) (by decide) (by decide) h
  clear hapart hends
  cases filter <;> simp only [foreignKinds, FilterShape.actual, List.mem_cons, List.not_mem_nil,
    or_false, forall_eq_or_imp, forall_eq]
  all_goals split_ifs <;> grind

theorem clean_filterShape (hkind : KindOf handler.kind family) :
    Clean (checkFilterShape handler field) ↔ ∀ filter, handler.filter = some filter →
      ∀ ending ∈ foreignKinds filter, ¬ending.toList <:+ handler.kind.toList := by
  obtain ⟨⟨before, after⟩, hsplit, -⟩ :=
    Option.map_eq_some_iff.mp (beq_iff_eq.mp (belongsTo_iff.mpr hkind))
  have hsuffix : (Kind.suffix handler.kind).bind FilterShape.expected =
      FilterShape.expected after := by
    rw [Kind.suffix, hsplit]
    rfl
  have hending : ∀ filter, (∀ ending ∈ foreignKinds filter, ¬ending.toList <:+ handler.kind.toList) ↔
      ∀ ending ∈ foreignKinds filter, ¬ending.toList <:+ after.toList := by
    intro filter
    refine forall₂_congr fun ending hmem => not_congr (ending_suffix ?_ (slash_splitOnce hsplit))
    exact foreignKinds_plain filter ending hmem
  simp only [hending, ← expected_agrees]
  rw [checkFilterShape, hsuffix]
  split
  next filter expected hfilter hexpected =>
    rw [hfilter, hexpected]
    split_ifs with hne
    · refine iff_of_false not_clean_error fun h => hne (h _ rfl _ rfl)
    · refine iff_of_true clean_nil fun f hf e he => ?_
      cases hf
      cases he
      exact not_not.mp hne
  next hnone =>
    refine iff_of_true clean_nil fun f hf e he => ?_
    exact absurd he (hnone f e hf)

theorem clean_handlerName {seen : List String} :
    Clean (checkHandlerName seen handler field) ↔
      ∃ c ∈ handler.handler.toList, isWhitespace c = false := by
  rw [← blank_eq_false, checkHandlerName]
  split_ifs with hblank hseen <;> simp [hblank]

theorem clean_handlerKind :
    Clean (checkHandlerKind family handler kindField field) ↔ KindOf handler.kind family ∧
      ∀ filter, handler.filter = some filter →
        ∀ ending ∈ foreignKinds filter, ¬ending.toList <:+ handler.kind.toList := by
  rw [checkHandlerKind]
  by_cases hkind : KindOf handler.kind family
  · rw [belongsTo_iff.mpr hkind, and_iff_right hkind, ← clean_filterShape hkind]
    rfl
  · have hforeign : Kind.belongsTo handler.kind family = false :=
      Bool.eq_false_iff.mpr (mt belongsTo_iff.mp hkind)
    rw [hforeign]
    exact iff_of_false not_clean_error fun h => hkind h.1

theorem clean_handlers {seen : List String} {handlers : List Sdk.Handler} :
    Clean (checkHandlers family i j seen handlers) ↔
      ∀ handler ∈ handlers, HandlerFits family handler := by
  induction handlers generalizing j seen with
  | nil => simp [checkHandlers]
  | cons handler rest ih =>
    rw [checkHandlers, clean_append, clean_append, ih, List.forall_mem_cons, clean_handlerName,
      clean_handlerKind]
    refine and_congr_left fun _ => ⟨?_, fun h => ⟨h.named, h.kind, h.shape⟩⟩
    rintro ⟨hnamed, hkind, hshape⟩
    exact ⟨hnamed, hkind, hshape⟩

end Handlers

section Sources
variable {seenNames seenHandlers : List String} {ds : ManifestSource}

theorem clean_missingFile {isFile : String → Bool} {file help : String} :
    Clean (missingFile isFile field file help) ↔ isFile file = true := by
  rw [missingFile]
  split_ifs with h <;> simp [h]

theorem clean_sourceName : Clean (checkSourceName seenNames ds field) ↔
    ∀ name, ds.name = some name → name ∉ seenNames := by
  rw [checkSourceName]
  split
  next hnone => simp [hnone]
  next name hname => split_ifs with hseen <;> simp [hname, hseen]

theorem clean_range : Clean (checkRange m ds field) ↔
    ∀ stop, ds.endBlock = some stop → m.effectiveStartBlock ds ≤ stop := by
  rw [checkRange]
  split
  next hnone => simp [hnone]
  next stop hstop => split_ifs with hlt <;> simp [hstop, hlt]; omega

theorem clean_assets : Clean (checkAssets base i ds) ↔
    ∀ isFile, base = some isFile → ∀ asset ∈ ds.assets, isFile asset.2 = true := by
  cases base with
  | none => simp [checkAssets]
  | some isFile =>
    simp only [checkAssets, Option.some.injEq, forall_eq']
    constructor
    · intro h asset hasset
      refine clean_missingFile.mp fun d hd => h d (List.mem_flatMap.mpr ⟨asset, hasset, hd⟩)
    · intro h d hd
      obtain ⟨asset, hasset, hd⟩ := List.mem_flatMap.mp hd
      exact clean_missingFile.mpr (h asset hasset) d hd

theorem clean_dataSource : Clean (checkDataSource base m i seenNames seenHandlers ds) ↔
    (∀ name, ds.name = some name → name ∉ seenNames) ∧ SourceFits base m ds := by
  have hkind : Clean (if !Kind.belongsTo ds.kind m.network.family then
      [wrongKind m.network.family (sourceField i ".kind") ds.kind "datasource"] else []) ↔
        KindOf ds.kind m.network.family := by
    rw [← belongsTo_iff]
    cases Kind.belongsTo ds.kind m.network.family <;> simp [wrongKind]
  have hempty : Clean (if ds.handlers.isEmpty then
      [(Diagnostic.error (sourceField i ".handlers")
        "a datasource must declare at least one handler").withHelp
        "without a handler this datasource would index nothing"] else []) ↔ ds.handlers ≠ [] := by
    cases ds.handlers <;> simp
  simp only [checkDataSource, clean_append, hkind, hempty, clean_sourceName, clean_range,
    clean_assets, clean_handlers]
  constructor
  · rintro ⟨⟨⟨⟨⟨hname, hk⟩, hrange⟩, hassets⟩, hne⟩, hfits⟩
    exact ⟨hname, hk, hrange, hassets, hne, hfits⟩
  · rintro ⟨hname, h⟩
    exact ⟨⟨⟨⟨⟨hname, h.kind⟩, h.range⟩, h.assets⟩, h.handlers⟩, h.fits⟩

theorem clean_sources {sources : List ManifestSource} :
    Clean (checkSources base m i seenNames seenHandlers sources) ↔
      (sources.filterMap (·.name)).Nodup ∧
        (∀ name ∈ sources.filterMap (·.name), name ∉ seenNames) ∧
          ∀ ds ∈ sources, SourceFits base m ds := by
  induction sources generalizing i seenNames seenHandlers with
  | nil => simp [checkSources]
  | cons ds rest ih =>
    rw [checkSources, clean_append, clean_dataSource, ih, List.forall_mem_cons, seeName]
    cases hname : ds.name with
    | none => simp [hname, and_left_comm]
    | some name =>
      rw [List.filterMap_cons_some hname, List.nodup_cons, List.forall_mem_cons]
      simp only [Option.some.injEq, forall_eq', Option.toList_some, List.singleton_append,
        List.mem_cons, not_or]
      constructor
      · rintro ⟨⟨hnew, hfits⟩, hnodup, hseen, hrest⟩
        exact ⟨⟨fun hmem => (hseen name hmem).1 rfl, hnodup⟩,
          ⟨hnew, fun other hmem => (hseen other hmem).2⟩, hfits, hrest⟩
      · rintro ⟨⟨hfresh, hnodup⟩, ⟨hnew, hseen⟩, hfits, hrest⟩
        exact ⟨⟨hnew, hfits⟩, hnodup,
          fun other hmem => ⟨fun heq => hfresh (heq ▸ hmem), hseen other hmem⟩, hrest⟩

theorem clean_dataSources : Clean (checkDataSources base m) ↔ m.dataSources ≠ [] ∧
    (m.dataSources.filterMap (·.name)).Nodup ∧ ∀ ds ∈ m.dataSources, SourceFits base m ds := by
  rw [checkDataSources]
  split_ifs with hempty
  · simp [List.isEmpty_iff.mp hempty]
  · rw [clean_sources]
    have hne : m.dataSources ≠ [] := fun h => hempty (List.isEmpty_iff.mpr h)
    simp [hne]

end Sources

section Top

theorem letters_iff {name : String} : (name.toList.all fun c => c.isLower || c.isDigit || c == '-') =
    true ↔ ∀ c ∈ name.toList, c.isLower = true ∨ c.isDigit = true ∨ c = '-' := by
  simp only [List.all_eq_true, Bool.or_eq_true, beq_iff_eq, or_assoc]

theorem letters_length {name : String}
    (h : ∀ c ∈ name.toList, c.isLower = true ∨ c.isDigit = true ∨ c = '-') :
    name.utf8ByteSize = name.toList.length := by
  have hbytes := Ascii.utf8ByteSize_ascii name.toList fun c hc => by
    rcases h c hc with hlower | hdigit | rfl
    · have := Ascii.isLower_iff.mp hlower
      omega
    · have := Ascii.isDigit_iff.mp hdigit
      omega
    · decide
  rwa [String.ofList_toList] at hbytes

theorem projectId_iff {name : String} : (∃ id, ProjectId.new name = .ok id) ↔ ProjectName name := by
  rw [ProjectId.new]
  constructor
  · rintro ⟨id, h⟩
    split_ifs at h with hempty hlong hfirst hlast hletters
    rw [Bool.not_eq_true, Bool.not_eq_false', letters_iff] at hletters
    rw [Bool.not_eq_true, Bool.not_eq_false'] at hfirst
    exact ⟨hfirst, hletters, hlast, letters_length hletters ▸ Nat.le_of_not_lt hlong⟩
  · intro h
    have hempty : name.isEmpty = false := by
      rw [Bool.eq_false_iff, Ne, String.isEmpty_iff]
      rintro rfl
      cases h.first
    have hlong : ¬ProjectId.maxLen < name.utf8ByteSize := by
      rw [letters_length h.letters]
      exact Nat.not_lt_of_le h.length
    exact ⟨name, by
      rw [hempty, if_neg Bool.false_ne_true, if_neg hlong, h.first, letters_iff.mpr h.letters,
        if_neg h.last]
      rfl⟩

theorem clean_identity : Clean (checkIdentity isSemver m) ↔ ProjectName m.name := by
  have hversion : Clean (if isSemver m.version then []
      else [(Diagnostic.warning "version" s!"`{m.version}` is not a semver version").withHelp
        "use a version like `0.1.0` so tooling can order releases"]) := by
    split_ifs <;> simp
  rw [checkIdentity, clean_append, and_iff_left hversion, ← projectId_iff]
  cases hname : ProjectId.new m.name with
  | error e => simp
  | ok id => simp

theorem isWhitespace_digit {c : Char} {d : Nat} (h : toDigit 10 c = some d) :
    isWhitespace c = false := by
  obtain ⟨hd, hcode⟩ := toDigit_cases h
  have hlow : 48 ≤ c.toNat ∧ c.toNat ≤ 57 := by omega
  simp only [isWhitespace, Bool.or_eq_false_iff, Bool.and_eq_false_iff, decide_eq_false_iff_not,
    beq_eq_false_iff_ne]
  omega

theorem blank_number {s : String} {n : Nat} (h : fromStrRadix 64 10 s = some n) :
    blank s = false := by
  rw [fromStrRadix] at h
  rw [blank]
  cases hs : s.toList with
  | nil =>
    rw [hs] at h
    cases h
  | cons c cs =>
    rw [List.all_cons, Bool.and_eq_false_iff]
    by_cases hplus : c = '+'
    · subst hplus
      exact .inl (by decide)
    · have hdigits : unsignedDigits (c :: cs) = c :: cs := by
        rw [unsignedDigits.eq_def]
        split
        next heq =>
          cases heq
          exact absurd rfl hplus
        next => rfl
      rw [hs, hdigits] at h
      obtain ⟨hvalue, -⟩ := Option.filter_eq_some_iff.mp h
      obtain ⟨d, hd, -⟩ := Option.bind_eq_some_iff.mp hvalue
      exact .inl (isWhitespace_digit hd)

theorem clean_network : Clean (checkNetwork m) ↔ m.network.family = .evm ∧
    ∃ id, fromStrRadix 64 10 m.network.chainId = some id := by
  have hendpoint : Clean (if m.network.endpoint.isEmpty then
      [(Diagnostic.warning "network.endpoint" "no RPC endpoint declared").withHelp
        "the node will need one supplied at run time to index this project"] else []) := by
    split_ifs <;> simp
  rw [checkNetwork, clean_append, clean_append, and_iff_left hendpoint]
  cases hfamily : m.network.family with
  | stellar => simp [ChainFamily.isImplemented]
  | solana => simp [ChainFamily.isImplemented]
  | evm =>
    rw [if_pos (by rfl), and_iff_right clean_nil]
    cases hid : fromStrRadix 64 10 m.network.chainId with
    | none => split_ifs <;> simp_all
    | some id => simp [blank_number hid]

theorem clean_schema : Clean (checkSchema base m) ↔
    ∀ isFile, base = some isFile → isFile m.schemaFile = true := by
  cases base with
  | none => simp [checkSchema]
  | some isFile => simp [checkSchema, clean_missingFile]

theorem hasErrors_validate :
    (validate isSemver base m).hasErrors = false ↔ Valid base m := by
  rw [hasErrors_eq_false, validate, clean_append, clean_append, clean_append, clean_identity,
    clean_network, clean_schema, clean_dataSources]
  constructor
  · rintro ⟨⟨⟨hname, hfamily, hid⟩, hschema⟩, hne, hdistinct, hfits⟩
    exact ⟨hname, hfamily, hid, hschema, hne, hdistinct, hfits⟩
  · intro h
    exact ⟨⟨⟨h.name, h.family, h.chainId⟩, h.schema⟩, h.sources, h.distinct, h.fits⟩

end Top

section Fields
variable {d : Diagnostic}

theorem field_identity (h : d ∈ checkIdentity isSemver m) : Field m d.field := by
  have hname : Field m "name" := .top (by decide)
  have hversion : Field m "version" := .top (by decide)
  rw [checkIdentity, List.mem_append] at h
  rcases h with h | h
  · split at h
    · rw [List.mem_singleton.mp h]
      exact hname
    · cases h
  · split_ifs at h
    · cases h
    · rw [List.mem_singleton.mp h]
      exact hversion

theorem field_network (h : d ∈ checkNetwork m) : Field m d.field := by
  have hfamily : Field m "network.family" := .top (by decide)
  have hchainId : Field m "network.chainId" := .top (by decide)
  have hendpoint : Field m "network.endpoint" := .top (by decide)
  rw [checkNetwork, List.mem_append, List.mem_append] at h
  rcases h with (h | h) | h
  · split_ifs at h
    · cases h
    · rw [List.mem_singleton.mp h]
      exact hfamily
  · split_ifs at h
    · rw [List.mem_singleton.mp h]
      exact hchainId
    · rw [List.mem_singleton.mp h]
      exact hchainId
    · cases h
  · split_ifs at h
    · rw [List.mem_singleton.mp h]
      exact hendpoint
    · cases h

theorem field_missingFile {isFile : String → Bool} {file help : String}
    (h : d ∈ missingFile isFile field file help) : d.field = field := by
  rw [missingFile] at h
  split_ifs at h
  · cases h
  · rw [List.mem_singleton.mp h]
    rfl

theorem field_schema (h : d ∈ checkSchema base m) : Field m d.field := by
  cases base with
  | none => cases h
  | some isFile =>
    rw [field_missingFile h]
    exact .top (by decide)

theorem field_handlerName {seen : List String} (h : d ∈ checkHandlerName seen handler field) :
    d.field = field := by
  rw [checkHandlerName] at h
  split_ifs at h
  · rw [List.mem_singleton.mp h]
    rfl
  · rw [List.mem_singleton.mp h]
    rfl
  · cases h

theorem field_handlerKind (h : d ∈ checkHandlerKind family handler kindField field) :
    d.field = kindField ∨ d.field = field := by
  rw [checkHandlerKind] at h
  split_ifs at h
  · rw [List.mem_singleton.mp h]
    exact .inl rfl
  · rw [checkFilterShape] at h
    split at h
    · split_ifs at h
      · rw [List.mem_singleton.mp h]
        exact .inr rfl
      · cases h
    · cases h

theorem field_handlers {ds : ManifestSource} (hds : m.dataSources[i]? = some ds)
    {seen : List String} (before : List Sdk.Handler) {rest : List Sdk.Handler}
    (hsplit : ds.handlers = before ++ rest)
    (h : d ∈ checkHandlers family i before.length seen rest) : Field m d.field := by
  induction rest generalizing before seen with
  | nil => cases h
  | cons handler rest ih =>
    have hat : ds.handlers[before.length]? = some handler := by
      rw [hsplit, List.getElem?_append_right (Nat.le_refl _), Nat.sub_self]
      rfl
    rw [checkHandlers, List.mem_append, List.mem_append] at h
    rcases h with (h | h) | h
    · rw [field_handlerName h]
      exact .handler hds hat (by decide)
    · rcases field_handlerKind h with h | h
      · rw [h]
        exact .handler hds hat (by decide)
      · rw [h]
        exact .handler hds hat (by decide)
    · have hsplit' : ds.handlers = (before ++ [handler]) ++ rest := by
        rw [hsplit, List.append_assoc]
        rfl
      have hlength : (before ++ [handler]).length = before.length + 1 := List.length_append
      exact ih _ hsplit' (hlength ▸ h)

theorem field_dataSource {ds : ManifestSource} (hds : m.dataSources[i]? = some ds)
    {seenNames seenHandlers : List String}
    (h : d ∈ checkDataSource base m i seenNames seenHandlers ds) : Field m d.field := by
  simp only [checkDataSource, List.mem_append] at h
  rcases h with ((((h | h) | h) | h) | h) | h
  · rw [checkSourceName] at h
    split at h
    · cases h
    · split_ifs at h
      · rw [List.mem_singleton.mp h]
        exact .source hds (by decide)
      · cases h
  · split_ifs at h
    · rw [List.mem_singleton.mp h]
      exact .source hds (by decide)
    · cases h
  · rw [checkRange] at h
    split at h
    · cases h
    · split_ifs at h
      · rw [List.mem_singleton.mp h]
        exact .source hds (by decide)
      · cases h
  · cases base with
    | none => cases h
    | some isFile =>
      obtain ⟨asset, hasset, h⟩ := List.mem_flatMap.mp h
      rw [field_missingFile h]
      exact .asset hds hasset
  · split_ifs at h
    · rw [List.mem_singleton.mp h]
      exact .source hds (by decide)
    · cases h
  · exact field_handlers hds [] rfl h

theorem field_sources (before : List ManifestSource) {rest : List ManifestSource}
    (hsplit : m.dataSources = before ++ rest) {seenNames seenHandlers : List String}
    (h : d ∈ checkSources base m before.length seenNames seenHandlers rest) : Field m d.field := by
  induction rest generalizing before seenNames seenHandlers with
  | nil => cases h
  | cons ds rest ih =>
    have hat : m.dataSources[before.length]? = some ds := by
      rw [hsplit, List.getElem?_append_right (Nat.le_refl _), Nat.sub_self]
      rfl
    rw [checkSources, List.mem_append] at h
    rcases h with h | h
    · exact field_dataSource hat h
    · have hsplit' : m.dataSources = (before ++ [ds]) ++ rest := by
        rw [hsplit, List.append_assoc]
        rfl
      have hlength : (before ++ [ds]).length = before.length + 1 := List.length_append
      exact ih _ hsplit' (hlength ▸ h)

theorem diagnostics_name_fields (h : d ∈ (validate isSemver base m).diagnostics) :
    Field m d.field := by
  simp only [validate, List.mem_append] at h
  rcases h with ((h | h) | h) | h
  · exact field_identity h
  · exact field_network h
  · exact field_schema h
  · have htop : Field m "dataSources" := .top (by decide)
    rw [checkDataSources] at h
    split_ifs at h
    · rw [List.mem_singleton.mp h]
      exact htop
    · exact field_sources [] rfl h

end Fields
end Validate

theorem validation_is_exact (isSemver : String → Bool) (base : Option (String → Bool))
    (m : Manifest) :
    ((Validate.validate isSemver base m).hasErrors = false ↔ Valid base m) ∧
    ∀ d ∈ (Validate.validate isSemver base m).diagnostics, Field m d.field :=
  ⟨Validate.hasErrors_validate, fun _ h => Validate.diagnostics_name_fields h⟩

end SuperqueryNode.Config

import SuperqueryNode.Evm.Selection

namespace SuperqueryNode.Evm
open ChainApi Fallible EvmAdapter

namespace Project

section Acceptance
variable {p : Primitives} {s : Signatures} {project : Sdk.ProjectManifest} {ds : Sdk.DataSource}
  {handler : Sdk.Handler} {contract : Option (BitVec 160)}

theorem compileLog_accepts {c : Option String} :
    (∃ f, compileLog p s c handler = .ok f) ↔ SupportedLog p s handler.filter := by
  rw [SupportedLog, compileLog]
  cases hfilter : handler.filter with
  | none => simp
  | some filter =>
    cases filter with
    | transaction f => simp
    | block f => simp
    | log log =>
      constructor
      · rintro ⟨f, hf⟩
        obtain ⟨topics, htopics, -⟩ := bind_eq_ok.mp hf
        obtain ⟨selector, hashes, hselector, hall, -, hlength⟩ := compileTopics_ok.mp htopics
        refine .inr ⟨log, rfl, by rw [hselector]; rfl, fun raw hraw => ?_, hlength⟩
        obtain ⟨h, hh⟩ := exists_forall₂.mp ⟨hashes, hall⟩ raw hraw
        rw [hh]
        rfl
      · rintro (hnone | ⟨f, hf, hevent, hparsed, hlength⟩)
        · cases hnone
        · cases hf
          obtain ⟨selector, hselector⟩ := Option.isSome_iff_exists.mp hevent
          obtain ⟨hashes, hall⟩ := exists_forall₂.mpr fun raw hraw =>
            Option.isSome_iff_exists.mp (hparsed raw hraw)
          exact ⟨_, bind_eq_ok.mpr ⟨_, compileTopics_ok.mpr
            ⟨selector, hashes, hselector, hall, rfl, hlength⟩, rfl⟩⟩

theorem compileTransaction_accepts (hhex : LowerHex p s) :
    (∃ f, compileTransaction p s (contract.map p.formatAddress) handler = .ok f) ↔
      SupportedTransaction p s contract handler.filter := by
  simp only [compileTransaction_ok hhex, SupportedTransaction]
  constructor
  · rintro ⟨f, ⟨hnone, -⟩ | ⟨g, selector, hg, hselector, hsender, hwanted, -⟩⟩
    · exact .inl hnone
    · exact .inr ⟨g, hg, by rw [hselector]; rfl, hsender, hwanted⟩
  · rintro (hnone | ⟨g, hg, hfunction, hsender, hwanted⟩)
    · exact ⟨_, .inl ⟨hnone, rfl⟩⟩
    · obtain ⟨selector, hselector⟩ := Option.isSome_iff_exists.mp hfunction
      exact ⟨_, .inr ⟨g, selector, hg, hselector, hsender, hwanted, rfl⟩⟩

theorem compileBlock_accepts :
    (∃ m, compileBlock handler = .ok m) ↔ SupportedBlock handler.filter := by
  simp only [compileBlock_ok, SupportedBlock]
  constructor
  · rintro ⟨m, ⟨hnone, -⟩ | ⟨f, hf, hzero, htime, -⟩⟩
    · exact .inl hnone
    · exact .inr ⟨f, hf, hzero, htime⟩
  · rintro (hnone | ⟨f, hf, hzero, htime⟩)
    · exact ⟨_, .inl ⟨hnone, rfl⟩⟩
    · exact ⟨_, .inr ⟨f, hf, hzero, htime, rfl⟩⟩

theorem prepareHandler_accepts (hhex : LowerHex p s) :
    (∃ h, prepareHandler p s project ds (contract.map p.formatAddress) handler = .ok h) ↔
      SupportedHandler p s contract handler := by
  have hfilter : (∃ h, prepareHandler p s project ds (contract.map p.formatAddress) handler = .ok h) ↔
      ∃ f, compileFilter p s (contract.map p.formatAddress) handler = .ok f := by
    constructor
    · rintro ⟨h, hok⟩
      obtain ⟨f, hf, -⟩ := bind_eq_ok.mp hok
      exact ⟨f, hf⟩
    · rintro ⟨f, hf⟩
      exact ⟨_, bind_eq_ok.mpr ⟨f, hf, rfl⟩⟩
  rw [hfilter, SupportedHandler, ← compileLog_accepts, ← compileTransaction_accepts hhex,
    ← compileBlock_accepts]
  simp only [compileFilter_ok]
  constructor
  · rintro ⟨f, ⟨hkind, g, hg, -⟩ | ⟨hkind, g, hg, -⟩ | ⟨hkind, m, hm, -⟩⟩
    · exact .inl ⟨hkind, g, hg⟩
    · exact .inr (.inl ⟨hkind, g, hg⟩)
    · exact .inr (.inr ⟨hkind, m, hm⟩)
  · rintro (⟨hkind, g, hg⟩ | ⟨hkind, g, hg⟩ | ⟨hkind, m, hm⟩)
    · exact ⟨_, .inl ⟨hkind, g, hg, rfl⟩⟩
    · exact ⟨_, .inr (.inl ⟨hkind, g, hg, rfl⟩)⟩
    · exact ⟨_, .inr (.inr ⟨hkind, m, hm, rfl⟩)⟩

theorem checkOptions_ok {options : Sdk.DataSourceOptions} {done : Unit} :
    checkOptions options = .ok done ↔ (∀ key ∈ options.keys, key = "address" ∨ key = "abi") ∧
      (options.contains "address" = true → (options.getStr "address").isSome) := by
  rw [checkOptions]
  cases hfind : options.keys.find? fun key => !(key == "address" || key == "abi") with
  | some key =>
    have hmem := List.mem_of_find?_eq_some hfind
    have hbad := List.find?_some hfind
    simp only [reduceCtorEq, false_iff, not_and]
    intro hall
    rcases hall key hmem with rfl | rfl <;> simp at hbad
  | none =>
    rw [List.find?_eq_none] at hfind
    have hknown : ∀ key ∈ options.keys, key = "address" ∨ key = "abi" := by
      intro key hkey
      have hkept := hfind key hkey
      rwa [Bool.not_eq_true', Bool.not_eq_false, Bool.or_eq_true, beq_iff_eq, beq_iff_eq] at hkept
    rw [and_iff_right hknown]
    simp only [ensure_eq_ok]
    cases options.contains "address" <;> cases options.getStr "address" <;> simp

theorem contains_of_getStr {options : Sdk.DataSourceOptions} {key raw : String}
    (h : options.getStr key = some raw) : options.contains key = true := by
  obtain ⟨v, hv, -⟩ := Option.bind_eq_some_iff.mp h
  rw [Sdk.DataSourceOptions.contains, hv]
  rfl

theorem prepareDataSource_ok {hs : List PreparedHandler} :
    prepareDataSource p s project ds = .ok hs ↔
      (∃ done, checkOptions ds.options = .ok done) ∧
        (∀ r ∈ ds.options.getStr "address", (p.parseAddress r).isSome) ∧
          List.Forall₂ (fun handler h => prepareHandler p s project ds
            ((contractOf p ds).map p.formatAddress) handler = .ok h) ds.handlers hs := by
  simp only [prepareDataSource, bind_eq_ok, address_ok, mapM_eq_ok, contractOf]
  constructor
  · rintro ⟨done, hdone, c, ⟨hparsed, rfl⟩, hall⟩
    exact ⟨⟨done, hdone⟩, hparsed, hall⟩
  · rintro ⟨⟨done, hdone⟩, hparsed, hall⟩
    exact ⟨done, hdone, _, ⟨hparsed, rfl⟩, hall⟩

theorem prepareDataSource_accepts (hhex : LowerHex p s) :
    (∃ hs, prepareDataSource p s project ds = .ok hs) ↔ SupportedSource p s ds := by
  simp only [prepareDataSource_ok, exists_and_left, exists_forall₂, prepareHandler_accepts hhex,
    checkOptions_ok]
  constructor
  · rintro ⟨⟨hknown, -, hstring⟩, hparsed, hhandlers⟩
    refine ⟨hknown, fun hcontains => ?_, hhandlers⟩
    obtain ⟨raw, hraw⟩ := Option.isSome_iff_exists.mp (hstring hcontains)
    exact ⟨raw, hraw, hparsed raw hraw⟩
  · rintro ⟨hknown, haddress, hhandlers⟩
    refine ⟨⟨hknown, ⟨⟩, fun hcontains => ?_⟩, fun raw hraw => ?_, hhandlers⟩
    · obtain ⟨raw, hraw, -⟩ := haddress hcontains
      rw [hraw]
      rfl
    · obtain ⟨raw', hraw', hparsed⟩ := haddress (contains_of_getStr hraw)
      cases hraw.symm.trans hraw'
      exact hparsed

end Acceptance

def entries (project : Sdk.ProjectManifest) : List (Sdk.DataSource × Sdk.Handler) :=
  (project.dataSources.map fun ds => ds.handlers.map fun handler => (ds, handler)).flatten

def Means (p : Primitives) (s : Signatures) (project : Sdk.ProjectManifest)
    (entry : Sdk.DataSource × Sdk.Handler) (h : PreparedHandler) : Prop :=
  h.function = entry.2.handler ∧ ∀ b v, Normalised p b v →
    h.matchingInputs b = manifestCount p s project entry.1 entry.2 v

theorem prepared_means {p : Primitives} {s : Signatures} (hhex : LowerHex p s)
    {project : Sdk.ProjectManifest} {hs : List PreparedHandler}
    (hok : prepareHandlers p s project = .ok hs) :
    List.Forall₂ (Means p s project) (entries project) hs := by
  obtain ⟨groups, hgroups, hok⟩ := bind_eq_ok.mp hok
  cases hok
  refine List.rel_flatten (List.forall₂_map_left_iff.mpr ((mapM_eq_ok.mp hgroups).imp ?_))
  intro ds group hgroup
  obtain ⟨-, -, hall⟩ := prepareDataSource_ok.mp hgroup
  refine List.forall₂_map_left_iff.mpr (hall.imp fun handler h hh => ⟨?_, ?_⟩)
  · obtain ⟨filter, -, hh⟩ := bind_eq_ok.mp hh
    cases hh
    rfl
  · exact fun b v hnorm => matchingInputs_eq hhex hnorm hh

theorem prepareHandlers_accepts {p : Primitives} {s : Signatures} (hhex : LowerHex p s)
    (project : Sdk.ProjectManifest) : (∃ hs, prepareHandlers p s project = .ok hs) ↔
      ∀ ds ∈ project.dataSources, SupportedSource p s ds := by
  have haccepts : ∀ ds, (∃ hs, prepareDataSource p s project ds = .ok hs) ↔ SupportedSource p s ds :=
    fun _ => prepareDataSource_accepts hhex
  simp only [← haccepts]
  rw [← exists_forall₂]
  constructor
  · rintro ⟨hs, hok⟩
    obtain ⟨groups, hgroups, -⟩ := bind_eq_ok.mp hok
    exact ⟨groups, mapM_eq_ok.mp hgroups⟩
  · rintro ⟨groups, hgroups⟩
    exact ⟨_, bind_eq_ok.mpr ⟨groups, mapM_eq_ok.mpr hgroups, rfl⟩⟩

theorem prepared_handlers_mean_manifest (p : Primitives) (s : Signatures) (hhex : LowerHex p s)
    (project : Sdk.ProjectManifest) :
    (∀ hs, prepareHandlers p s project = .ok hs →
      List.Forall₂ (Means p s project) (entries project) hs) ∧
    ((∃ hs, prepareHandlers p s project = .ok hs) ↔
      ∀ ds ∈ project.dataSources, SupportedSource p s ds) ∧
    ∀ value logs expected b, Decode.block p value logs expected = .ok b → ∃ v, Normalised p b v :=
  ⟨fun _ hok => prepared_means hhex hok, prepareHandlers_accepts hhex project,
    fun _ _ _ _ hok => decoded_normalised hok⟩

def hexPrimitives : Primitives :=
  { lowerHexPrimitives with formatBytes := fun bs => "0x" ++ Config.lowerHex bs }

def transferTopic : BitVec 256 :=
  0xddf252ad1be2c89b69c2b068fc378daa952ba7f163c4a11628f55a4df523b3ef

def erc20Signatures : Signatures where
  event sig := if sig = "Transfer(address,address,uint256)" then some transferTopic else none
  function sig := if sig = "transfer(address,uint256)" then some #v[0xa9, 0x05, 0x9c, 0xbb] else none
  formatSelector f := "0x" ++ Config.lowerHex f.toList

theorem hexPrimitives_lowerHex : LowerHex hexPrimitives erc20Signatures :=
  ⟨fun _ => rfl, fun _ => rfl, fun _ => rfl, fun _ => rfl⟩

def usdcSource : Sdk.DataSource where
  startBlock := none
  endBlock := none
  options := ⟨[("address", .string usdc)], List.pairwise_singleton _ _⟩
  handlers := [⟨"handle_transfer", "evm/LogHandler",
    some (.log ⟨"Transfer(address,address,uint256)", []⟩)⟩]

def erc20Project : Sdk.ProjectManifest := ⟨some 21000000, [usdcSource]⟩

theorem erc20_supported : ∀ ds ∈ erc20Project.dataSources,
    SupportedSource hexPrimitives erc20Signatures ds := by
  intro ds hds
  cases List.mem_singleton.mp hds
  constructor
  case options => decide
  case address => exact fun _ => ⟨usdc, rfl, by decide⟩
  case handlers =>
    intro handler hhandler
    cases List.mem_singleton.mp hhandler
    exact .inl ⟨rfl, .inr ⟨_, rfl, rfl, by decide, by decide⟩⟩

theorem erc20_handlers_mean_manifest : ∃ hs,
    prepareHandlers hexPrimitives erc20Signatures erc20Project = .ok hs ∧
      List.Forall₂ (Means hexPrimitives erc20Signatures erc20Project) (entries erc20Project) hs := by
  obtain ⟨hmeans, haccepts, -⟩ := prepared_handlers_mean_manifest hexPrimitives erc20Signatures
    hexPrimitives_lowerHex erc20Project
  obtain ⟨hs, hok⟩ := haccepts.mpr erc20_supported
  exact ⟨hs, hok, hmeans hs hok⟩

end Project

end SuperqueryNode.Evm

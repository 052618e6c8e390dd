import SuperqueryNode.Evm.NormalForm

namespace SuperqueryNode.Evm
open ChainApi Fallible HexText

namespace Project

section Meaning
variable (p : Primitives) (s : Signatures)

def contractOf (ds : Sdk.DataSource) : Option (BitVec 160) :=
  (ds.options.getStr "address").bind p.parseAddress

def SelectsLog (contract : Option (BitVec 160)) (filter : Option Sdk.HandlerFilter)
    (l : LogValue) : Prop :=
  (∀ a ∈ contract, l.address = a) ∧ ∀ f, filter = some (.log f) →
    (∃ selector, s.event f.event = some selector ∧ l.topics[0]? = some selector) ∧
      ∀ i raw, f.topics[i]? = some raw →
        ∃ topic, p.parseB256 raw = some topic ∧ l.topics[i + 1]? = some topic

def SelectsTransaction (contract : Option (BitVec 160)) (filter : Option Sdk.HandlerFilter)
    (t : TransactionValue) : Prop :=
  ((∀ f, filter = some (.transaction f) → f.toAddress = none) →
      ∀ a ∈ contract, t.toAddress = some a) ∧
    ∀ f, filter = some (.transaction f) →
      (∀ raw ∈ f.toAddress, ∃ a, p.parseAddress raw = some a ∧ t.toAddress = some a) ∧
        (∀ raw ∈ f.fromAddress, ∃ a, p.parseAddress raw = some a ∧ t.fromAddress = a) ∧
          ∃ selector, s.function f.function = some selector ∧ selector.toList <+: t.input

def SelectsBlock (filter : Option Sdk.HandlerFilter) (number : Nat) : Prop :=
  ∀ f m, filter = some (.block f) → f.modulo = some m → m ∣ number

open Classical in
noncomputable def countWhere {A : Type} (P : A → Prop) (l : List A) : Nat :=
  l.countP fun a => decide (P a)

open Classical in
noncomputable def manifestCount (project : Sdk.ProjectManifest) (ds : Sdk.DataSource)
    (handler : Sdk.Handler) (v : BlockValue) : Nat :=
  if project.effectiveStartBlock ds ≤ v.number ∧ ∀ stop ∈ ds.endBlock, v.number ≤ stop then
    if handler.kind = "evm/LogHandler" then
      countWhere (SelectsLog p s (contractOf p ds) handler.filter) v.logs
    else if handler.kind = "evm/TransactionHandler" then
      countWhere (SelectsTransaction p s (contractOf p ds) handler.filter) v.transactions
    else if handler.kind = "evm/BlockHandler" ∧ SelectsBlock handler.filter v.number then 1
    else 0
  else 0

def SupportedLog (filter : Option Sdk.HandlerFilter) : Prop :=
  filter = none ∨ ∃ f, filter = some (.log f) ∧ (s.event f.event).isSome ∧
    (∀ raw ∈ f.topics, (p.parseB256 raw).isSome) ∧ f.topics.length ≤ 3

def SupportedTransaction (contract : Option (BitVec 160)) (filter : Option Sdk.HandlerFilter) :
    Prop :=
  filter = none ∨ ∃ f, filter = some (.transaction f) ∧ (s.function f.function).isSome ∧
    (∀ raw ∈ f.fromAddress, (p.parseAddress raw).isSome) ∧
      ∀ raw ∈ f.toAddress, ∃ a, p.parseAddress raw = some a ∧ ∀ c ∈ contract, c = a

def SupportedBlock (filter : Option Sdk.HandlerFilter) : Prop :=
  filter = none ∨ ∃ f, filter = some (.block f) ∧ f.modulo ≠ some 0 ∧ f.timestamp = none

def SupportedHandler (contract : Option (BitVec 160)) (handler : Sdk.Handler) : Prop :=
  handler.kind = "evm/LogHandler" ∧ SupportedLog p s handler.filter ∨
    handler.kind = "evm/TransactionHandler" ∧ SupportedTransaction p s contract handler.filter ∨
      handler.kind = "evm/BlockHandler" ∧ SupportedBlock handler.filter

structure SupportedSource (ds : Sdk.DataSource) : Prop where
  options : ∀ key ∈ ds.options.keys, key = "address" ∨ key = "abi"
  address : ds.options.contains "address" = true → ∃ raw, ds.options.getStr "address" = some raw ∧
    (p.parseAddress raw).isSome
  handlers : ∀ handler ∈ ds.handlers, SupportedHandler p s (contractOf p ds) handler

end Meaning

section Compile
variable {p : Primitives} {s : Signatures} {handler : Sdk.Handler} {contract : Option (BitVec 160)}

theorem address_ok {raw : Option String} {c : Option String} : address p raw = .ok c ↔
    (∀ r ∈ raw, (p.parseAddress r).isSome) ∧ c = (raw.bind p.parseAddress).map p.formatAddress := by
  cases raw with
  | none =>
    rw [address]
    constructor
    · intro h
      cases h
      exact ⟨fun r hr => (by cases hr), rfl⟩
    · rintro ⟨-, rfl⟩
      rfl
  | some raw =>
    rw [address, okOr_eq_ok, Option.bind_some, Option.map_eq_some_iff]
    constructor
    · rintro ⟨a, ha, rfl⟩
      refine ⟨fun r hr => ?_, by rw [ha]; rfl⟩
      cases hr
      rw [ha]
      rfl
    · rintro ⟨hparsed, rfl⟩
      obtain ⟨a, ha⟩ := Option.isSome_iff_exists.mp (hparsed raw rfl)
      exact ⟨a, ha, by rw [ha]; rfl⟩

theorem compileTopics_ok {log : Sdk.LogFilter} {topics : List TopicFilter} :
    compileTopics p s handler log = .ok topics ↔ ∃ selector hashes, s.event log.event = some selector ∧
      List.Forall₂ (fun raw h => p.parseB256 raw = some h) log.topics hashes ∧
        topics = (selector :: hashes).map (.one ∘ p.formatB256) ∧ log.topics.length ≤ 3 := by
  have htopics : ∀ ts, log.topics.mapM (fun topic =>
      okOr ((p.parseB256 topic).map (TopicFilter.one ∘ p.formatB256)) (bad handler)) = .ok ts ↔
        ∃ hashes, List.Forall₂ (fun raw h => p.parseB256 raw = some h) log.topics hashes ∧
          ts = hashes.map (.one ∘ p.formatB256) := by
    intro ts
    rw [mapM_eq_ok, ← forall₂_factor]
    simp only [okOr_eq_ok, Option.map_eq_some_iff]
  rw [compileTopics]
  simp only [bind_eq_ok, okOr_eq_ok, htopics, ensure_eq_ok, pure_eq_ok, decide_eq_true_eq,
    List.length_cons]
  constructor
  · rintro ⟨selector, hselector, ts, ⟨hashes, hall, rfl⟩, _, hlength, rfl⟩
    rw [List.length_map, ← hall.length_eq] at hlength
    exact ⟨selector, hashes, hselector, hall, rfl, by omega⟩
  · rintro ⟨selector, hashes, hselector, hall, rfl, hlength⟩
    refine ⟨selector, hselector, _, ⟨hashes, hall, rfl⟩, ⟨⟩, ?_, rfl⟩
    rw [List.length_map, ← hall.length_eq]
    omega

theorem formatAddress_inj (hhex : LowerHex p s) {a b : BitVec 160}
    (h : p.formatAddress a = p.formatAddress b) : a = b := hhex.address_inj.mp (congrArg value h)

theorem recipient_ok (hhex : LowerHex p s) {f : Sdk.TransactionFilter} {wanted : Option String} :
    recipient p (contract.map p.formatAddress) handler f = .ok wanted ↔
      (∀ raw ∈ f.toAddress, ∃ a, p.parseAddress raw = some a ∧ ∀ c ∈ contract, c = a) ∧
        wanted = ((f.toAddress.bind p.parseAddress).or contract).map p.formatAddress := by
  simp only [recipient, bind_eq_ok, address_ok, ensure_eq_ok, pure_eq_ok]
  cases htarget : f.toAddress with
  | none =>
    constructor
    · rintro ⟨given, ⟨-, rfl⟩, -, -, rfl⟩
      exact ⟨fun raw hraw => (by cases hraw), rfl⟩
    · rintro ⟨-, rfl⟩
      exact ⟨none, ⟨fun raw hraw => (by cases hraw), rfl⟩, ⟨⟩, rfl, rfl⟩
  | some raw =>
    have hagree : ∀ a, ((contract.map p.formatAddress).all fun c => c == p.formatAddress a) = true ↔
        ∀ c ∈ contract, c = a := by
      intro a
      cases contract with
      | none => simp
      | some c =>
        simp only [Option.map_some, Option.all_some, beq_iff_eq, Option.mem_some_iff,
          forall_eq']
        exact ⟨formatAddress_inj hhex, congrArg _⟩
    constructor
    · rintro ⟨given, ⟨hparsed, rfl⟩, -, hcontract, rfl⟩
      obtain ⟨a, ha⟩ := Option.isSome_iff_exists.mp (hparsed raw rfl)
      rw [Option.bind_some, ha] at hcontract ⊢
      refine ⟨fun r hr => ?_, rfl⟩
      cases hr
      exact ⟨a, ha, (hagree a).mp hcontract⟩
    · rintro ⟨hparsed, rfl⟩
      obtain ⟨a, ha, hcontract⟩ := hparsed raw rfl
      refine ⟨some (p.formatAddress a), ⟨fun r hr => ?_, ?_⟩, ⟨⟩, (hagree a).mpr hcontract, ?_⟩
      · cases hr
        rw [ha]
        rfl
      · rw [Option.bind_some, ha]
        rfl
      · rw [Option.bind_some, ha]
        rfl

theorem address_holds (hhex : LowerHex p s) {a : BitVec 160} :
    (∀ expected ∈ contract.map p.formatAddress, value expected = value (p.formatAddress a)) ↔
      ∀ c ∈ contract, a = c := by
  cases contract with
  | none => simp
  | some c =>
    simp only [Option.map_some, Option.mem_some_iff, forall_eq']
    exact hhex.address_inj.trans eq_comm

theorem topics_hold (hhex : LowerHex p s) {hashes topics : List (BitVec 256)} :
    (∀ (i : Nat) (c : TopicFilter), (hashes.map (TopicFilter.one ∘ p.formatB256))[i]? = some c →
      c = .any ∨ ∃ t, (topics.map p.formatB256)[i]? = some t ∧ c.Allows (value t)) ↔
        ∀ (i : Nat) (h : BitVec 256), hashes[i]? = some h → topics[i]? = some h := by
  constructor
  · intro hall i h hi
    have hmapped : (hashes.map (TopicFilter.one ∘ p.formatB256))[i]? =
        some (.one (p.formatB256 h)) := by
      rw [List.getElem?_map, hi]
      rfl
    rcases hall i _ hmapped with hany | ⟨t, ht, hallows⟩
    · cases hany
    · rw [List.getElem?_map] at ht
      obtain ⟨topic, htopic, rfl⟩ := Option.map_eq_some_iff.mp ht
      rw [htopic, hhex.b256_inj.mp hallows]
  · intro hall i c hi
    rw [List.getElem?_map] at hi
    obtain ⟨h, hh, rfl⟩ := Option.map_eq_some_iff.mp hi
    refine .inr ⟨p.formatB256 h, ?_, rfl⟩
    rw [List.getElem?_map, hall i h hh]
    rfl

theorem topics_selected {raws : List String} {selector : BitVec 256}
    {hashes topics : List (BitVec 256)}
    (hall : List.Forall₂ (fun raw h => p.parseB256 raw = some h) raws hashes) :
    (∀ (i : Nat) (h : BitVec 256), (selector :: hashes)[i]? = some h → topics[i]? = some h) ↔
      topics[0]? = some selector ∧ ∀ i raw, raws[i]? = some raw →
        ∃ topic, p.parseB256 raw = some topic ∧ topics[i + 1]? = some topic := by
  have hget : ∀ i : Nat, Option.Rel (fun raw h => p.parseB256 raw = some h) raws[i]? hashes[i]? :=
    forall₂_getElem? hall
  constructor
  · intro h
    refine ⟨h 0 selector rfl, fun i raw hraw => ?_⟩
    have hi := hget i
    rw [hraw] at hi
    cases hhash : hashes[i]? with
    | none =>
      rw [hhash] at hi
      cases hi
    | some topic =>
      rw [hhash] at hi
      cases hi with
      | some hparse => exact ⟨topic, hparse, h (i + 1) topic hhash⟩
  · rintro ⟨hselector, hrest⟩ i h hi
    cases i with
    | zero =>
      cases hi
      exact hselector
    | succ i =>
      have hrel := hget i
      rw [List.getElem?_cons_succ] at hi
      rw [hi] at hrel
      cases hraw : raws[i]? with
      | none =>
        rw [hraw] at hrel
        cases hrel
      | some raw =>
        rw [hraw] at hrel
        cases hrel with
        | some hparse =>
          obtain ⟨topic, htopic, hat⟩ := hrest i raw hraw
          rw [hat, ← htopic, hparse]

theorem compileLog_selects (hhex : LowerHex p s) {f : EvmLogFilter}
    (hf : compileLog p s (contract.map p.formatAddress) handler = .ok f) {l : EvmLog} {v : LogValue}
    (hl : LogWritten p l v) :
    f.matches l.view = true ↔ SelectsLog p s contract handler.filter v := by
  rw [logFilter_matches, EvmLogFilter.Holds, SelectsLog, EvmLog.view, hl.address, hl.topics]
  rw [compileLog] at hf
  cases hfilter : handler.filter with
  | none =>
    rw [hfilter] at hf
    cases hf
    refine and_congr (address_holds hhex) ?_
    simp
  | some filter =>
    rw [hfilter] at hf
    cases filter with
    | log log =>
      obtain ⟨topics, htopics, hf⟩ := bind_eq_ok.mp hf
      cases hf
      obtain ⟨selector, hashes, hselector, hall, rfl, -⟩ := compileTopics_ok.mp htopics
      refine and_congr (address_holds hhex) ?_
      rw [topics_hold hhex, topics_selected hall]
      simp only [Option.some.injEq, Sdk.HandlerFilter.log.injEq, forall_eq', hselector,
        exists_eq_left']
    | transaction f => cases hf
    | block f => cases hf

theorem compileTransaction_ok (hhex : LowerHex p s) {f : EvmTransactionFilter} :
    compileTransaction p s (contract.map p.formatAddress) handler = .ok f ↔
      (handler.filter = none ∧ f = ⟨contract.map p.formatAddress, none, none⟩) ∨
      ∃ g selector, handler.filter = some (.transaction g) ∧ s.function g.function = some selector ∧
        (∀ raw ∈ g.fromAddress, (p.parseAddress raw).isSome) ∧
        (∀ raw ∈ g.toAddress, ∃ a, p.parseAddress raw = some a ∧ ∀ c ∈ contract, c = a) ∧
        f = ⟨((g.toAddress.bind p.parseAddress).or contract).map p.formatAddress,
          (g.fromAddress.bind p.parseAddress).map p.formatAddress,
          some (s.formatSelector selector)⟩ := by
  rw [compileTransaction]
  cases hfilter : handler.filter with
  | none =>
    constructor
    · intro h
      cases h
      exact .inl ⟨rfl, rfl⟩
    · rintro (⟨-, rfl⟩ | ⟨_, _, hsome, -⟩)
      · rfl
      · cases hsome
  | some filter =>
    cases filter with
    | log g => simp
    | block g => simp
    | transaction g =>
      simp only [bind_eq_ok, okOr_eq_ok, address_ok, recipient_ok hhex, pure_eq_ok]
      constructor
      · rintro ⟨selector, hselector, sender, ⟨hsender, rfl⟩, wanted, ⟨hwanted, rfl⟩, rfl⟩
        exact .inr ⟨g, selector, rfl, hselector, hsender, hwanted, rfl⟩
      · rintro (⟨hnone, -⟩ | ⟨g', selector, hg, hselector, hsender, hwanted, rfl⟩)
        · cases hnone
        · cases hg
          exact ⟨selector, hselector, _, ⟨hsender, rfl⟩, _, ⟨hwanted, rfl⟩, rfl⟩

theorem recipient_holds (hhex : LowerHex p s) {wanted actual : Option (BitVec 160)} :
    (∀ expected ∈ wanted.map p.formatAddress, ∃ a, actual.map p.formatAddress = some a ∧
      value expected = value a) ↔ ∀ w ∈ wanted, actual = some w := by
  cases wanted with
  | none => simp
  | some w =>
    cases actual with
    | none => simp
    | some a =>
      simp only [Option.map_some, Option.mem_some_iff, forall_eq', Option.some.injEq,
        exists_eq_left']
      exact hhex.address_inj.trans eq_comm

theorem wanted_iff {target : Option String} {actual : Option (BitVec 160)}
    (h : ∀ raw ∈ target, ∃ a, p.parseAddress raw = some a ∧ ∀ c ∈ contract, c = a) :
    (∀ w ∈ (target.bind p.parseAddress).or contract, actual = some w) ↔
      (target = none → ∀ a ∈ contract, actual = some a) ∧
        ∀ raw ∈ target, ∃ a, p.parseAddress raw = some a ∧ actual = some a := by
  cases target with
  | none => simp
  | some raw =>
    obtain ⟨a, ha, -⟩ := h raw rfl
    simp [ha]

theorem sender_iff {sender : Option String} {actual : BitVec 160}
    (h : ∀ raw ∈ sender, (p.parseAddress raw).isSome) :
    (∀ c ∈ sender.bind p.parseAddress, actual = c) ↔
      ∀ raw ∈ sender, ∃ a, p.parseAddress raw = some a ∧ actual = a := by
  cases sender with
  | none => simp
  | some raw =>
    obtain ⟨a, ha⟩ := Option.isSome_iff_exists.mp (h raw rfl)
    simp only [Option.bind_some, ha, Option.mem_some_iff, forall_eq', Option.some.injEq,
      exists_eq_left']

theorem compileTransaction_selects (hhex : LowerHex p s) {f : EvmTransactionFilter}
    (hf : compileTransaction p s (contract.map p.formatAddress) handler = .ok f)
    {t : EvmTransaction} {v : TransactionValue} (ht : TransactionWritten p t v) :
    f.matches t.view = true ↔ SelectsTransaction p s contract handler.filter v := by
  rw [transactionFilter_matches, EvmTransactionFilter.Holds, SelectsTransaction,
    EvmTransaction.view, ht.toAddress, ht.fromAddress, ht.input]
  rcases (compileTransaction_ok hhex).mp hf with ⟨hfilter, rfl⟩ | ⟨g, selector, hfilter, hselector,
    hsender, hwanted, rfl⟩
  · rw [hfilter, recipient_holds hhex]
    simp
  · rw [hfilter, recipient_holds hhex, address_holds hhex]
    simp only [Option.some.injEq, Sdk.HandlerFilter.transaction.injEq, forall_eq',
      Option.mem_some_iff, hhex.selector_starts, hselector, exists_eq_left']
    rw [wanted_iff hwanted, sender_iff hsender]
    tauto

end Compile

section Count
variable {p : Primitives} {s : Signatures} {project : Sdk.ProjectManifest} {ds : Sdk.DataSource}
  {handler : Sdk.Handler} {h : PreparedHandler} {b : EvmBlock} {v : BlockValue}

theorem countP_eq {A B : Type} {f : A → Bool} {P : B → Prop} {R : A → B → Prop} {xs : List A}
    {ys : List B} (h : List.Forall₂ R xs ys) (hR : ∀ x y, R x y → (f x = true ↔ P y)) :
    xs.countP f = countWhere P ys := by
  classical
  rw [countWhere]
  induction h with
  | nil => rfl
  | @cons x y xs ys hxy _ ih =>
    rw [List.countP_cons, List.countP_cons, ih]
    have hsame : f x = decide (P y) := by
      rw [Bool.eq_iff_iff, decide_eq_true_eq]
      exact hR x y hxy
    rw [hsame]

theorem compileBlock_ok {modulo : Option Nat} : compileBlock handler = .ok modulo ↔
    (handler.filter = none ∧ modulo = none) ∨ ∃ f, handler.filter = some (.block f) ∧
      f.modulo ≠ some 0 ∧ f.timestamp = none ∧ modulo = f.modulo := by
  rw [compileBlock]
  cases hfilter : handler.filter with
  | none =>
    constructor
    · intro h
      cases h
      exact .inl ⟨rfl, rfl⟩
    · rintro (⟨-, rfl⟩ | ⟨_, hsome, -⟩)
      · rfl
      · cases hsome
  | some filter =>
    cases filter with
    | log f => simp
    | transaction f => simp
    | block f =>
      simp only [ite_ok_eq_ok]
      constructor
      · rintro ⟨⟨hzero, htime⟩, hmodulo⟩
        cases hmodulo
        exact .inr ⟨f, rfl, hzero, htime, rfl⟩
      · rintro (⟨hnone, -⟩ | ⟨g, hg, hzero, htime, rfl⟩)
        · cases hnone
        · cases hg
          exact ⟨⟨hzero, htime⟩, rfl⟩

theorem compileBlock_selects {modulo : Option Nat} (hf : compileBlock handler = .ok modulo)
    (n : Nat) : (modulo.all fun m => isMultipleOf n m) = true ↔ SelectsBlock handler.filter n := by
  rcases compileBlock_ok.mp hf with ⟨hfilter, rfl⟩ | ⟨f, hfilter, hzero, -, rfl⟩
  · simp [SelectsBlock, hfilter]
  · have hselects : SelectsBlock handler.filter n ↔ ∀ m, f.modulo = some m → m ∣ n := by
      rw [SelectsBlock, hfilter]
      constructor
      · exact fun h m => h f m rfl
      · rintro h g m hg
        cases hg
        exact h m
    rw [hselects]
    cases hmodulo : f.modulo with
    | none => simp
    | some m =>
      have hm : m ≠ 0 := fun hm => hzero (hm ▸ hmodulo)
      simp [isMultipleOf, hm, Nat.dvd_iff_mod_eq_zero]

theorem compileFilter_ok {contract : Option String} {filter : InputFilter} :
    compileFilter p s contract handler = .ok filter ↔
      (handler.kind = "evm/LogHandler" ∧
        ∃ f, compileLog p s contract handler = .ok f ∧ filter = .log f) ∨
      (handler.kind = "evm/TransactionHandler" ∧
        ∃ f, compileTransaction p s contract handler = .ok f ∧ filter = .transaction f) ∨
      (handler.kind = "evm/BlockHandler" ∧
        ∃ m, compileBlock handler = .ok m ∧ filter = .block m) := by
  have hmap : ∀ {A : Type} {x : Except ChainError A} {g : A → InputFilter},
      x.map g = .ok filter ↔ ∃ a, x = .ok a ∧ filter = g a := by
    intro A x g
    cases x with
    | error e => simp [Except.map]
    | ok a => simp [Except.map, eq_comm]
  rw [compileFilter]
  split_ifs with hlog htx hblock
  · simp [hmap, hlog]
  · simp [hmap, htx]
  · simp [hmap, hblock]
  · simp [hlog, htx, hblock]

theorem window_iff {start n : Nat} {stop : Option Nat} :
    (decide (n < start) || stop.any fun stop => stop < n) = true ↔
      ¬(start ≤ n ∧ ∀ last ∈ stop, n ≤ last) := by
  cases stop with
  | none => simp
  | some last =>
    simp only [Option.any_some, Bool.or_eq_true, decide_eq_true_eq, Option.mem_some_iff, forall_eq']
    omega

theorem matchingInputs_eq (hhex : LowerHex p s) (hnorm : Normalised p b v)
    (hok : prepareHandler p s project ds ((contractOf p ds).map p.formatAddress) handler = .ok h) :
    h.matchingInputs b = manifestCount p s project ds handler v := by
  obtain ⟨filter, hfilter, hok⟩ := bind_eq_ok.mp hok
  cases hok
  rw [PreparedHandler.matchingInputs, manifestCount, hnorm.number]
  by_cases hwindow : project.effectiveStartBlock ds ≤ v.number ∧ ∀ stop ∈ ds.endBlock, v.number ≤ stop
  · rw [if_pos hwindow, if_neg fun hout => window_iff.mp hout hwindow]
    rcases compileFilter_ok.mp hfilter with ⟨hkind, f, hf, rfl⟩ | ⟨hkind, f, hf, rfl⟩ |
      ⟨hkind, m, hm, rfl⟩
    · rw [if_pos hkind]
      exact countP_eq hnorm.logs fun l lv hl => compileLog_selects hhex hf hl
    · rw [if_neg (by rw [hkind]; decide), if_pos hkind]
      exact countP_eq hnorm.transactions fun t tv ht => compileTransaction_selects hhex hf ht
    · rw [if_neg (by rw [hkind]; decide), if_neg (by rw [hkind]; decide)]
      have hselects := compileBlock_selects hm v.number
      split_ifs with hblock
      · exact congrArg Bool.toNat (hselects.mpr hblock.2)
      · exact congrArg Bool.toNat (Bool.eq_false_iff.mpr fun h => hblock ⟨hkind, hselects.mp h⟩)
  · rw [if_neg hwindow, if_pos (window_iff.mpr hwindow)]

end Count

end Project

end SuperqueryNode.Evm

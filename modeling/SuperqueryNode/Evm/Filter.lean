import Mathlib.Data.Option.Basic
import SuperqueryNode.Evm.Block
import SuperqueryNode.Lib.Fallible
import SuperqueryNode.Lib.HexText

namespace SuperqueryNode.Evm
open HexText

inductive TopicFilter where
  | any
  | one (value : String)
  | anyOf (values : List String)
deriving DecidableEq, Repr

structure EvmLogFilter where
  address : Option String
  topics : List TopicFilter
deriving DecidableEq, Repr

structure EvmTransactionFilter where
  toAddress : Option String
  fromAddress : Option String
  function : Option String
deriving DecidableEq, Repr

structure LogView where
  address : String
  topics : List String
deriving DecidableEq, Repr

structure TransactionView where
  toAddress : Option String
  fromAddress : String
  input : String
deriving DecidableEq, Repr

def EvmLog.view (l : EvmLog) : LogView := ⟨l.address, l.topics⟩

def EvmTransaction.view (tx : EvmTransaction) : TransactionView :=
  ⟨tx.toAddress, tx.fromAddress, tx.input⟩

def eqHex (a b : String) : Bool :=
  byteLength (strip a.toList) == byteLength (strip b.toList) &&
    eqIgnoreAsciiCase (strip a.toList) (strip b.toList)

def inputStartsWithSelector (input selector : String) : Bool :=
  let input := strip input.toList
  let selector := strip selector.toList
  if selector.isEmpty || byteLength input < byteLength selector then false
  else (getPrefix (byteLength selector) input).any fun start => eqIgnoreAsciiCase start selector

def TopicFilter.matches : TopicFilter → String → Bool
  | any, _ => true
  | one expected, topic => eqHex expected topic
  | anyOf options, topic => options.any fun o => eqHex o topic

-- A constraint past the log's topics holds only when it asserts nothing.
def TopicFilter.holdsAt (constraint : TopicFilter) : Option String → Bool
  | some topic => constraint.matches topic
  | none => constraint == .any

def EvmLogFilter.matches (f : EvmLogFilter) (log : LogView) : Bool :=
  f.address.all (fun expected => eqHex expected log.address) &&
    f.topics.zipIdx.all fun p => p.1.holdsAt log.topics[p.2]?

def EvmLogFilter.pinnedTopic0 (f : EvmLogFilter) : Option String :=
  match f.topics.head? with
  | some (.one topic) => some topic
  | _ => none

def EvmTransactionFilter.matches (f : EvmTransactionFilter) (tx : TransactionView) : Bool :=
  f.toAddress.all (fun expected => tx.toAddress.any fun actual => eqHex expected actual) &&
    f.fromAddress.all (fun expected => eqHex expected tx.fromAddress) &&
    f.function.all fun selector => inputStartsWithSelector tx.input selector

section Values

def TopicFilter.Allows : TopicFilter → List Char → Prop
  | any, _ => True
  | one expected, topic => value expected = topic
  | anyOf options, topic => ∃ o ∈ options, value o = topic

def EvmLogFilter.Holds (f : EvmLogFilter) (log : LogView) : Prop :=
  (∀ expected ∈ f.address, value expected = value log.address) ∧
    ∀ (i : Nat) (constraint : TopicFilter), f.topics[i]? = some constraint →
      constraint = .any ∨ ∃ topic, log.topics[i]? = some topic ∧ constraint.Allows (value topic)

def EvmTransactionFilter.Holds (f : EvmTransactionFilter) (tx : TransactionView) : Prop :=
  (∀ expected ∈ f.toAddress, ∃ actual, tx.toAddress = some actual ∧ value expected = value actual) ∧
    (∀ expected ∈ f.fromAddress, value expected = value tx.fromAddress) ∧
    ∀ selector ∈ f.function, value selector ≠ [] ∧ value selector <+: value tx.input

variable {a b : String} {f : EvmLogFilter} {log : LogView}

theorem eqHex_iff : eqHex a b = true ↔ value a = value b := by
  rw [eqHex, Bool.and_eq_true, beq_iff_eq, value, value, ← eqIgnoreAsciiCase_iff]
  exact ⟨fun h => h.2, fun h => ⟨byteLength_of_eq h, h⟩⟩

theorem inputStartsWithSelector_iff : inputStartsWithSelector a b = true ↔
    value b ≠ [] ∧ value b <+: value a := by
  rw [inputStartsWithSelector, value, value, ← getPrefix_lower]
  simp only [ne_eq, List.map_eq_nil_iff]
  split_ifs with hrejected
  · simp only [Bool.or_eq_true, List.isEmpty_iff, decide_eq_true_eq] at hrejected
    refine ⟨fun h => (by cases h), ?_⟩
    rintro ⟨hne, hstart⟩
    rw [Option.any_eq_true] at hstart
    obtain ⟨start, hget, -⟩ := hstart
    obtain ⟨hlength, t, ht⟩ := getPrefix_eq_some hget
    rcases hrejected with hnil | hshort
    · exact absurd hnil hne
    · rw [← ht, byteLength_append] at hshort
      omega
  · simp only [Bool.or_eq_true, List.isEmpty_iff, decide_eq_true_eq, not_or] at hrejected
    exact ⟨fun h => ⟨hrejected.1, h⟩, fun h => h.2⟩

theorem topicFilter_matches {constraint : TopicFilter} :
    constraint.matches a = true ↔ constraint.Allows (value a) := by
  cases constraint with
  | any => simp [TopicFilter.matches, TopicFilter.Allows]
  | one expected => exact eqHex_iff
  | anyOf options => simp [TopicFilter.matches, TopicFilter.Allows, eqHex_iff]

theorem holdsAt_iff {constraint : TopicFilter} {topic : Option String} :
    constraint.holdsAt topic = true ↔
      constraint = .any ∨ ∃ t, topic = some t ∧ constraint.Allows (value t) := by
  cases topic with
  | none => simp [TopicFilter.holdsAt]
  | some t =>
    simp only [TopicFilter.holdsAt, topicFilter_matches, Option.some.injEq, exists_eq_left']
    constructor
    · exact .inr
    · rintro (rfl | h)
      · trivial
      · exact h

theorem logFilter_matches : f.matches log = true ↔ f.Holds log := by
  rw [EvmLogFilter.matches, EvmLogFilter.Holds, Bool.and_eq_true, List.all_eq_true]
  refine and_congr ?_ ?_
  · simp only [Option.all_eq_true, eqHex_iff]
    exact Iff.rfl
  · simp only [holdsAt_iff, List.mem_zipIdx_iff_getElem?, Prod.forall]
    exact ⟨fun h i constraint hi => h constraint i hi, fun h constraint i hi => h i constraint hi⟩

theorem transactionFilter_matches {g : EvmTransactionFilter} {tx : TransactionView} :
    g.matches tx = true ↔ g.Holds tx := by
  rw [EvmTransactionFilter.matches, EvmTransactionFilter.Holds, Bool.and_eq_true,
    Bool.and_eq_true, and_assoc]
  simp only [Option.all_eq_true, Option.any_eq_true, eqHex_iff, inputStartsWithSelector_iff,
    Option.mem_def]

theorem pinnedTopic0_matches {t : String} (hpinned : f.pinnedTopic0 = some t)
    (hmatches : f.matches log = true) :
    ∃ topic, log.topics[0]? = some topic ∧ value t = value topic := by
  rw [EvmLogFilter.pinnedTopic0] at hpinned
  split at hpinned
  next topic hhead =>
    cases hpinned
    rw [List.head?_eq_getElem?] at hhead
    have hholds := (logFilter_matches.mp hmatches).2 0 _ hhead
    rcases hholds with hany | htopic
    · cases hany
    · exact htopic
  next => cases hpinned

end Values

section Respelling

inductive TopicFilter.Respelled : TopicFilter → TopicFilter → Prop where
  | any : TopicFilter.Respelled .any .any
  | one {a a' : String} (h : HexText.Respelled a a') : TopicFilter.Respelled (.one a) (.one a')
  | anyOf {l l' : List String} (h : List.Forall₂ HexText.Respelled l l') :
      TopicFilter.Respelled (.anyOf l) (.anyOf l')

structure EvmLogFilter.Respelled (f f' : EvmLogFilter) : Prop where
  address : Option.Rel HexText.Respelled f.address f'.address
  topics : List.Forall₂ TopicFilter.Respelled f.topics f'.topics

structure LogView.Respelled (v v' : LogView) : Prop where
  address : HexText.Respelled v.address v'.address
  topics : List.Forall₂ HexText.Respelled v.topics v'.topics

structure EvmTransactionFilter.Respelled (f f' : EvmTransactionFilter) : Prop where
  toAddress : Option.Rel HexText.Respelled f.toAddress f'.toAddress
  fromAddress : Option.Rel HexText.Respelled f.fromAddress f'.fromAddress
  function : Option.Rel HexText.Respelled f.function f'.function

structure TransactionView.Respelled (v v' : TransactionView) : Prop where
  toAddress : Option.Rel HexText.Respelled v.toAddress v'.toAddress
  fromAddress : HexText.Respelled v.fromAddress v'.fromAddress
  input : HexText.Respelled v.input v'.input

theorem eqHex_respelled {a a' b b' : String} (ha : HexText.Respelled a a')
    (hb : HexText.Respelled b b') : eqHex a b = eqHex a' b' := by
  rw [Bool.eq_iff_iff, eqHex_iff, eqHex_iff, value_respelled ha, value_respelled hb]

theorem topic_respelled {c c' : TopicFilter} {t t' : String} (hc : c.Respelled c')
    (ht : HexText.Respelled t t') : c.matches t = c'.matches t' := by
  cases hc with
  | any => rfl
  | one h => exact eqHex_respelled h ht
  | anyOf h =>
    simp only [TopicFilter.matches]
    induction h with
    | nil => rfl
    | cons ho _ ih => rw [List.any_cons, List.any_cons, eqHex_respelled ho ht, ih]

theorem holdsAt_respelled {c c' : TopicFilter} {o o' : Option String} (hc : c.Respelled c')
    (ho : Option.Rel HexText.Respelled o o') : c.holdsAt o = c'.holdsAt o' := by
  cases ho with
  | none => cases hc <;> rfl
  | some ht => exact topic_respelled hc ht

theorem zipIdx_all_respelled {l l' : List TopicFilter} {v v' : LogView}
    (hl : List.Forall₂ TopicFilter.Respelled l l') (hv : v.Respelled v') (n : Nat) :
    ((l.zipIdx n).all fun p => p.1.holdsAt v.topics[p.2]?) =
      (l'.zipIdx n).all fun p => p.1.holdsAt v'.topics[p.2]? := by
  induction hl generalizing n with
  | nil => rfl
  | cons hc _ ih =>
    rw [List.zipIdx_cons, List.zipIdx_cons, List.all_cons, List.all_cons, ih,
      holdsAt_respelled hc (Fallible.forall₂_getElem? hv.topics n)]

theorem optionAll_respelled {o o' : Option String} {p p' : String → Bool}
    (ho : Option.Rel HexText.Respelled o o')
    (hp : ∀ a a', HexText.Respelled a a' → p a = p' a') : o.all p = o'.all p' := by
  cases ho with
  | none => rfl
  | some h => exact hp _ _ h

theorem optionAny_respelled {o o' : Option String} {p p' : String → Bool}
    (ho : Option.Rel HexText.Respelled o o')
    (hp : ∀ a a', HexText.Respelled a a' → p a = p' a') : o.any p = o'.any p' := by
  cases ho with
  | none => rfl
  | some h => exact hp _ _ h

theorem logFilter_respelled {f f' : EvmLogFilter} {v v' : LogView} (hf : f.Respelled f')
    (hv : v.Respelled v') : f.matches v = f'.matches v' := by
  rw [EvmLogFilter.matches, EvmLogFilter.matches, zipIdx_all_respelled hf.topics hv]
  congr 1
  exact optionAll_respelled hf.address fun a a' ha => eqHex_respelled ha hv.address

theorem selector_respelled {a a' b b' : String} (ha : HexText.Respelled a a')
    (hb : HexText.Respelled b b') :
    inputStartsWithSelector a b = inputStartsWithSelector a' b' := by
  rw [Bool.eq_iff_iff, inputStartsWithSelector_iff, inputStartsWithSelector_iff,
    value_respelled ha, value_respelled hb]

theorem transactionFilter_respelled {f f' : EvmTransactionFilter} {v v' : TransactionView}
    (hf : f.Respelled f') (hv : v.Respelled v') : f.matches v = f'.matches v' := by
  have hto : ∀ a a', HexText.Respelled a a' →
      (v.toAddress.any fun actual => eqHex a actual) =
        v'.toAddress.any fun actual => eqHex a' actual :=
    fun a a' ha => optionAny_respelled hv.toAddress fun b b' hb => eqHex_respelled ha hb
  rw [EvmTransactionFilter.matches, EvmTransactionFilter.matches]
  congr 1
  · congr 1
    · exact optionAll_respelled hf.toAddress hto
    · exact optionAll_respelled hf.fromAddress fun a a' ha => eqHex_respelled ha hv.fromAddress
  · exact optionAll_respelled hf.function fun a a' ha => selector_respelled hv.input ha

end Respelling

theorem filters_match_by_value :
    (∀ (f f' : EvmLogFilter) (v v' : LogView), f.Respelled f' → v.Respelled v' →
      f.matches v = f'.matches v') ∧
    (∀ (f f' : EvmTransactionFilter) (v v' : TransactionView), f.Respelled f' → v.Respelled v' →
      f.matches v = f'.matches v') ∧
    (∀ (f : EvmLogFilter) (v : LogView), f.matches v = true ↔ f.Holds v) ∧
    (∀ (f : EvmTransactionFilter) (v : TransactionView), f.matches v = true ↔ f.Holds v) ∧
    ∀ (f : EvmLogFilter) (t : String), f.pinnedTopic0 = some t → ∀ v : LogView, f.matches v = true →
      ∃ topic, v.topics[0]? = some topic ∧ value t = value topic :=
  ⟨fun _ _ _ _ => logFilter_respelled, fun _ _ _ _ => transactionFilter_respelled,
    fun _ _ => logFilter_matches, fun _ _ => transactionFilter_matches,
    fun _ _ hpinned _ => pinnedTopic0_matches hpinned⟩

def usdc : String := "0xA0b86991c6218b36c1d19D4a2e9Eb0cE3606eB48"

def usdcBare : String := "a0b86991c6218b36c1d19d4a2e9eb0ce3606eb48"

theorem usdc_digits : (∀ c ∈ usdc.toList.drop 2, isDigit c = true) ∧
    ∀ c ∈ usdcBare.toList, isDigit c = true :=
  ⟨List.all_eq_true.mp (by decide), List.all_eq_true.mp (by decide)⟩

theorem usdc_respelled : HexText.Respelled usdc usdcBare :=
  ⟨usdc.toList.drop 2, usdcBare.toList, ⟨usdc_digits.1, .inr (by decide)⟩,
    ⟨usdc_digits.2, .inl rfl⟩, by decide⟩

theorem usdc_filters_agree :
    EvmLogFilter.matches ⟨some usdc, [.any]⟩ ⟨usdcBare, []⟩ =
      EvmLogFilter.matches ⟨some usdcBare, [.any]⟩ ⟨usdcBare, []⟩ := by
  have hbare : HexText.Respelled usdcBare usdcBare :=
    ⟨usdcBare.toList, usdcBare.toList, ⟨usdc_digits.2, .inl rfl⟩, ⟨usdc_digits.2, .inl rfl⟩, rfl⟩
  exact filters_match_by_value.1 _ _ _ _ ⟨.some usdc_respelled, .cons .any .nil⟩ ⟨hbare, .nil⟩

end SuperqueryNode.Evm

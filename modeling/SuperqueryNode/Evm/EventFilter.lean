import SuperqueryNode.ChainApi.Filter
import SuperqueryNode.Evm.Filter

namespace SuperqueryNode.Evm
open ChainApi

namespace TopicFilter

def toValue : TopicFilter → Json
  | any => .null
  | one s => .string s
  | anyOf l => .array (l.map Json.string)

-- The variants are tried in the order they are declared.
def fromValue : Json → Option TopicFilter
  | .null => some any
  | v => ((Codec.string.fromValue v).map one).or ((Codec.string.list.fromValue v).map anyOf)

def codec : Codec TopicFilter where
  toValue := toValue
  fromValue := fromValue
  fromValue_toValue := by
    intro t
    cases t with
    | any => rfl
    | one s => rfl
    | anyOf l =>
      have hlist := Codec.string.list.fromValue_toValue l
      rw [toValue, fromValue]
      · exact congrArg (Option.map anyOf) hlist
      · simp

end TopicFilter

namespace EvmLogFilter

def toValue (f : EvmLogFilter) : Json := .object
  [("address", Codec.optionString.toValue f.address),
    ("topics", TopicFilter.codec.list.toValue f.topics)]

-- An array gives the fields by position; a missing `topics` is the empty list either way.
def fromValue : Json → Option EvmLogFilter
  | .object fields => do
    let address ← Codec.optionField Codec.optionString fields "address"
    let topics ← Codec.defaultField TopicFilter.codec.list [] fields "topics"
    return ⟨address, topics⟩
  | .array [address] => do
    let address ← Codec.optionString.fromValue address
    return ⟨address, []⟩
  | .array [address, topics] => do
    let address ← Codec.optionString.fromValue address
    let topics ← TopicFilter.codec.list.fromValue topics
    return ⟨address, topics⟩
  | _ => none

def codec : Codec EvmLogFilter where
  toValue := toValue
  fromValue := fromValue
  fromValue_toValue := by
    rintro ⟨address, topics⟩
    have haddress := Codec.optionString.fromValue_toValue address
    have htopics := TopicFilter.codec.list.fromValue_toValue topics
    have hread : fromValue (toValue ⟨address, topics⟩) =
        (Codec.optionString.fromValue (Codec.optionString.toValue address)).bind fun address =>
          (TopicFilter.codec.list.fromValue (TopicFilter.codec.list.toValue topics)).bind
            fun topics => some ⟨address, topics⟩ := rfl
    rw [hread, haddress, htopics]
    rfl

end EvmLogFilter

namespace EvmTransactionFilter

def toValue (f : EvmTransactionFilter) : Json := .object
  [("from", Codec.optionString.toValue f.fromAddress),
    ("function", Codec.optionString.toValue f.function),
    ("to", Codec.optionString.toValue f.toAddress)]

def fromValue : Json → Option EvmTransactionFilter
  | .object fields => do
    let toAddress ← Codec.optionField Codec.optionString fields "to"
    let fromAddress ← Codec.optionField Codec.optionString fields "from"
    let function ← Codec.optionField Codec.optionString fields "function"
    return ⟨toAddress, fromAddress, function⟩
  | .array [toAddress, fromAddress, function] => do
    let toAddress ← Codec.optionString.fromValue toAddress
    let fromAddress ← Codec.optionString.fromValue fromAddress
    let function ← Codec.optionString.fromValue function
    return ⟨toAddress, fromAddress, function⟩
  | _ => none

def codec : Codec EvmTransactionFilter where
  toValue := toValue
  fromValue := fromValue
  fromValue_toValue := by
    rintro ⟨toAddress, fromAddress, function⟩
    have hto := Codec.optionString.fromValue_toValue toAddress
    have hfrom := Codec.optionString.fromValue_toValue fromAddress
    have hfunction := Codec.optionString.fromValue_toValue function
    have hread : fromValue (toValue ⟨toAddress, fromAddress, function⟩) =
        (Codec.optionString.fromValue (Codec.optionString.toValue toAddress)).bind fun recipient =>
          (Codec.optionString.fromValue (Codec.optionString.toValue fromAddress)).bind fun sender =>
            (Codec.optionString.fromValue (Codec.optionString.toValue function)).bind
              fun selector => some ⟨recipient, sender, selector⟩ := rfl
    rw [hread, hto, hfrom, hfunction]
    rfl

end EvmTransactionFilter

section Events
variable (complaint : Json → String)

-- A block handler runs for each block, and so for no event.
def eventMatchesFilter (event : EvmEvent) (filter : Filter) : Bool :=
  match filter.handler with
  | .event =>
    match filter.parseParams complaint EvmLogFilter.codec with
    | .ok logFilter => logFilter.matches event.log.view
    | .error _ => false
  | .transaction =>
    match event.transaction, filter.parseParams complaint EvmTransactionFilter.codec with
    | some tx, .ok txFilter => txFilter.matches tx.view
    | _, _ => false
  | .block => false

structure PathsAgree (filter : Filter) : Prop where
  log : ∀ f : EvmLogFilter, filter.handler = .event → filter.params = f.toValue →
    ∀ e, eventMatchesFilter complaint e filter = f.matches e.log.view
  transaction : ∀ f : EvmTransactionFilter, filter.handler = .transaction →
    filter.params = f.toValue → ∀ e tx, e.transaction = some tx →
      eventMatchesFilter complaint e filter = f.matches tx.view
  unconstrained : filter.params = .null →
    ∀ e, (filter.handler = .transaction → e.transaction.isSome) →
      eventMatchesFilter complaint e filter = true

variable {complaint} {filter : Filter} {e : EvmEvent}

theorem eventMatches_log {f : EvmLogFilter} (hkind : filter.handler = .event)
    (hparams : filter.params = f.toValue) :
    eventMatchesFilter complaint e filter = f.matches e.log.view := by
  have hparsed : filter.parseParams complaint EvmLogFilter.codec = .ok f :=
    Filter.parseParams_toValue hparams
  simp only [eventMatchesFilter, hkind, hparsed]

theorem eventMatches_transaction {f : EvmTransactionFilter} {tx : EvmTransaction}
    (hkind : filter.handler = .transaction) (hparams : filter.params = f.toValue)
    (htx : e.transaction = some tx) :
    eventMatchesFilter complaint e filter = f.matches tx.view := by
  have hparsed : filter.parseParams complaint EvmTransactionFilter.codec = .ok f :=
    Filter.parseParams_toValue hparams
  simp only [eventMatchesFilter, hkind, hparsed, htx]

-- `null` is no object, so the filter that constrains nothing does not parse and selects nothing.
theorem eventMatches_null (hparams : filter.params = .null) :
    eventMatchesFilter complaint e filter = false := by
  have hlog : ∃ message, filter.parseParams complaint EvmLogFilter.codec = .error message := by
    rw [Filter.parseParams, hparams]
    exact ⟨_, rfl⟩
  have htx : ∃ message, filter.parseParams complaint EvmTransactionFilter.codec = .error message := by
    rw [Filter.parseParams, hparams]
    exact ⟨_, rfl⟩
  obtain ⟨message, hlog⟩ := hlog
  obtain ⟨message', htx⟩ := htx
  rw [eventMatchesFilter]
  cases filter.handler with
  | block => rfl
  | event => simp only [hlog]
  | transaction =>
    simp only [htx]
    cases e.transaction <;> rfl

def someEvent : EvmEvent :=
  ⟨⟨"0x", [], "0x", 0, "0x", 0⟩, some ⟨"0x", 0, "0x", none, "0", "0x"⟩, 0⟩

theorem params_of_agree (hagree : PathsAgree complaint filter) : filter.params ≠ .null := by
  intro hparams
  have haccepts := hagree.unconstrained hparams someEvent fun _ => rfl
  rw [eventMatches_null hparams] at haccepts
  cases haccepts

theorem paths_agree_iff (complaint : Json → String) (filter : Filter) :
    PathsAgree complaint filter ↔ filter.params ≠ .null := by
  refine ⟨params_of_agree, fun hparams => ?_⟩
  constructor
  case log => exact fun f hkind hvalue e => eventMatches_log hkind hvalue
  case transaction => exact fun f hkind hvalue e tx htx => eventMatches_transaction hkind hvalue htx
  case unconstrained => exact fun hnull => absurd hnull hparams

theorem new_filter_selects_nothing :
    ¬PathsAgree (fun _ => "invalid type: null, expected struct EvmLogFilter") (.new .event) :=
  fun h => params_of_agree h rfl

end Events

end SuperqueryNode.Evm

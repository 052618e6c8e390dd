import Mathlib.Logic.Function.Basic
import Mathlib.Tactic.SplitIfs
import SuperqueryNode.Lib.Json

namespace SuperqueryNode.Runtime

inductive Status where
  | ok
  | notFound
  | invalidArgument
  | unknownEntity
  | storeError
  | capabilityDenied
  | resourceExhausted
deriving DecidableEq, Repr

namespace Status

def code : Status → Int
  | ok => 0
  | notFound => 1
  | invalidArgument => -1
  | unknownEntity => -2
  | storeError => -3
  | capabilityDenied => -4
  | resourceExhausted => -5

def isError (s : Status) : Bool := s.code < 0

end Status

structure BlockContext where
  height : Nat
  hash : String
  parentHash : Option String
  timestamp : Option String
deriving DecidableEq, Repr

inductive OperationType where
  | set
  | remove
deriving DecidableEq, Repr

-- The data is the whole entity of a set, and the id alone of a removal.
structure Operation where
  operation : OperationType
  entityType : String
  data : Json

def isObject : Json → Bool
  | .object _ => true
  | _ => false

structure HostContext where
  block : BlockContext
  operations : List Operation
  knownEntities : List String

namespace HostContext

def new (block : BlockContext) (knownEntities : List String) : HostContext :=
  ⟨block, [], knownEntities⟩

def knowsEntity (ctx : HostContext) (entity : String) : Bool :=
  ctx.knownEntities.any fun e => e == entity

def push (ctx : HostContext) (o : Operation) : HostContext :=
  { ctx with operations := ctx.operations ++ [o] }

def storeSet (ctx : HostContext) (entity id : String) (data : Json) : Status × HostContext :=
  if !ctx.knowsEntity entity then (.unknownEntity, ctx)
  else if !isObject data then (.invalidArgument, ctx)
  else if (data.get "id").asStr ≠ some id then (.invalidArgument, ctx)
  else (.ok, ctx.push ⟨.set, entity, data⟩)

def storeRemove (ctx : HostContext) (entity id : String) : Status × HostContext :=
  if !ctx.knowsEntity entity then (.unknownEntity, ctx)
  else (.ok, ctx.push ⟨.remove, entity, .string id⟩)

def takeOperations (ctx : HostContext) : List Operation × HostContext :=
  (ctx.operations, { ctx with operations := [] })

theorem knowsEntity_iff {ctx : HostContext} {entity : String} :
    ctx.knowsEntity entity = true ↔ entity ∈ ctx.knownEntities := by
  simp [knowsEntity]

end HostContext

inductive GuestCall where
  | storeSet (entity id : String) (data : Json)
  | storeRemove (entity id : String)

inductive HostStep where
  | call (c : GuestCall)
  | takeOperations

abbrev Entities := String × String → Option Json

namespace Operation

-- An operation names its row by what it carries, not by the call that made it.
def key (o : Operation) : Option (String × String) :=
  match o.operation with
  | .set => (o.data.get "id").asStr.map fun id => (o.entityType, id)
  | .remove => o.data.asStr.map fun id => (o.entityType, id)

def value (o : Operation) : Option Json :=
  match o.operation with
  | .set => some o.data
  | .remove => none

def apply (m : Entities) (o : Operation) : Entities :=
  match o.key with
  | some k => Function.update m k o.value
  | none => m

def replay (m : Entities) (os : List Operation) : Entities := os.foldl apply m

theorem replay_append (m : Entities) (xs ys : List Operation) :
    replay m (xs ++ ys) = replay (replay m xs) ys :=
  List.foldl_append ..

end Operation

namespace GuestCall
variable {c : GuestCall} {known : List String}

def run (c : GuestCall) (ctx : HostContext) : Status × HostContext :=
  match c with
  | storeSet entity id data => ctx.storeSet entity id data
  | storeRemove entity id => ctx.storeRemove entity id

def Accepted (known : List String) : GuestCall → Prop
  | storeSet entity id data => entity ∈ known ∧ (data.get "id").asStr = some id
  | storeRemove entity _ => entity ∈ known

instance (known : List String) (c : GuestCall) : Decidable (c.Accepted known) :=
  match c with
  | storeSet entity id data =>
    inferInstanceAs (Decidable (entity ∈ known ∧ (data.get "id").asStr = some id))
  | storeRemove entity _ => inferInstanceAs (Decidable (entity ∈ known))

def operation : GuestCall → Operation
  | storeSet entity _ data => ⟨.set, entity, data⟩
  | storeRemove entity id => ⟨.remove, entity, .string id⟩

def key : GuestCall → String × String
  | storeSet entity id _ => (entity, id)
  | storeRemove entity id => (entity, id)

def value : GuestCall → Option Json
  | storeSet _ _ data => some data
  | storeRemove _ _ => none

def effect (known : List String) (m : Entities) (c : GuestCall) : Entities :=
  if c.Accepted known then Function.update m c.key c.value else m

theorem isObject_of_id {data : Json} {id : String} (h : (data.get "id").asStr = some id) :
    isObject data = true := by
  cases data with
  | object fields => rfl
  | null | bool | number | string | array => cases h

theorem accepted_run {ctx : HostContext} (h : c.Accepted ctx.knownEntities) :
    c.run ctx = (.ok, ctx.push c.operation) := by
  cases c with
  | storeSet entity id data =>
    have hknown := HostContext.knowsEntity_iff.mpr h.1
    simp [run, HostContext.storeSet, hknown, isObject_of_id h.2, h.2, operation]
  | storeRemove entity id =>
    have hknown := HostContext.knowsEntity_iff.mpr h
    simp [run, HostContext.storeRemove, hknown, operation]

theorem refused_run {ctx : HostContext} (h : ¬c.Accepted ctx.knownEntities) :
    (c.run ctx).1.isError = true ∧ (c.run ctx).2 = ctx := by
  cases c with
  | storeSet entity id data =>
    simp only [run, HostContext.storeSet]
    split_ifs with hknown hobject hid
    · exact ⟨rfl, rfl⟩
    · exact ⟨rfl, rfl⟩
    · exact ⟨rfl, rfl⟩
    · simp only [Bool.not_eq_true', Bool.not_eq_false, not_not] at hknown hid
      exact absurd ⟨HostContext.knowsEntity_iff.mp hknown, hid⟩ h
  | storeRemove entity id =>
    simp only [run, HostContext.storeRemove]
    split_ifs with hknown
    · exact ⟨rfl, rfl⟩
    · simp only [Bool.not_eq_true', Bool.not_eq_false] at hknown
      exact absurd (HostContext.knowsEntity_iff.mp hknown) h

theorem operation_key (h : c.Accepted known) : c.operation.key = some c.key := by
  cases c with
  | storeSet entity id data => simp [operation, Operation.key, key, h.2]
  | storeRemove entity id => rfl

theorem operation_value (c : GuestCall) : c.operation.value = c.value := by
  cases c <;> rfl

theorem key_known (h : c.Accepted known) : c.key.1 ∈ known := by
  cases c with
  | storeSet entity id data => exact h.1
  | storeRemove entity id => exact h

theorem apply_operation (h : c.Accepted known) (m : Entities) :
    c.operation.apply m = c.effect known m := by
  rw [Operation.apply, operation_key h, operation_value, effect, if_pos h]

end GuestCall

structure HostRun where
  context : HostContext
  answers : List Status
  taken : List (List Operation)

namespace HostRun
variable {known : List String} {calls : List GuestCall} {s : HostRun}

def start (ctx : HostContext) : HostRun := ⟨ctx, [], []⟩

def step (s : HostRun) : HostStep → HostRun
  | .call c =>
    { s with
      context := (c.run s.context).2
      answers := s.answers ++ [(c.run s.context).1] }
  | .takeOperations =>
    { s with
      context := s.context.takeOperations.2
      taken := s.taken ++ [s.context.takeOperations.1] }

def run (s : HostRun) (steps : List HostStep) : HostRun := steps.foldl step s

def committed (s : HostRun) (m : Entities) : Entities := Operation.replay m s.taken.flatten

def buffered (s : HostRun) (m : Entities) : Entities :=
  Operation.replay (s.committed m) s.context.operations

theorem run_append (s : HostRun) (xs ys : List HostStep) :
    s.run (xs ++ ys) = (s.run xs).run ys :=
  List.foldl_append ..

end HostRun

def HostStep.guestCall : HostStep → Option GuestCall
  | .call c => some c
  | .takeOperations => none

def guestCalls (steps : List HostStep) : List GuestCall := steps.filterMap HostStep.guestCall

def effects (known : List String) (calls : List GuestCall) (m : Entities) : Entities :=
  calls.foldl (GuestCall.effect known) m

structure Recorded (known : List String) (calls : List GuestCall) (s : HostRun) : Prop where
  schema : s.context.knownEntities = known
  operations : s.taken.flatten ++ s.context.operations =
    (calls.filter fun c => c.Accepted known).map GuestCall.operation
  answers : s.answers.map Status.isError = calls.map fun c => !decide (c.Accepted known)

section Runs
variable {known : List String} {calls : List GuestCall} {s : HostRun}

theorem recorded_start (block : BlockContext) (known : List String) :
    Recorded known [] (.start (.new block known)) :=
  ⟨rfl, rfl, rfl⟩

theorem recorded_call (h : Recorded known calls s) (c : GuestCall) :
    Recorded known (calls ++ [c]) (s.step (.call c)) := by
  obtain ⟨rfl, hoperations, hanswers⟩ := h
  by_cases hc : c.Accepted s.context.knownEntities
  · have hrun := GuestCall.accepted_run hc
    refine ⟨?_, ?_, ?_⟩
    · simp only [HostRun.step, hrun, HostContext.push]
    · simp only [HostRun.step, hrun, HostContext.push]
      rw [← List.append_assoc, hoperations]
      simp [hc]
    · simp only [HostRun.step, hrun, List.map_append, hanswers]
      simp [hc, Status.isError, Status.code]
  · obtain ⟨herror, hsame⟩ := GuestCall.refused_run hc
    refine ⟨?_, ?_, ?_⟩
    · simp only [HostRun.step, hsame]
    · simp only [HostRun.step, hsame, hoperations]
      simp [hc]
    · simp only [HostRun.step, List.map_append, hanswers]
      simp [hc, herror]

theorem recorded_take (h : Recorded known calls s) :
    Recorded known calls (s.step .takeOperations) where
  schema := h.schema
  operations := by
    simp only [HostRun.step, HostContext.takeOperations, List.flatten_append, List.append_nil,
      List.flatten_cons, List.flatten_nil, h.operations]
  answers := h.answers

theorem recorded_step (h : Recorded known calls s) (a : HostStep) :
    Recorded known (calls ++ guestCalls [a]) (s.step a) := by
  cases a with
  | call c => exact recorded_call h c
  | takeOperations =>
    rw [show guestCalls [.takeOperations] = [] from rfl, List.append_nil]
    exact recorded_take h

theorem recorded_run (h : Recorded known calls s) (steps : List HostStep) :
    Recorded known (calls ++ guestCalls steps) (s.run steps) := by
  induction steps generalizing s calls with
  | nil =>
    rw [show guestCalls [] = [] from rfl, List.append_nil]
    exact h
  | cons a steps ih =>
    have hcalls : guestCalls (a :: steps) = guestCalls [a] ++ guestCalls steps :=
      List.filterMap_append (l := [a])
    rw [hcalls, ← List.append_assoc]
    exact ih (recorded_step h a)

theorem recorded_of_run (block : BlockContext) (known : List String) (steps : List HostStep) :
    Recorded known (guestCalls steps) ((HostRun.start (.new block known)).run steps) :=
  recorded_run (recorded_start block known) steps

theorem replay_accepted (known : List String) (calls : List GuestCall) (m : Entities) :
    Operation.replay m ((calls.filter fun c => c.Accepted known).map GuestCall.operation) =
      effects known calls m := by
  induction calls generalizing m with
  | nil => rfl
  | cons c calls ih =>
    rw [show effects known (c :: calls) m = effects known calls (c.effect known m) from rfl, ← ih]
    by_cases hc : c.Accepted known
    · rw [List.filter_cons_of_pos (by simpa using hc), ← GuestCall.apply_operation hc]
      rfl
    · rw [List.filter_cons_of_neg (by simpa using hc), GuestCall.effect, if_neg hc]

theorem buffered_eq (h : Recorded known calls s) (m : Entities) :
    s.buffered m = effects known calls m := by
  rw [HostRun.buffered, HostRun.committed, ← Operation.replay_append, h.operations,
    replay_accepted]

theorem recorded_keyed (h : Recorded known calls s) {o : Operation}
    (ho : o ∈ s.taken.flatten ++ s.context.operations) :
    ∃ entity id, o.key = some (entity, id) ∧ entity ∈ known := by
  rw [h.operations] at ho
  obtain ⟨c, hc, rfl⟩ := List.mem_map.mp ho
  have haccepted : c.Accepted known := by simpa using (List.mem_filter.mp hc).2
  exact ⟨_, _, GuestCall.operation_key haccepted, GuestCall.key_known haccepted⟩

theorem committed_take (s : HostRun) (m : Entities) :
    (s.step .takeOperations).committed m = s.buffered m := by
  rw [HostRun.committed, HostRun.buffered, HostRun.committed, ← Operation.replay_append]
  simp [HostRun.step, HostContext.takeOperations]

theorem committed_calls (s : HostRun) (calls : List GuestCall) (m : Entities) :
    (s.run (calls.map .call)).committed m = s.committed m := by
  induction calls generalizing s with
  | nil => rfl
  | cons c calls ih => exact ih (s.step (.call c))

theorem guestCalls_map (calls : List GuestCall) : guestCalls (calls.map .call) = calls := by
  induction calls with
  | nil => rfl
  | cons c calls ih => exact congrArg (c :: ·) ih

theorem writes_are_buffered (block : BlockContext) (known : List String)
    (before : List HostStep) (after : List GuestCall) (m : Entities) :
    (let s := (HostRun.start (.new block known)).run
      (before ++ .takeOperations :: after.map .call)
    s.committed m = effects known (guestCalls before) m ∧
    s.buffered m = effects known (guestCalls before ++ after) m ∧
    s.answers.map Status.isError =
      (guestCalls before ++ after).map (fun c => !decide (c.Accepted known)) ∧
    ∀ o ∈ s.taken.flatten ++ s.context.operations,
      ∃ entity id, o.key = some (entity, id) ∧ entity ∈ known) ∧
    let untaken := (HostRun.start (.new block known)).run (after.map .call)
    untaken.committed m = m ∧
    untaken.buffered m = effects known after m ∧
    untaken.answers.map Status.isError = after.map (fun c => !decide (c.Accepted known)) ∧
    ∀ o ∈ untaken.taken.flatten ++ untaken.context.operations,
      ∃ entity id, o.key = some (entity, id) ∧ entity ∈ known := by
  have hcalls : guestCalls (before ++ .takeOperations :: after.map .call) =
      guestCalls before ++ after := by
    rw [guestCalls, List.filterMap_append]
    exact congrArg (guestCalls before ++ ·) (guestCalls_map after)
  have hs := recorded_of_run block known (before ++ .takeOperations :: after.map .call)
  rw [hcalls] at hs
  have hcommitted : ((HostRun.start (.new block known)).run
      (before ++ .takeOperations :: after.map .call)).committed m =
        effects known (guestCalls before) m := by
    have hbefore := recorded_of_run block known before
    rw [← buffered_eq hbefore, ← committed_take, HostRun.run_append]
    exact committed_calls _ after m
  have huntaken := recorded_of_run block known (after.map .call)
  rw [guestCalls_map] at huntaken
  exact ⟨⟨hcommitted, buffered_eq hs m, hs.answers, fun o ho => recorded_keyed hs ho⟩,
    committed_calls _ after m, buffered_eq huntaken m, huntaken.answers,
    fun o ho => recorded_keyed huntaken ho⟩

end Runs

end SuperqueryNode.Runtime

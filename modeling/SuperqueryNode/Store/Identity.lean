import SuperqueryNode.Core.Error
import SuperqueryNode.Lib.Fallible
import SuperqueryNode.Lib.LabelledRun
import SuperqueryNode.Store.Metadata

namespace SuperqueryNode.Store
open Fallible LabelledRun

abbrev Fact := String × String

inductive InitOutcome where
  | initialized
  | resumed
deriving DecidableEq, Repr

inductive VerifyCall where
  | verifyOrInitialize (projectId chainId : String)
  | verifyProject (projectId chainId fingerprint abiVersion : String)
deriving DecidableEq, Repr

namespace VerifyCall

def checks : VerifyCall → List Fact
  | verifyOrInitialize projectId chainId =>
    [(Keys.projectId, projectId), (Keys.chainId, chainId), (Keys.schemaVersion, schemaVersion)]
  | verifyProject projectId chainId fingerprint abiVersion =>
    [(Keys.projectId, projectId), (Keys.chainId, chainId), (Keys.schemaVersion, schemaVersion),
      (Keys.manifestHash, fingerprint), (Keys.mappingAbiVersion, abiVersion)]

theorem checks_nodup (call : VerifyCall) : (call.checks.map (·.1)).Nodup := by
  cases call with
  | verifyOrInitialize projectId chainId =>
    exact (by decide : [Keys.projectId, Keys.chainId, Keys.schemaVersion].Nodup)
  | verifyProject projectId chainId fingerprint abiVersion =>
    exact (by decide : [Keys.projectId, Keys.chainId, Keys.schemaVersion, Keys.manifestHash,
      Keys.mappingAbiVersion].Nodup)

end VerifyCall

def conflict (schema key : String) : StoreError :=
  .metadataConflict s!"schema '{schema}' has incompatible {key}"

def examine (schema : String) (table : Metadata) :
    List Fact → List Fact → Except StoreError (List Fact)
  | [], missing => .ok missing
  | (key, expected) :: rest, missing =>
    match table key with
    | some value =>
      if value ≠ expected then .error (conflict schema key) else examine schema table rest missing
    | none => examine schema table rest (missing ++ [(key, expected)])

def verifyFacts (schema : String) (table : Metadata) (call : VerifyCall) :
    Except StoreError (InitOutcome × Metadata) := do
  let missing ← examine schema table call.checks []
  return (if missing.isEmpty then .resumed else .initialized, table.setAll missing)

-- The same transaction step by step: waiting for the table lock, in the loop over the checks, in
-- the loop over the missing facts (`written` are its own writes, published by the commit).
inductive Session where
  | idle
  | opened (call : VerifyCall)
  | checking (call : VerifyCall) (rest missing : List Fact)
  | stamping (call : VerifyCall) (outcome : InitOutcome) (rest written : List Fact)

-- How a call ends. The commit of a `lost` call took place, and the call returned an error.
inductive Answer where
  | ok (outcome : InitOutcome)
  | error (e : StoreError)
  | lost

namespace Answer

def result : Answer → Except StoreError InitOutcome
  | ok outcome => .ok outcome
  | error e => .error e
  | lost => .error (.postgres "connection closed")

def committed : Answer → Bool
  | ok _ => true
  | error _ => false
  | lost => true

end Answer

structure SharedSchema where
  table : Metadata
  lockedBy : Option Nat
  sessions : Nat → Session
  returned : List (VerifyCall × Answer)

inductive Turn where
  | call (p : Nat) (call : VerifyCall)
  | lock (p : Nat)
  | check (p : Nat)
  | stamp (p : Nat)
  | commit (p : Nat)
  | commitLost (p : Nat)
  | fail (p : Nat) (message : String)

namespace SharedSchema

def start (table : Metadata) : SharedSchema := ⟨table, none, fun _ => .idle, []⟩

def enter (s : SharedSchema) (p : Nat) (session : Session) : SharedSchema :=
  { s with sessions := Function.update s.sessions p session }

def unlock (s : SharedSchema) (p : Nat) : Option Nat :=
  if s.lockedBy = some p then none else s.lockedBy

-- The transaction ends, by a commit or by the rollback of an early return.
def finish (s : SharedSchema) (p : Nat) (table : Metadata) (call : VerifyCall)
    (answer : Answer) : SharedSchema :=
  ⟨table, s.unlock p, Function.update s.sessions p .idle, s.returned ++ [(call, answer)]⟩

def step (schema : String) (s : SharedSchema) : Turn → Option SharedSchema
  | .call p call =>
    match s.sessions p with
    | .idle => some (s.enter p (.opened call))
    | _ => none
  | .lock p =>
    match s.sessions p, s.lockedBy with
    | .opened call, none => some { s.enter p (.checking call call.checks []) with lockedBy := some p }
    | _, _ => none
  | .check p =>
    match s.sessions p with
    | .checking call ((key, expected) :: rest) missing =>
      match s.table key with
      | some value =>
        if value ≠ expected then some (s.finish p s.table call (.error (conflict schema key)))
        else some (s.enter p (.checking call rest missing))
      | none => some (s.enter p (.checking call rest (missing ++ [(key, expected)])))
    | .checking call [] missing =>
      some (s.enter p (.stamping call
        (if missing.isEmpty then .resumed else .initialized) missing []))
    | _ => none
  | .stamp p =>
    match s.sessions p with
    | .stamping call outcome (fact :: rest) written =>
      some (s.enter p (.stamping call outcome rest (written ++ [fact])))
    | _ => none
  | .commit p =>
    match s.sessions p with
    | .stamping call outcome [] written =>
      some (s.finish p (s.table.setAll written) call (.ok outcome))
    | _ => none
  | .commitLost p =>
    match s.sessions p with
    | .stamping call _ [] written => some (s.finish p (s.table.setAll written) call .lost)
    | _ => none
  | .fail p message =>
    match s.sessions p with
    | .idle => none
    | .opened call => some (s.finish p s.table call (.error (.postgres message)))
    | .checking call _ _ => some (s.finish p s.table call (.error (.postgres message)))
    | .stamping call _ _ _ => some (s.finish p s.table call (.error (.postgres message)))

end SharedSchema

def VerifyCall.missing (call : VerifyCall) (table : Metadata) : List Fact :=
  call.checks.filter fun c => (table c.1).isNone

def VerifyCall.stamped (call : VerifyCall) (table : Metadata) : Metadata :=
  table.setAll (call.missing table)

def VerifyCall.Accepted (call : VerifyCall) (table : Metadata) : Prop :=
  ∀ c ∈ call.checks, table c.1 = none ∨ table c.1 = some c.2

section Stamp
variable {call : VerifyCall} {table : Metadata}

theorem stamped_keeps {key value : String} (h : table key = some value) :
    call.stamped table key = some value := by
  rw [VerifyCall.stamped, Metadata.setAll_other, h]
  intro hkey
  obtain ⟨c, hc, rfl⟩ := List.mem_map.mp hkey
  rw [VerifyCall.missing, List.mem_filter, h] at hc
  cases hc.2

theorem stamped_other {key : String} (h : key ∉ call.checks.map (·.1)) :
    call.stamped table key = table key := by
  refine Metadata.setAll_other fun hkey => h ?_
  obtain ⟨c, hc, rfl⟩ := List.mem_map.mp hkey
  exact List.mem_map_of_mem (List.mem_filter.mp hc).1

theorem stamped_stores (h : call.Accepted table) {c : Fact} (hc : c ∈ call.checks) :
    call.stamped table c.1 = some c.2 := by
  rcases h c hc with hnone | hsome
  · have hnodup : ((call.missing table).map (·.1)).Nodup :=
      call.checks_nodup.sublist (List.filter_sublist.map _)
    exact Metadata.setAll_mem hnodup (List.mem_filter.mpr ⟨hc, by rw [hnone]; rfl⟩)
  · exact stamped_keeps hsome

end Stamp

def Examined (table : Metadata) (passed missing : List Fact) : Prop :=
  missing = passed.filter (fun c => (table c.1).isNone) ∧
    ∀ c ∈ passed, table c.1 = none ∨ table c.1 = some c.2

theorem examine_ok {schema : String} {table : Metadata} {rest missing result : List Fact}
    (h : examine schema table rest missing = .ok result) :
    result = missing ++ rest.filter (fun c => (table c.1).isNone) ∧
      ∀ c ∈ rest, table c.1 = none ∨ table c.1 = some c.2 := by
  induction rest generalizing missing with
  | nil =>
    cases h
    exact ⟨(List.append_nil _).symm, fun c hc => (by cases hc)⟩
  | cons c rest ih =>
    rw [examine] at h
    cases hvalue : table c.1 with
    | none =>
      simp only [hvalue] at h
      obtain ⟨hresult, hrest⟩ := ih h
      refine ⟨?_, List.forall_mem_cons.mpr ⟨.inl hvalue, hrest⟩⟩
      rw [hresult, List.filter_cons_of_pos (by simp [hvalue]), List.append_assoc]
      rfl
    | some value =>
      simp only [hvalue, ite_error_eq_ok, not_not] at h
      obtain ⟨rfl, h⟩ := h
      obtain ⟨hresult, hrest⟩ := ih h
      refine ⟨?_, List.forall_mem_cons.mpr ⟨.inr hvalue, hrest⟩⟩
      rw [hresult, List.filter_cons_of_neg (by simp [hvalue])]

theorem examine_accepted (schema : String) {table : Metadata} {rest : List Fact}
    (missing : List Fact) (h : ∀ c ∈ rest, table c.1 = none ∨ table c.1 = some c.2) :
    examine schema table rest missing =
      .ok (missing ++ rest.filter fun c => (table c.1).isNone) := by
  induction rest generalizing missing with
  | nil => rw [List.filter_nil, List.append_nil, examine]
  | cons c rest ih =>
    obtain ⟨hc, hrest⟩ := List.forall_mem_cons.mp h
    rw [examine]
    rcases hc with hvalue | hvalue
    · simp only [hvalue, ih _ hrest]
      rw [List.filter_cons_of_pos (by simp [hvalue]), List.append_assoc]
      rfl
    · simp only [hvalue, ne_eq, not_true_eq_false, if_false, ih _ hrest]
      rw [List.filter_cons_of_neg (by simp [hvalue])]

theorem verifyFacts_ok {schema : String} {table after : Metadata} {call : VerifyCall}
    {outcome : InitOutcome} (h : verifyFacts schema table call = .ok (outcome, after)) :
    call.Accepted table ∧ after = call.stamped table := by
  obtain ⟨missing, hmissing, h⟩ := bind_eq_ok.mp h
  obtain ⟨hresult, haccepted⟩ := examine_ok hmissing
  cases pure_eq_ok.mp h
  exact ⟨haccepted, congrArg table.setAll hresult⟩

def Session.Holds (table : Metadata) (lockedBy : Option Nat) (p : Nat) : Session → Prop
  | .idle => True
  | .opened _ => True
  | .checking call rest missing =>
    lockedBy = some p ∧ ∃ passed, passed ++ rest = call.checks ∧ Examined table passed missing
  | .stamping call _ rest written =>
    lockedBy = some p ∧ Examined table call.checks (written ++ rest)

namespace SharedSchema

def Invariant (s : SharedSchema) : Prop := ∀ p, (s.sessions p).Holds s.table s.lockedBy p

theorem invariant_start (table : Metadata) : (start table).Invariant := fun _ => trivial

def Conflicting (schema : String) (table : Metadata) (call : VerifyCall) (e : StoreError) : Prop :=
  ∃ c ∈ call.checks, ∃ value, table c.1 = some value ∧ value ≠ c.2 ∧ e = conflict schema c.1

inductive Stepped (schema : String) (s t : SharedSchema) : Prop
  | quiet (table : t.table = s.table) (returned : t.returned = s.returned)
  | failed (call : VerifyCall) (e : StoreError) (table : t.table = s.table)
      (returned : t.returned = s.returned ++ [(call, .error e)])
      (reason : Conflicting schema s.table call e ∨ ∃ message, e = .postgres message)
  | accepted (call : VerifyCall) (answer : Answer) (committed : answer.committed = true)
      (ok : call.Accepted s.table) (table : t.table = call.stamped s.table)
      (returned : t.returned = s.returned ++ [(call, answer)])

section Step
variable {schema : String} {s t : SharedSchema} {p : Nat}

theorem holds_of_idle {table : Metadata} {lockedBy : Option Nat} {session : Session}
    (h : session.Holds table lockedBy p) (hfree : lockedBy ≠ some p) {table' : Metadata}
    {lockedBy' : Option Nat} : session.Holds table' lockedBy' p := by
  cases session with
  | idle => trivial
  | opened call => trivial
  | checking call rest missing => exact absurd h.1 hfree
  | stamping call outcome rest written => exact absurd h.1 hfree

theorem invariant_enter (hs : s.Invariant) {session : Session}
    (h : session.Holds s.table s.lockedBy p) : (s.enter p session).Invariant := by
  intro q
  by_cases hq : q = p
  · subst hq
    simpa [enter] using h
  · simpa [enter, hq] using hs q

theorem invariant_finish (hs : s.Invariant) (table : Metadata) (call : VerifyCall)
    (answer : Answer)
    (htable : table = s.table ∨ s.lockedBy = some p) : (s.finish p table call answer).Invariant := by
  intro q
  by_cases hq : q = p
  · subst hq
    simp [finish, Session.Holds]
  · have hsession : (s.finish p table call answer).sessions q = s.sessions q := by
      simp [finish, hq]
    rw [hsession]
    by_cases hlock : s.lockedBy = some q
    · have hunlock : s.unlock p = s.lockedBy := by
        rw [unlock, if_neg]
        rw [hlock, Option.some.injEq]
        exact hq
      have hsame : table = s.table := by
        rcases htable with h | h
        · exact h
        · rw [hlock, Option.some.injEq] at h
          exact absurd h hq
      simp only [finish, hunlock, hsame]
      exact hs q
    · exact holds_of_idle (hs q) hlock

theorem examined_none {table : Metadata} {passed missing : List Fact} {c : Fact}
    (h : Examined table passed missing) (hc : table c.1 = none) :
    Examined table (passed ++ [c]) (missing ++ [c]) := by
  refine ⟨?_, fun d hd => ?_⟩
  · rw [List.filter_append, ← h.1, List.filter_singleton, hc]
    rfl
  · rcases List.mem_append.mp hd with hd | hd
    · exact h.2 d hd
    · rw [List.mem_singleton.mp hd]
      exact .inl hc

theorem examined_some {table : Metadata} {passed missing : List Fact} {c : Fact}
    (h : Examined table passed missing) (hc : table c.1 = some c.2) :
    Examined table (passed ++ [c]) missing := by
  refine ⟨?_, fun d hd => ?_⟩
  · rw [List.filter_append, ← h.1, List.filter_singleton, hc]
    exact (List.append_nil _).symm
  · rcases List.mem_append.mp hd with hd | hd
    · exact h.2 d hd
    · rw [List.mem_singleton.mp hd]
      exact .inr hc

theorem step_lock (hs : s.Invariant) (h : step schema s (.lock p) = some t) :
    t.Invariant ∧ Stepped schema s t := by
  simp only [step] at h
  split at h
  next call hsession hfree =>
    cases h
    refine ⟨fun q => ?_, .quiet rfl rfl⟩
    by_cases hq : q = p
    · subst hq
      have hchecks : Examined s.table [] [] := ⟨rfl, fun c hc => (by cases hc)⟩
      simpa [enter, Session.Holds] using hchecks
    · have hfree' : s.lockedBy ≠ some q := by simp [hfree]
      simpa [enter, hq] using holds_of_idle (hs q) hfree'
  next => cases h

theorem step_check (hs : s.Invariant) (h : step schema s (.check p) = some t) :
    t.Invariant ∧ Stepped schema s t := by
  have hp := hs p
  simp only [step] at h
  split at h
  next call key expected rest missing hsession =>
    rw [hsession] at hp
    obtain ⟨hlock, passed, hpassed, hexamined⟩ := hp
    have hmem : (key, expected) ∈ call.checks := by simp [← hpassed]
    have hnext : passed ++ [(key, expected)] ++ rest = call.checks := by simp [← hpassed]
    split at h
    next value hvalue =>
      split_ifs at h with hne
      · cases h
        exact ⟨invariant_finish hs _ _ _ (.inl rfl), .failed call _ rfl rfl
          (.inl ⟨(key, expected), hmem, value, hvalue, hne, rfl⟩)⟩
      · cases h
        rw [not_not.mp hne] at hvalue
        exact ⟨invariant_enter hs ⟨hlock, _, hnext, examined_some hexamined hvalue⟩, .quiet rfl rfl⟩
    next hnone =>
      cases h
      exact ⟨invariant_enter hs ⟨hlock, _, hnext, examined_none hexamined hnone⟩, .quiet rfl rfl⟩
  next call missing hsession =>
    cases h
    rw [hsession] at hp
    obtain ⟨hlock, passed, hpassed, hexamined⟩ := hp
    rw [List.append_nil] at hpassed
    exact ⟨invariant_enter hs ⟨hlock, by rwa [List.nil_append, ← hpassed]⟩, .quiet rfl rfl⟩
  next => cases h

theorem step_stamp (hs : s.Invariant) (h : step schema s (.stamp p) = some t) :
    t.Invariant ∧ Stepped schema s t := by
  have hp := hs p
  simp only [step] at h
  split at h
  next call outcome fact rest written hsession =>
    cases h
    rw [hsession] at hp
    obtain ⟨hlock, hexamined⟩ := hp
    refine ⟨invariant_enter hs ⟨hlock, ?_⟩, .quiet rfl rfl⟩
    rwa [List.append_assoc, List.singleton_append]
  next => cases h

theorem finish_stamped (hs : s.Invariant) {call : VerifyCall} {outcome : InitOutcome}
    {written : List Fact} (hsession : s.sessions p = .stamping call outcome [] written)
    {answer : Answer} (hcommitted : answer.committed = true) :
    (s.finish p (s.table.setAll written) call answer).Invariant ∧
      Stepped schema s (s.finish p (s.table.setAll written) call answer) := by
  have hp := hs p
  rw [hsession] at hp
  obtain ⟨hlock, hwritten, haccepted⟩ := hp
  rw [List.append_nil] at hwritten
  exact ⟨invariant_finish hs _ _ _ (.inr hlock), .accepted call answer hcommitted haccepted
    (by rw [hwritten]; rfl) rfl⟩

theorem step_commit (hs : s.Invariant)
    (h : step schema s (.commit p) = some t ∨ step schema s (.commitLost p) = some t) :
    t.Invariant ∧ Stepped schema s t := by
  simp only [step] at h
  rcases h with h | h
  · split at h
    next call outcome written hsession =>
      cases h
      exact finish_stamped hs hsession rfl
    next => cases h
  · split at h
    next call outcome written hsession =>
      cases h
      exact finish_stamped hs hsession rfl
    next => cases h

theorem step_fail (hs : s.Invariant) {message : String}
    (h : step schema s (.fail p message) = some t) : t.Invariant ∧ Stepped schema s t := by
  have hfinish : ∀ call e, e = .postgres message →
      (s.finish p s.table call (.error e)).Invariant ∧
        Stepped schema s (s.finish p s.table call (.error e)) := fun call e he =>
    ⟨invariant_finish hs _ _ _ (.inl rfl), .failed call e rfl rfl (.inr ⟨message, he⟩)⟩
  simp only [step] at h
  split at h
  next => cases h
  all_goals
    cases h
    exact hfinish _ _ rfl

theorem step_spec {turn : Turn} (hs : s.Invariant) (h : step schema s turn = some t) :
    t.Invariant ∧ Stepped schema s t := by
  cases turn with
  | call p call =>
    simp only [step] at h
    split at h
    next =>
      cases h
      exact ⟨invariant_enter hs trivial, .quiet rfl rfl⟩
    next => cases h
  | lock p => exact step_lock hs h
  | check p => exact step_check hs h
  | stamp p => exact step_stamp hs h
  | commit p => exact step_commit hs (.inl h)
  | commitLost p => exact step_commit hs (.inr h)
  | fail p message => exact step_fail hs h

end Step

def stored (table : Metadata) (r : VerifyCall × Answer) : Metadata :=
  if r.2.committed then r.1.stamped table else table

structure Settled (schema : String) (first : Metadata) (s : SharedSchema) : Prop where
  invariant : s.Invariant
  table : s.table = s.returned.foldl stored first
  facts : ∀ call answer, (call, answer) ∈ s.returned → answer.committed = true →
    ∀ c ∈ call.checks, s.table c.1 = some c.2
  conflicts : ∀ call e, (call, .error e) ∈ s.returned →
    Conflicting schema s.table call e ∨ ∃ message, e = .postgres message

section Run
variable {schema : String} {first : Metadata} {s t : SharedSchema}

theorem stepped_keeps (h : Stepped schema s t) {key value : String}
    (hvalue : s.table key = some value) : t.table key = some value := by
  cases h with
  | quiet table _ => rwa [table]
  | failed _ _ table _ _ => rwa [table]
  | accepted _ _ _ _ table _ =>
    rw [table]
    exact stamped_keeps hvalue

theorem conflicting_keeps (h : Stepped schema s t) {call : VerifyCall} {e : StoreError}
    (hc : Conflicting schema s.table call e) : Conflicting schema t.table call e := by
  obtain ⟨c, hmem, value, hvalue, hne, rfl⟩ := hc
  exact ⟨c, hmem, value, stepped_keeps h hvalue, hne, rfl⟩

theorem settled_start : Settled schema first (start first) :=
  ⟨invariant_start first, rfl, fun _ _ h => (by cases h), fun _ _ h => (by cases h)⟩

theorem settled_step {turn : Turn} (hs : Settled schema first s)
    (h : step schema s turn = some t) : Settled schema first t := by
  obtain ⟨hinv, hstepped⟩ := step_spec hs.invariant h
  have hfacts : ∀ call answer, (call, answer) ∈ s.returned → answer.committed = true →
      ∀ c ∈ call.checks, t.table c.1 = some c.2 := fun call answer hmem hcommitted c hc =>
    stepped_keeps hstepped (hs.facts call answer hmem hcommitted c hc)
  have hconflicts : ∀ call e, (call, .error e) ∈ s.returned →
      Conflicting schema t.table call e ∨ ∃ message, e = .postgres message := fun call e hmem =>
    (hs.conflicts call e hmem).imp_left (conflicting_keeps hstepped)
  refine ⟨hinv, ?_, fun call answer hmem hcommitted => ?_, fun call e hmem => ?_⟩
  · cases hstepped with
    | quiet table returned => rw [table, returned, hs.table]
    | failed call e table returned _ =>
      rw [table, returned, List.foldl_append, ← hs.table]
      rfl
    | accepted call answer committed _ table returned =>
      rw [table, returned, List.foldl_append, ← hs.table, List.foldl_cons, List.foldl_nil, stored,
        if_pos committed]
  · cases hstepped with
    | quiet _ returned => exact hfacts call answer (returned ▸ hmem) hcommitted
    | failed _ _ _ returned _ =>
      rw [returned] at hmem
      rcases List.mem_append.mp hmem with hmem | hmem
      · exact hfacts call answer hmem hcommitted
      · cases List.mem_singleton.mp hmem
        cases hcommitted
    | accepted _ _ _ ok table returned =>
      rw [returned] at hmem
      rcases List.mem_append.mp hmem with hmem | hmem
      · exact hfacts call answer hmem hcommitted
      · cases List.mem_singleton.mp hmem
        intro c hc
        rw [table]
        exact stamped_stores ok hc
  · cases hstepped with
    | quiet _ returned => exact hconflicts call e (returned ▸ hmem)
    | failed _ _ table returned reason =>
      rw [returned] at hmem
      rcases List.mem_append.mp hmem with hmem | hmem
      · exact hconflicts call e hmem
      · cases List.mem_singleton.mp hmem
        rwa [table]
    | accepted _ _ committed _ _ returned =>
      rw [returned] at hmem
      rcases List.mem_append.mp hmem with hmem | hmem
      · exact hconflicts call e hmem
      · cases List.mem_singleton.mp hmem
        cases committed

theorem run_settled {turns : List Turn} (h : run (step schema) (start first) turns = some s) :
    Settled schema first s :=
  run_invariant (fun _ _ _ hs hstep => settled_step hs hstep) settled_start h

theorem run_keeps {turns : List Turn} (hs : s.Invariant) (h : run (step schema) s turns = some t)
    {key value : String} (hvalue : s.table key = some value) : t.table key = some value := by
  have hgrows : ∀ key value, s.table key = some value → t.table key = some value :=
    run_preorder (P := Invariant)
      (R := fun a b => ∀ key value, a.table key = some value → b.table key = some value)
      (fun _ _ _ h => h) (fun _ _ _ hab hbc key value h => hbc key value (hab key value h))
      (fun a turn b ha hab => by
        obtain ⟨hb, hstepped⟩ := step_spec ha hab
        exact ⟨hb, fun _ _ hvalue => stepped_keeps hstepped hvalue⟩) hs h
  exact hgrows key value hvalue

theorem identity_write_once (schema : String) (first : Metadata) (turns : List Turn)
    (s : SharedSchema) (h : run (step schema) (start first) turns = some s) :
    (∀ later t, run (step schema) s later = some t → ∀ key value, s.table key = some value →
      t.table key = some value) ∧
    s.table = s.returned.foldl stored first ∧
    (∀ turn t, step schema s turn = some t → t.table ≠ s.table → ∃ call answer,
      t.returned = s.returned ++ [(call, answer)] ∧
        ((∃ outcome, answer = .ok outcome) ∨ answer = .lost)) ∧
    (∀ call answer, (call, answer) ∈ s.returned →
      (∃ outcome, answer = .ok outcome) ∨ answer = .lost →
      ∀ c ∈ call.checks, s.table c.1 = some c.2) ∧
    (∀ call outcome other outcome', (call, .ok outcome) ∈ s.returned →
      (other, .ok outcome') ∈ s.returned → ∀ c ∈ call.checks, ∀ d ∈ other.checks,
      c.1 = d.1 → c.2 = d.2) ∧
    ∀ call e, (call, .error e) ∈ s.returned →
      Conflicting schema s.table call e ∨ ∃ message, e = .postgres message := by
  have hs := run_settled h
  refine ⟨fun later t ht key value => run_keeps hs.invariant ht, hs.table,
    fun turn t ht hne => ?_, fun call answer hmem hends => hs.facts call answer hmem ?_,
    fun call outcome other outcome' hcall hother c hc d hd hkey => ?_, hs.conflicts⟩
  · cases (step_spec hs.invariant ht).2 with
    | quiet table _ => exact absurd table hne
    | failed _ _ table _ _ => exact absurd table hne
    | accepted call answer committed _ _ returned =>
      refine ⟨call, answer, returned, ?_⟩
      cases answer with
      | ok outcome => exact .inl ⟨outcome, rfl⟩
      | error e => cases committed
      | lost => exact .inr rfl
  · obtain ⟨outcome, rfl⟩ | rfl := hends <;> rfl
  · have hc' := hs.facts call _ hcall rfl c hc
    have hd' := hs.facts other _ hother rfl d hd
    rw [hkey, hd'] at hc'
    exact (Option.some.inj hc').symm

def projectA : VerifyCall := .verifyProject "project-a" "1" "hash-a" "1"

def projectB : VerifyCall := .verifyProject "project-b" "137" "hash-b" "1"

def race : List Turn :=
  [.call 0 projectA, .call 1 projectB, .lock 1, .check 1, .check 1, .check 1, .check 1, .check 1,
    .check 1, .stamp 1, .stamp 1, .stamp 1, .stamp 1, .stamp 1, .commit 1, .lock 0, .check 0]

theorem racing_projects_bind_one : ∃ s, run (step "app") (start .empty) race = some s ∧
    s.returned = [(projectB, .ok .initialized), (projectA, .error (conflict "app" "project_id"))] ∧
    s.table Keys.chainId = some "137" := by
  obtain ⟨s, hs, hreturned⟩ : ∃ s, run (step "app") (start .empty) race = some s ∧
      s.returned =
        [(projectB, .ok .initialized), (projectA, .error (conflict "app" "project_id"))] :=
    ⟨_, rfl, rfl⟩
  obtain ⟨_, _, _, hfacts, _⟩ := identity_write_once "app" .empty race s hs
  exact ⟨s, hs, hreturned, hfacts projectB (.ok .initialized)
    (by rw [hreturned]; exact List.mem_cons_self) (.inl ⟨_, rfl⟩)
    (Keys.chainId, "137") (List.mem_cons_of_mem _ List.mem_cons_self)⟩

def firstCall : VerifyCall := .verifyOrInitialize "project-a" "1"

def stamped : List Turn :=
  [.call 0 firstCall, .lock 0, .check 0, .check 0, .check 0, .check 0, .stamp 0, .stamp 0, .stamp 0]

theorem lost_commit_stamps : ¬∀ (turns : List Turn) (s t : SharedSchema) (turn : Turn)
    (call : VerifyCall) (answer : Answer) (e : StoreError),
    run (step "app") (start .empty) turns = some s → step "app" s turn = some t →
    t.returned = s.returned ++ [(call, answer)] → answer.result = .error e →
      t.table = s.table := by
  intro h
  obtain ⟨s, t, hs, ht, hreturned, hbefore, hafter⟩ : ∃ s t,
      run (step "app") (start .empty) stamped = some s ∧ step "app" s (.commitLost 0) = some t ∧
        t.returned = s.returned ++ [(firstCall, .lost)] ∧ s.table Keys.chainId = none ∧
          t.table Keys.chainId = some "1" := ⟨_, _, rfl, rfl, rfl, rfl, rfl⟩
  have hsame := h stamped s t (.commitLost 0) firstCall .lost _ hs ht hreturned rfl
  rw [hsame, hbefore] at hafter
  cases hafter

end Run
end SharedSchema

def Turn.process : Turn → Nat
  | .call p _ => p
  | .lock p => p
  | .check p => p
  | .stamp p => p
  | .commit p => p
  | .commitLost p => p
  | .fail p _ => p

def Turn.isCommit : Turn → Bool
  | .commit _ => true
  | _ => false

def Session.call? : Session → Option VerifyCall
  | .idle => none
  | .opened call => some call
  | .checking call _ _ => some call
  | .stamping call _ _ _ => some call

namespace SharedSchema

inductive Turned (turn : Turn) (s t : SharedSchema) : Session → Prop
  | opened (call : VerifyCall) (turned : turn = .call turn.process call)
      (before : s.sessions turn.process = .idle) : Turned turn s t (.opened call)
  | continued (call : VerifyCall) (session : Session) (undecided : turn.isCommit = false)
      (before : (s.sessions turn.process).call? = some call) (after : session.call? = some call) :
      Turned turn s t session
  | failed (call : VerifyCall) (undecided : turn.isCommit = false)
      (before : (s.sessions turn.process).call? = some call) : Turned turn s t .idle
  | committed (call : VerifyCall) (outcome : InitOutcome) (decided : turn.isCommit = true)
      (before : (s.sessions turn.process).call? = some call)
      (returned : (call, .ok outcome) ∈ t.returned) : Turned turn s t .idle

theorem session_call {schema : String} {s t : SharedSchema} {p : Nat} {call : VerifyCall}
    (h : step schema s (.call p call) = some t) : (t.sessions p).call? = some call := by
  simp only [step] at h
  split at h
  next =>
    cases h
    have hsession : (s.enter p (.opened call)).sessions p = .opened call := Function.update_self ..
    rw [hsession, Session.call?]
  next => cases h

theorem step_sessions {schema : String} {s t : SharedSchema} {turn : Turn}
    (h : step schema s turn = some t) : ∃ session,
      t.sessions = Function.update s.sessions turn.process session ∧ Turned turn s t session := by
  cases turn with
  | call p call =>
    simp only [step] at h
    split at h
    next hidle =>
      cases h
      exact ⟨_, rfl, .opened call rfl hidle⟩
    next => cases h
  | lock p =>
    simp only [step] at h
    split at h
    next call hopened _ =>
      cases h
      exact ⟨_, rfl, .continued call _ rfl (congrArg Session.call? hopened) rfl⟩
    next => cases h
  | check p =>
    simp only [step] at h
    split at h
    next call key expected rest missing hchecking =>
      have hcall := congrArg Session.call? hchecking
      split at h
      next value _ =>
        split_ifs at h
        · cases h
          exact ⟨_, rfl, .failed call rfl hcall⟩
        · cases h
          exact ⟨_, rfl, .continued call _ rfl hcall rfl⟩
      next =>
        cases h
        exact ⟨_, rfl, .continued call _ rfl hcall rfl⟩
    next call missing hchecking =>
      cases h
      exact ⟨_, rfl, .continued call _ rfl (congrArg Session.call? hchecking) rfl⟩
    next => cases h
  | stamp p =>
    simp only [step] at h
    split at h
    next call outcome fact rest written hstamping =>
      cases h
      exact ⟨_, rfl, .continued call _ rfl (congrArg Session.call? hstamping) rfl⟩
    next => cases h
  | commit p =>
    simp only [step] at h
    split at h
    next call outcome written hstamping =>
      cases h
      exact ⟨_, rfl, .committed call outcome rfl (congrArg Session.call? hstamping)
        (List.mem_append_right _ (List.mem_singleton_self _))⟩
    next => cases h
  | commitLost p =>
    simp only [step] at h
    split at h
    next call outcome written hstamping =>
      cases h
      exact ⟨_, rfl, .failed call rfl (congrArg Session.call? hstamping)⟩
    next => cases h
  | fail p message =>
    simp only [step] at h
    split at h
    next => cases h
    next call hopened =>
      cases h
      exact ⟨_, rfl, .failed call rfl (congrArg Session.call? hopened)⟩
    next call rest missing hchecking =>
      cases h
      exact ⟨_, rfl, .failed call rfl (congrArg Session.call? hchecking)⟩
    next call outcome rest written hstamping =>
      cases h
      exact ⟨_, rfl, .failed call rfl (congrArg Session.call? hstamping)⟩

end SharedSchema

end SuperqueryNode.Store

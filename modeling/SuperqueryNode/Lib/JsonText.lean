import Mathlib.Data.List.Forall2
import SuperqueryNode.Lib.JsonTokens

namespace JsonText

-- What a parser waits for: the values and fields read so far of the arrays and objects it is in.
inductive Frame where
  | array (items : List Json)
  | object (fields : List (String × Json)) (key : String)

inductive State where
  | value (stack : List Frame)
  | firstItem (stack : List Frame)
  | firstField (stack : List Frame)
  | field (fields : List (String × Json)) (stack : List Frame)
  | colon (fields : List (String × Json)) (key : String) (stack : List Frame)
  | after (v : Json) (stack : List Frame)

namespace State

def beginValue (stack : List Frame) : Token → Option State
  | .null => some (after .null stack)
  | .bool b => some (after (.bool b) stack)
  | .number n => some (after (.number n) stack)
  | .string s => some (after (.string s) stack)
  | .beginArray => some (firstItem stack)
  | .beginObject => some (firstField stack)
  | _ => none

def step : State → Token → Option State
  | value stack, token => beginValue stack token
  | firstItem stack, .endArray => some (after (.array []) stack)
  | firstItem stack, token => beginValue (.array [] :: stack) token
  | firstField stack, .endObject => some (after (.object []) stack)
  | firstField stack, .string key => some (colon [] key stack)
  | field fields stack, .string key => some (colon fields key stack)
  | colon fields key stack, .colon => some (value (.object fields key :: stack))
  | after v (.array items :: stack), .comma => some (value (.array (items ++ [v]) :: stack))
  | after v (.array items :: stack), .endArray => some (after (.array (items ++ [v])) stack)
  | after v (.object fields key :: stack), .comma => some (field (fields ++ [(key, v)]) stack)
  | after v (.object fields key :: stack), .endObject =>
    some (after (.object (fields ++ [(key, v)])) stack)
  | _, _ => none

def result : State → Option Json
  | after v [] => some v
  | _ => none

def run : State → List Token → Option Json
  | state, [] => state.result
  | state, token :: tokens => (state.step token).bind fun next => run next tokens

end State

def parse (floats : FloatText) (text : List Char) : Option Json :=
  (lex floats .between text).bind (State.run (.value []))

section Parser
variable {stack : List Frame} {ts : List Token}

def Opens (state : State) (stack : List Frame) : Prop :=
  ∀ token, token ≠ .endArray → state.step token = State.beginValue stack token

def ReadsBack (v : Json) : Prop :=
  ∀ state stack ts, Opens state stack →
    state.run (tokens v ++ ts) = (State.after v stack).run ts

theorem opens_value : Opens (.value stack) stack := fun _ _ => rfl

theorem opens_firstItem : Opens (.firstItem stack) (.array [] :: stack) := by
  intro token htoken
  cases token with
  | endArray => exact absurd rfl htoken
  | _ => rfl

theorem reads_token {v : Json} {token : Token} (htokens : tokens v = [token])
    (hne : token ≠ .endArray)
    (h : ∀ stack, State.beginValue stack token = some (.after v stack)) : ReadsBack v := by
  intro state stack ts hopens
  rw [htokens, List.singleton_append, State.run, hopens token hne, h, Option.bind_some]

theorem run_moreItems {items : List Json} (h : ∀ v ∈ items, ReadsBack v) (done : List Json)
    (v : Json) : (State.after v (.array done :: stack)).run (moreItems items ++ ts) =
      (State.after (.array (done ++ v :: items)) stack).run ts := by
  induction items generalizing done v with
  | nil => rw [moreItems]; rfl
  | cons w items ih =>
    obtain ⟨hw, hitems⟩ := List.forall_mem_cons.mp h
    have hvalue := hw (.value (.array (done ++ [v]) :: stack)) (.array (done ++ [v]) :: stack)
      (moreItems items ++ ts) opens_value
    have hcomma : (State.after v (.array done :: stack)).step .comma =
        some (.value (.array (done ++ [v]) :: stack)) := rfl
    rw [moreItems, List.cons_append, State.run, hcomma, Option.bind_some, List.append_assoc, hvalue,
      ih hitems, List.append_assoc, List.singleton_append]

theorem reads_array {items : List Json} (h : ∀ v ∈ items, ReadsBack v) :
    ReadsBack (.array items) := by
  intro state stack ts hopens
  have hopen : State.beginValue stack .beginArray = some (.firstItem stack) := rfl
  rw [tokens, List.cons_append, State.run, hopens _ (by decide), hopen, Option.bind_some]
  cases items with
  | nil => rw [itemTokens]; rfl
  | cons v items =>
    obtain ⟨hv, hitems⟩ := List.forall_mem_cons.mp h
    rw [itemTokens, List.append_assoc, hv _ _ _ opens_firstItem, run_moreItems hitems,
      List.nil_append]

theorem run_field {v : Json} (h : ReadsBack v) (fields : List (String × Json)) (key : String) :
    (State.colon fields key stack).run (.colon :: (tokens v ++ ts)) =
      (State.after v (.object fields key :: stack)).run ts :=
  h (.value (.object fields key :: stack)) (.object fields key :: stack) ts opens_value

theorem run_moreFields {fields : List (String × Json)} (h : ∀ p ∈ fields, ReadsBack p.2)
    (done : List (String × Json)) (key : String) (v : Json) :
    (State.after v (.object done key :: stack)).run (moreFields fields ++ ts) =
      (State.after (.object (done ++ (key, v) :: fields)) stack).run ts := by
  induction fields generalizing done key v with
  | nil => rw [moreFields]; rfl
  | cons p fields ih =>
    obtain ⟨hp, hfields⟩ := List.forall_mem_cons.mp h
    have hkey : (State.after v (.object done key :: stack)).run
        (.comma :: .string p.1 :: .colon :: (tokens p.2 ++ (moreFields fields ++ ts))) =
          (State.colon (done ++ [(key, v)]) p.1 stack).run
            (.colon :: (tokens p.2 ++ (moreFields fields ++ ts))) := rfl
    rw [moreFields, List.cons_append, List.cons_append, List.cons_append, List.append_assoc, hkey,
      run_field hp, ih hfields, List.append_assoc, List.singleton_append]

theorem reads_object {fields : List (String × Json)} (h : ∀ p ∈ fields, ReadsBack p.2) :
    ReadsBack (.object fields) := by
  intro state stack ts hopens
  have hopen : State.beginValue stack .beginObject = some (.firstField stack) := rfl
  rw [tokens, List.cons_append, State.run, hopens _ (by decide), hopen, Option.bind_some]
  cases fields with
  | nil => rw [fieldTokens]; rfl
  | cons p fields =>
    obtain ⟨hp, hfields⟩ := List.forall_mem_cons.mp h
    have hkey : (State.firstField stack).run
        (.string p.1 :: .colon :: (tokens p.2 ++ (moreFields fields ++ ts))) =
          (State.colon [] p.1 stack).run
            (.colon :: (tokens p.2 ++ (moreFields fields ++ ts))) := rfl
    rw [fieldTokens, List.cons_append, List.cons_append, List.append_assoc, hkey, run_field hp,
      run_moreFields hfields, List.nil_append]

theorem reads_back (v : Json) : ReadsBack v := by
  induction v using Json.induction with
  | null => exact reads_token rfl (by decide) fun _ => rfl
  | bool b => exact reads_token rfl nofun fun _ => rfl
  | number n => exact reads_token rfl nofun fun _ => rfl
  | string s => exact reads_token rfl nofun fun _ => rfl
  | array items ih => exact reads_array ih
  | object fields ih => exact reads_object ih

theorem run_tokens (v : Json) : (State.value []).run (tokens v) = some v := by
  have hrun := reads_back v (.value []) [] [] opens_value
  rwa [List.append_nil] at hrun

theorem parse_print {floats : FloatText} {v : Json} (hv : v.WellFormed) :
    parse floats (print floats v) = some v := by
  have hlex : lex floats .between (texts floats (tokens v) ++ []) = _ := printed hv [] nofun
  rw [List.append_nil] at hlex
  rw [parse, print, hlex]
  rw [lex, finish, Option.map_some, Option.bind_some, List.append_nil, run_tokens]

end Parser

section Scalars
variable {floats : FloatText} {state next : State} {token : Token} {ts : List Token} {v : Json}

def Container : Json → Prop
  | .array _ => True
  | .object _ => True
  | _ => False

def Inside : State → Prop
  | .value stack => stack ≠ []
  | .after v stack => stack ≠ [] ∨ Container v
  | _ => True

theorem inside_beginValue {stack : List Frame} (hne : stack ≠ [])
    (h : State.beginValue stack token = some next) : Inside next := by
  unfold State.beginValue at h
  split at h <;> cases h
  all_goals first | exact .inl hne | trivial

theorem inside_step (h : Inside state) (hstep : state.step token = some next) : Inside next := by
  unfold State.step at hstep
  split at hstep
  case h_1 stack token => exact inside_beginValue h hstep
  case h_3 stack token _ => exact inside_beginValue (List.cons_ne_nil _ _) hstep
  all_goals cases hstep
  all_goals first | exact .inr trivial | exact List.cons_ne_nil _ _ | trivial

theorem container_run (h : Inside state) (hrun : state.run ts = some v) : Container v := by
  induction ts generalizing state with
  | nil =>
    cases state with
    | after w stack =>
      cases stack with
      | nil =>
        cases hrun
        exact h.resolve_left (· rfl)
      | cons frame stack => cases hrun
    | _ => cases hrun
  | cons token ts ih =>
    obtain ⟨next, hstep, hrest⟩ := Option.bind_eq_some_iff.mp hrun
    exact ih (inside_step h hstep) hrest

theorem string_mem_of_run {s : String} (h : (State.value []).run ts = some (.string s)) :
    .string s ∈ ts := by
  cases ts with
  | nil => cases h
  | cons token ts =>
    obtain ⟨next, hstep, hrest⟩ := Option.bind_eq_some_iff.mp h
    have hscalar (v : Json) (hnext : next = .after v []) : v = .string s := by
      subst hnext
      cases ts with
      | nil => exact Option.some.inj hrest
      | cons token ts => cases hrest
    have hinside (hnext : Inside next) : False := container_run hnext hrest
    cases token with
    | string s' =>
      cases hstep
      cases hscalar (.string s') rfl
      exact List.mem_cons_self
    | null =>
      cases hstep
      cases hscalar .null rfl
    | bool b =>
      cases hstep
      cases hscalar (.bool b) rfl
    | number n =>
      cases hstep
      cases hscalar (.number n) rfl
    | beginArray =>
      cases hstep
      exact (hinside trivial).elim
    | beginObject =>
      cases hstep
      exact (hinside trivial).elim
    | _ => cases hstep

theorem parse_string {text : List Char} {s : String} (h : parse floats text = some (.string s)) :
    s.length + 2 ≤ text.length := by
  obtain ⟨ts, hlex, hrun⟩ := Option.bind_eq_some_iff.mp h
  have hshort := lex_short hlex s (string_mem_of_run hrun)
  rwa [Mode.pending, Nat.zero_add] at hshort

end Scalars

section Same
variable (floats : FloatText)

def asDouble (n : JsonNumber) : Option (BitVec 64) := floats.read (numberText floats n)

def SameDouble (a b : BitVec 64) : Prop := a = b ∨ a.setWidth 63 = 0 ∧ b.setWidth 63 = 0

-- Integers are told apart exactly, and a double from any number by the double that it is.
def SameNumber : JsonNumber → JsonNumber → Prop
  | .posInt m, .posInt n => m = n
  | .negInt i, .negInt j => i = j
  | .posInt _, .negInt _ => False
  | .negInt _, .posInt _ => False
  | m, n => Option.Rel SameDouble (asDouble floats m) (asDouble floats n)

inductive Same : Json → Json → Prop
  | null : Same .null .null
  | bool (b : Bool) : Same (.bool b) (.bool b)
  | number {m n : JsonNumber} : SameNumber floats m n → Same (.number m) (.number n)
  | string (s : String) : Same (.string s) (.string s)
  | array {xs ys : List Json} : List.Forall₂ Same xs ys → Same (.array xs) (.array ys)
  | object {xs ys zs : List (String × Json)} : xs.map (·.1) = ys.map (·.1) →
      List.Forall₂ Same (xs.map (·.2)) (ys.map (·.2)) → ys.Perm zs → Same (.object xs) (.object zs)

theorem sameNumber_refl (n : JsonNumber) : SameNumber floats n n := by
  cases n with
  | posInt n => rfl
  | negInt i => rfl
  | float bits =>
    rw [SameNumber]
    · cases asDouble floats (.float bits) with
      | none => exact .none
      | some a => exact .some (.inl rfl)
    all_goals exact nofun

theorem same_refl (v : Json) : Same floats v v := by
  induction v using Json.induction with
  | null => exact .null
  | bool b => exact .bool b
  | number n => exact .number (sameNumber_refl floats n)
  | string s => exact .string s
  | array items ih => exact .array (List.forall₂_same.mpr ih)
  | object fields ih =>
    refine .object rfl (List.forall₂_same.mpr fun v hv => ?_) (.refl fields)
    obtain ⟨p, hp, rfl⟩ := List.mem_map.mp hv
    exact ih p hp

end Same

end JsonText

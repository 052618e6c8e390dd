import SuperqueryNode.Evm.Rpc
import SuperqueryNode.Lib.Fallible

namespace SuperqueryNode.Evm
open Unsigned Radix Fallible ChainApi

structure EvmAdapterConfig where
  endpoints : List String
  chainId : String
  timeoutSecs : Nat
  maxRetries : Nat
  finalityConfirmations : Nat
deriving DecidableEq, Repr

structure RpcClient (P : Type) where
  providers : List P
  chainId : Nat
  attempts : Nat
  timeoutSecs : Nat
  nonempty : 0 < providers.length
  positive : 0 < attempts

namespace RpcClient
variable {P : Type}

theorem providers_nonempty {connect : String → Except ChainError P} {endpoints : List String}
    {providers : List P} (hne : ¬endpoints.isEmpty) (h : endpoints.mapM connect = .ok providers) :
    0 < providers.length := by
  rw [← (mapM_eq_ok.mp h).length_eq]
  simpa [List.length_pos_iff] using hne

-- `connect` stands for the URL parser of `validate_endpoint` and the HTTP provider built on it.
def new (connect : String → Except String P) (config : EvmAdapterConfig) :
    Except ChainError (RpcClient P) :=
  if hc : config.endpoints.isEmpty ∨ config.maxRetries = 0 ∨ config.timeoutSecs = 0 then
    .error (.other "RPC requires endpoints, positive attempts and timeout")
  else
    match hp : config.endpoints.mapM fun raw => (connect raw).mapError ChainError.other with
    | .error e => .error e
    | .ok providers =>
      match fromStrRadix 64 10 config.chainId with
      | none => .error (.other "invalid decimal chain id")
      | some chainId => .ok ⟨providers, chainId, config.maxRetries, config.timeoutSecs,
          providers_nonempty (fun he => hc (.inl he)) hp, by omega⟩

structure Call (P : Type) where
  attempt : Nat
  provider : P
  method : String
  params : Json

-- What the endpoint does with one call; `pending` is a call still unanswered when the time of the
-- attempt is up.
inductive CallOutcome where
  | value (v : Json)
  | errorResp (code : Int)
  | transportError
  | invalidResponse
  | pending

def call (script : Call P → CallOutcome) (c : Call P) : Option (Except ChainError Json) :=
  match script c with
  | .value v => some (.ok v)
  | .errorResp code =>
    if code = 429 ∨ code = -32005 ∨ code = -32016 then some (.error (.rateLimited none))
    else some (.error (.rpc code))
  | .transportError => some (.error (.transport "RPC transport failed"))
  | .invalidResponse => some (.error (.decode "invalid JSON-RPC response"))
  | .pending => none

structure Attempt (P : Type) where
  calls : List (Call P)
  answer : Except ChainError Json

variable (client : RpcClient P) (script : Call P → CallOutcome) (method : String) (params : Json)

def provider (attempt : Nat) : P :=
  client.providers.get ⟨attempt % client.providers.length, Nat.mod_lt _ client.nonempty⟩

def idCall (attempt : Nat) : Call P := ⟨attempt, client.provider attempt, "eth_chainId", .array []⟩

def methodCall (attempt : Nat) : Call P := ⟨attempt, client.provider attempt, method, params⟩

def body (attempt : Nat) : List (Call P) × Option (Except ChainError Json) :=
  match call script (client.idCall attempt) with
  | none => ([client.idCall attempt], none)
  | some (.error e) => ([client.idCall attempt], some (.error e))
  | some (.ok id) =>
    match quantity id with
    | .error e => ([client.idCall attempt], some (.error e))
    | .ok actual =>
      if actual ≠ client.chainId then
        ([client.idCall attempt],
          some (.error (.chainIdMismatch client.chainId.repr actual.repr)))
      else if method = "eth_chainId" then ([client.idCall attempt], some (.ok id))
      else ([client.idCall attempt, client.methodCall method params attempt],
        call script (client.methodCall method params attempt))

def tryOnce (attempt : Nat) : Attempt P :=
  let (calls, finished) := client.body script method params attempt
  ⟨calls, finished.getD (.error (.transport "RPC request timed out"))⟩

def backoff (attempt : Nat) : Nat := min (saturatingMul 64 100 (1 <<< min attempt 6)) 5000

structure Requested (P : Type) where
  attempts : List (Attempt P)
  delays : List Nat
  result : Except ChainError Json

def requestLoop : Nat → Nat → Requested P
  | 0, _ => ⟨[], [], .error (.other "RPC attempt budget exhausted")⟩
  | turns + 1, attempt =>
    let tried := client.tryOnce script method params attempt
    match tried.answer with
    | .ok value => ⟨[tried], [], .ok value⟩
    | .error e =>
      if e.isRetryable ∧ attempt + 1 < client.attempts then
        let rest := requestLoop turns (attempt + 1)
        ⟨tried :: rest.attempts, backoff attempt :: rest.delays, rest.result⟩
      else ⟨[tried], [], .error e⟩

def request : Requested P := client.requestLoop script method params client.attempts 0

structure Trusted (attempt : Nat) (tried : Attempt P) (v id : Json) : Prop where
  verified : script (client.idCall attempt) = .value id ∧ quantity id = .ok client.chainId
  answered : method = "eth_chainId" ∧ v = id ∧ tried.calls = [client.idCall attempt] ∨
    method ≠ "eth_chainId" ∧ script (client.methodCall method params attempt) = .value v ∧
      tried.calls = [client.idCall attempt, client.methodCall method params attempt]

structure Budgeted (r : Requested P) : Prop where
  rotation : ∀ k a, r.attempts[k]? = some a → a.calls ≠ [] ∧ ∀ c ∈ a.calls, c.attempt = k ∧
    client.providers[k % client.providers.length]? = some c.provider
  asked : ∀ k a, r.attempts[k]? = some a → a.calls = [client.idCall k] ∨
    a.calls = [client.idCall k, client.methodCall method params k] ∧
      ∃ id, script (client.idCall k) = .value id ∧ quantity id = .ok client.chainId
  erring : ∀ (k : Nat) (a : Attempt P), r.attempts[k]? = some a → ∀ before c after,
    a.calls = before ++ c :: after →
    (∀ v, script c ≠ .value v) → after = [] ∧
      a.answer = (call script c).getD (.error (.transport "RPC request timed out"))
  bounded : 0 < r.attempts.length ∧ r.attempts.length ≤ client.attempts
  trusted : ∀ v, r.result = .ok v → ∃ k a id, r.attempts.length = k + 1 ∧
    r.attempts[k]? = some a ∧ client.Trusted script method params k a v id
  fatal : ∀ k a e, r.attempts[k]? = some a → a.answer = .error e → e.isRetryable = false →
    r.result = .error e ∧ r.attempts.length = k + 1
  wrongChain : ∀ k id actual, k < r.attempts.length → script (client.idCall k) = .value id →
    quantity id = .ok actual → actual ≠ client.chainId →
    (∃ a, r.attempts[k]? = some a ∧ a.calls = [client.idCall k]) ∧
      r.result = .error (.chainIdMismatch client.chainId.repr actual.repr) ∧
        r.attempts.length = k + 1
  exhausted : ∀ e, r.result = .error e → e.isRetryable = true →
    r.attempts.length = client.attempts ∧ ∃ a, r.attempts.getLast? = some a ∧ a.answer = .error e
  neverFallsThrough : ∀ text, r.result ≠ .error (.other text)
  delays : r.delays.length + 1 = r.attempts.length ∧ ∀ d ∈ r.delays, d ≤ 5000

structure Looped (k : Nat) (r : Requested P) : Prop where
  tried : ∀ i a, r.attempts[i]? = some a → a = client.tryOnce script method params (k + i)
  bounded : 0 < r.attempts.length ∧ k + r.attempts.length ≤ client.attempts
  retried : ∀ i, i + 1 < r.attempts.length → ∃ e, e.isRetryable = true ∧
    (client.tryOnce script method params (k + i)).answer = .error e
  last : r.result = (client.tryOnce script method params (k + (r.attempts.length - 1))).answer
  spent : ∀ e, r.result = .error e → e.isRetryable = true →
    k + r.attempts.length = client.attempts
  delays : r.delays = (List.range' k (r.attempts.length - 1)).map backoff

section Attempts
variable {client script method params}

theorem call_eq_ok {c : Call P} {v : Json} (h : call script c = some (.ok v)) :
    script c = .value v := by
  rw [call] at h
  split at h
  next w heq =>
    cases h
    exact heq
  next => split_ifs at h <;> cases h
  all_goals cases h

theorem call_error {c : Call P} {e : ChainError} (h : call script c = some (.error e))
    (text : String) : e ≠ .other text := by
  rintro rfl
  rw [call] at h
  split at h
  next => cases h
  next => split_ifs at h <;> cases h
  all_goals cases h

theorem tryOnce_calls (attempt : Nat) :
    (client.tryOnce script method params attempt).calls ≠ [] ∧
      ∀ c ∈ (client.tryOnce script method params attempt).calls,
        c.attempt = attempt ∧ c.provider = client.provider attempt := by
  have hid : ∀ c ∈ [client.idCall attempt], c.attempt = attempt ∧
      c.provider = client.provider attempt := by
    intro c hc
    rw [List.mem_singleton.mp hc]
    exact ⟨rfl, rfl⟩
  simp only [tryOnce, body]
  split
  next => exact ⟨List.cons_ne_nil _ _, hid⟩
  next => exact ⟨List.cons_ne_nil _ _, hid⟩
  next =>
    split
    next => exact ⟨List.cons_ne_nil _ _, hid⟩
    next =>
      split_ifs
      · exact ⟨List.cons_ne_nil _ _, hid⟩
      · exact ⟨List.cons_ne_nil _ _, hid⟩
      · refine ⟨List.cons_ne_nil _ _, fun c hc => ?_⟩
        rcases List.mem_cons.mp hc with rfl | hc
        · exact hid _ List.mem_cons_self
        · rw [List.mem_singleton.mp hc]
          exact ⟨rfl, rfl⟩

theorem tryOnce_asked (attempt : Nat) :
    (client.tryOnce script method params attempt).calls = [client.idCall attempt] ∨
      (client.tryOnce script method params attempt).calls =
        [client.idCall attempt, client.methodCall method params attempt] ∧
      (∃ id, script (client.idCall attempt) = .value id ∧ quantity id = .ok client.chainId) ∧
      (client.tryOnce script method params attempt).answer =
        (call script (client.methodCall method params attempt)).getD
          (.error (.transport "RPC request timed out")) := by
  simp only [tryOnce, body]
  split
  next => exact .inl rfl
  next => exact .inl rfl
  next id hid =>
    split
    next => exact .inl rfl
    next actual hactual =>
      split_ifs with hchain hmethod
      · exact .inl rfl
      · exact .inl rfl
      · exact .inr ⟨rfl, ⟨id, call_eq_ok hid, not_not.mp hchain ▸ hactual⟩, rfl⟩

theorem tryOnce_erring {attempt : Nat} {before after : List (Call P)} {c : Call P}
    (hcalls : (client.tryOnce script method params attempt).calls = before ++ c :: after)
    (herring : ∀ v, script c ≠ .value v) : after = [] ∧
      (client.tryOnce script method params attempt).answer =
        (call script c).getD (.error (.transport "RPC request timed out")) := by
  obtain hone | ⟨htwo, ⟨id, hid, -⟩, hanswer⟩ : _ ∨ _ ∧ _ ∧ _ := client.tryOnce_asked attempt
  · rw [hone] at hcalls
    obtain ⟨rfl, hcons⟩ | ⟨rest, -, hnil⟩ := List.cons_eq_append_iff.mp hcalls
    · obtain ⟨rfl, rfl⟩ := List.cons.inj hcons
      refine ⟨rfl, ?_⟩
      cases hid : call script (client.idCall attempt) with
      | none => simp only [tryOnce, body, hid]
      | some answer =>
        cases answer with
        | ok v => exact absurd (call_eq_ok hid) (herring v)
        | error e =>
          simp only [tryOnce, body, hid]
    · cases (List.nil_eq_append_iff.mp hnil).2
  · rw [htwo] at hcalls
    obtain ⟨rfl, hcons⟩ | ⟨rest, rfl, hrest⟩ := List.cons_eq_append_iff.mp hcalls
    · obtain ⟨rfl, -⟩ := List.cons.inj hcons
      exact absurd hid (herring id)
    · obtain ⟨rfl, hcons⟩ | ⟨rest', -, hnil⟩ := List.cons_eq_append_iff.mp hrest
      · obtain ⟨rfl, rfl⟩ := List.cons.inj hcons
        exact ⟨rfl, hanswer⟩
      · cases (List.nil_eq_append_iff.mp hnil).2

theorem tryOnce_ok {attempt : Nat} {v : Json}
    (h : (client.tryOnce script method params attempt).answer = .ok v) :
    ∃ id, client.Trusted script method params attempt
      (client.tryOnce script method params attempt) v id := by
  simp only [tryOnce, body] at h ⊢
  split at h
  next => cases h
  next => cases h
  next id hid =>
    split at h
    next => cases h
    next actual hactual =>
      split_ifs at h with hchain hmethod
      · cases h
      · cases h
        refine ⟨v, ⟨call_eq_ok hid, not_not.mp hchain ▸ hactual⟩, .inl ⟨hmethod, rfl, ?_⟩⟩
        simp [hmethod, not_not.mp hchain]
      · have hcall : call script (client.methodCall method params attempt) = some (.ok v) := by
          cases hanswer : call script (client.methodCall method params attempt) with
          | none =>
            rw [hanswer] at h
            cases h
          | some answer =>
            rw [hanswer] at h
            exact congrArg some h
        refine ⟨id, ⟨call_eq_ok hid, not_not.mp hchain ▸ hactual⟩,
          .inr ⟨hmethod, call_eq_ok hcall, ?_⟩⟩
        simp [hmethod, not_not.mp hchain]

theorem quantity_error_decode {value : Json} {e : ChainError} (h : quantity value = .error e) :
    ∃ text, e = .decode text := by
  rw [quantity] at h
  split at h
  next =>
    cases h
    exact ⟨_, rfl⟩
  next =>
    split at h
    next =>
      cases h
      exact ⟨_, rfl⟩
    next => cases h

theorem tryOnce_not_other (attempt : Nat) (text : String) :
    (client.tryOnce script method params attempt).answer ≠ .error (.other text) := by
  intro h
  simp only [tryOnce, body] at h
  split at h
  next => cases h
  next e he =>
    cases h
    exact call_error he text rfl
  next id hid =>
    split at h
    next e he =>
      cases h
      obtain ⟨_, htext⟩ := quantity_error_decode he
      cases htext
    next actual hactual =>
      split_ifs at h
      · cases h
      · cases h
      · cases hanswer : call script (client.methodCall method params attempt) with
        | none =>
          rw [hanswer] at h
          cases h
        | some answer =>
          rw [hanswer] at h
          exact call_error (hanswer.trans (congrArg some h)) text rfl

theorem tryOnce_mismatch {attempt : Nat} {id : Json} {actual : Nat}
    (hid : script (client.idCall attempt) = .value id) (hactual : quantity id = .ok actual)
    (hchain : actual ≠ client.chainId) :
    (client.tryOnce script method params attempt).answer =
      .error (.chainIdMismatch client.chainId.repr actual.repr) := by
  have hcall : call script (client.idCall attempt) = some (.ok id) := by rw [call, hid]
  simp [tryOnce, body, hcall, hactual, hchain]

theorem tryOnce_mismatch_calls {attempt : Nat} {id : Json} {actual : Nat}
    (hid : script (client.idCall attempt) = .value id) (hactual : quantity id = .ok actual)
    (hchain : actual ≠ client.chainId) :
    (client.tryOnce script method params attempt).calls = [client.idCall attempt] := by
  obtain hone | ⟨-, ⟨id', hid', hactual'⟩, -⟩ : _ ∨ _ ∧ _ ∧ _ := client.tryOnce_asked attempt
  · exact hone
  · rw [hid] at hid'
    cases hid'
    rw [hactual] at hactual'
    exact absurd (Except.ok.inj hactual') hchain

theorem looped_once {k : Nat} (hk : k < client.attempts) {delays : List Nat}
    (hdelays : delays = []) {answer : Except ChainError Json}
    (hanswer : (client.tryOnce script method params k).answer = answer)
    (hspent : ∀ e, answer = .error e → e.isRetryable = true → k + 1 = client.attempts) :
    client.Looped script method params k
      ⟨[client.tryOnce script method params k], delays, answer⟩ := by
  refine ⟨fun i a ha => ?_, ⟨Nat.one_pos, hk⟩, fun i hi => ?_, hanswer.symm, hspent, hdelays⟩
  · cases i with
    | zero => exact (Option.some.inj ha).symm
    | succ i => cases ha
  · simp only [List.length_singleton] at hi
    omega

theorem Looped.cons {k : Nat} {r : Requested P} {e : ChainError}
    (hanswer : (client.tryOnce script method params k).answer = .error e)
    (hretry : e.isRetryable = true) (h : client.Looped script method params (k + 1) r) :
    client.Looped script method params k
      ⟨client.tryOnce script method params k :: r.attempts, backoff k :: r.delays, r.result⟩ := by
  obtain ⟨hpos, hbound⟩ := h.bounded
  obtain ⟨m, hm⟩ : ∃ m, r.attempts.length = m + 1 := ⟨r.attempts.length - 1, by omega⟩
  refine ⟨fun i a ha => ?_, ?_, fun i hi => ?_, ?_, fun e' he hr => ?_, ?_⟩
  · cases i with
    | zero => exact (Option.some.inj ha).symm
    | succ i => exact Nat.add_right_comm k i 1 ▸ h.tried i a ha
  · simp only [List.length_cons]
    omega
  · cases i with
    | zero => exact ⟨e, hretry, hanswer⟩
    | succ i =>
      simp only [List.length_cons] at hi
      obtain ⟨e', hretry', hanswer'⟩ := h.retried i (by omega)
      exact ⟨e', hretry', Nat.add_right_comm k i 1 ▸ hanswer'⟩
  · have hlast := h.last
    rw [hm, Nat.add_sub_cancel, Nat.add_assoc, Nat.add_comm 1 m, ← hm] at hlast
    exact hlast
  · have := h.spent e' he hr
    simp only [List.length_cons]
    omega
  · rw [h.delays, List.length_cons, hm]
    rfl

theorem requestLoop_looped {turns k : Nat} (hturns : 0 < turns)
    (hsum : k + turns = client.attempts) :
    client.Looped script method params k (client.requestLoop script method params turns k) := by
  induction turns generalizing k with
  | zero => omega
  | succ turns ih =>
    rw [requestLoop]
    cases hanswer : (client.tryOnce script method params k).answer with
    | ok v => exact looped_once (by omega) rfl hanswer fun e he => (by cases he)
    | error e =>
      by_cases hagain : e.isRetryable = true ∧ k + 1 < client.attempts
      · simp only [if_pos hagain]
        exact .cons hanswer hagain.1 (ih (by omega) (by omega))
      · simp only [if_neg hagain]
        refine looped_once (by omega) rfl hanswer fun e' he hr => ?_
        cases he
        by_contra hne
        exact hagain ⟨hr, by omega⟩

-- Every earlier attempt failed with a retryable error, so an answer of another kind is the last.
theorem Looped.last_of_final {k : Nat} {r : Requested P}
    (h : client.Looped script method params 0 r) (hk : k < r.attempts.length)
    (hfinal : ∀ e, (client.tryOnce script method params k).answer = .error e →
      e.isRetryable = false) :
    r.attempts.length = k + 1 ∧ r.result = (client.tryOnce script method params k).answer := by
  have hlen : r.attempts.length = k + 1 := by
    by_contra hne
    obtain ⟨e, hretry, hanswer⟩ := h.retried k (by omega)
    rw [Nat.zero_add] at hanswer
    rw [hfinal e hanswer] at hretry
    cases hretry
  refine ⟨hlen, ?_⟩
  rw [h.last, hlen, Nat.zero_add, Nat.add_sub_cancel]

theorem Looped.budgeted {r : Requested P} (h : client.Looped script method params 0 r) :
    client.Budgeted script method params r := by
  obtain ⟨hpos, hbound⟩ := h.bounded
  have hat : ∀ k a, r.attempts[k]? = some a →
      k < r.attempts.length ∧ a = client.tryOnce script method params k := fun k a ha =>
    ⟨(List.getElem?_eq_some_iff.mp ha).1, Nat.zero_add k ▸ h.tried k a ha⟩
  have hlast : r.attempts[r.attempts.length - 1]? =
      some (client.tryOnce script method params (r.attempts.length - 1)) := by
    rw [List.getElem?_eq_getElem (by omega)]
    exact congrArg some (hat _ _ (List.getElem?_eq_getElem (by omega))).2
  have hanswer : r.result =
      (client.tryOnce script method params (r.attempts.length - 1)).answer := by
    rw [h.last, Nat.zero_add]
  refine ⟨fun k a ha => ?_, fun k a ha => ?_, fun k a ha before c after hcalls herring => ?_,
    ⟨hpos, by omega⟩, fun v hv => ?_, fun k a e ha he hfatal => ?_,
    fun k id actual hk hid hactual hchain => ?_, fun e he hr => ⟨?_, ?_⟩, fun text htext => ?_, ?_⟩
  · obtain ⟨_, rfl⟩ := hat k a ha
    refine ⟨(tryOnce_calls k).1, fun c hc => ?_⟩
    obtain ⟨hattempt, hprovider⟩ := (tryOnce_calls k).2 c hc
    refine ⟨hattempt, ?_⟩
    rw [hprovider, List.getElem?_eq_getElem (Nat.mod_lt _ client.nonempty)]
    rfl
  · obtain ⟨_, rfl⟩ := hat k a ha
    exact (client.tryOnce_asked k).imp_right fun h => ⟨h.1, h.2.1⟩
  · obtain ⟨_, rfl⟩ := hat k a ha
    exact tryOnce_erring hcalls herring
  · obtain ⟨id, htrusted⟩ := tryOnce_ok (hanswer.symm.trans hv)
    exact ⟨_, _, id, by omega, hlast, htrusted⟩
  · obtain ⟨hk, rfl⟩ := hat k a ha
    obtain ⟨hlen, hresult⟩ := h.last_of_final hk fun e' he' => by
      rw [he] at he'
      cases he'
      exact hfatal
    exact ⟨hresult.trans he, hlen⟩
  · have hmismatch : (client.tryOnce script method params k).answer = _ :=
      tryOnce_mismatch hid hactual hchain
    obtain ⟨hlen, hresult⟩ := h.last_of_final hk fun e' he' => by
      rw [hmismatch] at he'
      cases he'
      rfl
    have ha := List.getElem?_eq_getElem hk
    refine ⟨⟨_, ha, ?_⟩, hresult.trans hmismatch, hlen⟩
    rw [(hat k _ ha).2]
    exact tryOnce_mismatch_calls hid hactual hchain
  · have := h.spent e he hr
    omega
  · refine ⟨_, ?_, hanswer.symm.trans he⟩
    rw [List.getLast?_eq_getElem?, hlast]
  · exact tryOnce_not_other _ text (hanswer.symm.trans htext)
  · rw [h.delays]
    refine ⟨by simp only [List.length_map, List.length_range']; omega, fun d hd => ?_⟩
    obtain ⟨k, _, rfl⟩ := List.mem_map.mp hd
    exact Nat.min_le_right _ _

end Attempts

theorem backoff_exact (attempt : Nat) :
    min attempt 6 < 64 ∧ 100 * 2 ^ min attempt 6 ≤ maxValue 64 ∧
      backoff attempt = min (100 * 2 ^ min attempt 6) 5000 := by
  have hshift : min attempt 6 ≤ 6 := Nat.min_le_right _ _
  have hpow : 2 ^ min attempt 6 ≤ 2 ^ 6 := Nat.pow_le_pow_right (by omega) hshift
  have hmax : maxValue 64 = 18446744073709551615 := rfl
  have hproduct : 100 * 2 ^ min attempt 6 ≤ maxValue 64 := by omega
  refine ⟨by omega, hproduct, ?_⟩
  rw [backoff, Nat.shiftLeft_eq, Nat.one_mul, saturatingMul, Nat.min_eq_left hproduct]

theorem request_trusts_verified_endpoint (client : RpcClient P)
    (script : Call P → CallOutcome) (method : String) (params : Json) :
    client.Budgeted script method params (client.request script method params) ∧
    ∀ attempt, min attempt 6 < 64 ∧ 100 * 2 ^ min attempt 6 ≤ maxValue 64 ∧
      backoff attempt = min (100 * 2 ^ min attempt 6) 5000 :=
  ⟨(requestLoop_looped client.positive (Nat.zero_add _)).budgeted, backoff_exact⟩

example : (request ⟨[false, true], 1, 2, 1, by decide, by decide⟩
    (fun c => if c.provider then .value (.string "0x89") else .errorResp (-32005))
    "eth_blockNumber" (.array [])).result = .error (.chainIdMismatch "1" "137") := by
  rfl

end RpcClient
end SuperqueryNode.Evm

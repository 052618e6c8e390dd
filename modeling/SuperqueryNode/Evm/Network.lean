import SuperqueryNode.Evm.RpcClient
import SuperqueryNode.Evm.Wire

namespace SuperqueryNode.Evm
open Radix Fallible ChainApi Decode

namespace RpcClient
variable {P : Type}

abbrev Script (P : Type) := String → Call P → CallOutcome

def ask (client : RpcClient P) (script : Script P) (method : String) (params : Json) :
    Except ChainError Json :=
  (client.request (script method) method params).result

def Attested (client : RpcClient P) (script : Script P) (method : String) (params v : Json) :
    Prop :=
  ∃ attempt id, script method (client.idCall attempt) = .value id ∧
    quantity id = .ok client.chainId ∧
    script method (client.methodCall method params attempt) = .value v

theorem ask_attested {client : RpcClient P} {script : Script P} {method : String}
    {params v : Json} (hmethod : method ≠ "eth_chainId")
    (h : client.ask script method params = .ok v) : client.Attested script method params v := by
  have hbudget : client.Budgeted (script method) method params
      (client.request (script method) method params) :=
    (requestLoop_looped client.positive (Nat.zero_add _)).budgeted
  obtain ⟨attempt, a, id, _, _, htrusted⟩ := hbudget.trusted v h
  rcases htrusted.answered with ⟨hsame, _⟩ | ⟨_, hanswer, _⟩
  · exact absurd hsame hmethod
  · exact ⟨attempt, id, htrusted.verified.1, htrusted.verified.2, hanswer⟩

section Failover
variable {client : RpcClient P} {script : Script P} {method : String} {params v : Json}

def Unavailable : CallOutcome → Prop
  | .transportError => True
  | .pending => True
  | .errorResp code => code = 429 ∨ code = -32005 ∨ code = -32016
  | _ => False

theorem unavailable_call {c : Call P} (h : Unavailable (script method c)) :
    (∀ v, script method c ≠ .value v) ∧ ∃ e, e.isRetryable = true ∧
      (call (script method) c).getD (.error (.transport "RPC request timed out")) = .error e := by
  cases hc : script method c with
  | value v =>
    rw [hc] at h
    exact h.elim
  | errorResp code =>
    rw [hc] at h
    have hlimited : code = 429 ∨ code = -32005 ∨ code = -32016 := h
    refine ⟨fun v => by simp, .rateLimited none, rfl, ?_⟩
    simp only [call, hc, if_pos hlimited, Option.getD_some]
  | transportError =>
    exact ⟨fun v => by simp, .transport "RPC transport failed", rfl, by simp only [call, hc]; rfl⟩
  | invalidResponse =>
    rw [hc] at h
    exact h.elim
  | pending =>
    exact ⟨fun v => by simp, .transport "RPC request timed out", rfl, by simp only [call, hc]; rfl⟩

def Down (client : RpcClient P) (script : Script P) (method : String) (params : Json) (k : Nat) :
    Prop :=
  Unavailable (script method (client.idCall k)) ∨
    (∃ id, script method (client.idCall k) = .value id ∧ quantity id = .ok client.chainId) ∧
      Unavailable (script method (client.methodCall method params k))

theorem down_retryable {k : Nat} (hmethod : method ≠ "eth_chainId")
    (h : client.Down script method params k) : ∃ e, e.isRetryable = true ∧
      (client.tryOnce (script method) method params k).answer = .error e := by
  rcases h with hid | ⟨⟨id, hid, hchain⟩, hcall⟩
  · obtain ⟨herring, e, hretry, he⟩ := unavailable_call hid
    obtain ⟨after, hcalls⟩ : ∃ after, (client.tryOnce (script method) method params k).calls =
        [] ++ client.idCall k :: after := by
      obtain hone | ⟨htwo, -⟩ :
          (client.tryOnce (script method) method params k).calls = [client.idCall k] ∨
            (client.tryOnce (script method) method params k).calls =
              [client.idCall k, client.methodCall method params k] ∧ _ := client.tryOnce_asked k
      · exact ⟨_, hone⟩
      · exact ⟨_, htwo⟩
    exact ⟨e, hretry, (tryOnce_erring hcalls herring).2.trans he⟩
  · obtain ⟨-, e, hretry, he⟩ := unavailable_call hcall
    have hidCall : call (script method) (client.idCall k) = some (.ok id) := by rw [call, hid]
    refine ⟨e, hretry, ?_⟩
    simp only [tryOnce, body, hidCall, hchain, ne_eq, not_true_eq_false, if_false, hmethod]
    exact he

theorem tryOnce_served {k : Nat} {id : Json} (hmethod : method ≠ "eth_chainId")
    (hid : script method (client.idCall k) = .value id)
    (hchain : quantity id = .ok client.chainId)
    (hv : script method (client.methodCall method params k) = .value v) :
    (client.tryOnce (script method) method params k).answer = .ok v := by
  have hidCall : call (script method) (client.idCall k) = some (.ok id) := by rw [call, hid]
  have hcall : call (script method) (client.methodCall method params k) = some (.ok v) := by
    rw [call, hv]
  simp [tryOnce, body, hidCall, hchain, hmethod, hcall]

theorem ask_eq_ok : client.ask script method params = .ok v ↔ ∃ k < client.attempts,
    (client.tryOnce (script method) method params k).answer = .ok v ∧
      ∀ i < k, ∃ e, e.isRetryable = true ∧
        (client.tryOnce (script method) method params i).answer = .error e := by
  have hloop : client.Looped (script method) method params 0
      (client.request (script method) method params) :=
    requestLoop_looped client.positive (Nat.zero_add _)
  obtain ⟨hpos, hbound⟩ := hloop.bounded
  constructor
  · intro h
    refine ⟨(client.request (script method) method params).attempts.length - 1, by omega,
      ?_, fun i hi => ?_⟩
    · rw [← h, ask, hloop.last, Nat.zero_add]
    · obtain ⟨e, hretry, hanswer⟩ := hloop.retried i (by omega)
      exact ⟨e, hretry, Nat.zero_add i ▸ hanswer⟩
  · rintro ⟨k, hk, hanswer, hearlier⟩
    have hreached : k < (client.request (script method) method params).attempts.length := by
      by_contra hshort
      obtain ⟨e, hretry, hlast⟩ := hearlier
        ((client.request (script method) method params).attempts.length - 1) (by omega)
      have hspent := hloop.spent e (by rw [hloop.last, Nat.zero_add, hlast]) hretry
      omega
    obtain ⟨-, hresult⟩ := hloop.last_of_final hreached fun e he => by
      rw [hanswer] at he
      cases he
    exact hresult.trans hanswer

def Replies (client : RpcClient P) (script : Script P) (method : String) (params v : Json) : Prop :=
  ∃ k < client.attempts,
    (∃ id, script method (client.idCall k) = .value id ∧ quantity id = .ok client.chainId) ∧
    script method (client.methodCall method params k) = .value v ∧
    ∀ i < k, client.Down script method params i

theorem ask_replies (hmethod : method ≠ "eth_chainId") (h : client.Replies script method params v) :
    client.ask script method params = .ok v := by
  obtain ⟨k, hk, ⟨id, hid, hchain⟩, hv, hdown⟩ := h
  exact ask_eq_ok.mpr ⟨k, hk, tryOnce_served hmethod hid hchain hv,
    fun i hi => down_retryable hmethod (hdown i hi)⟩

def answering (client : RpcClient P) (answer : String → Json) : Script P := fun _ c =>
  if c.method = "eth_chainId" then .value (EvmAdapter.hexQuantity client.chainId)
  else .value (answer c.method)

theorem answering_replies {answer : String → Json} (hid : client.chainId ≤ Unsigned.maxValue 64)
    (hmethod : method ≠ "eth_chainId") :
    client.Replies (client.answering answer) method params (answer method) :=
  ⟨0, client.positive, ⟨_, if_pos rfl, quantity_hexQuantity hid⟩, if_neg hmethod,
    fun i hi => absurd hi (Nat.not_lt_zero i)⟩

end Failover
end RpcClient

namespace EvmAdapter

def latestHeight (request : String → Json → Except ChainError Json) : Except ChainError Nat := do
  let value ← request "eth_blockNumber" (.array [])
  quantity value

def finalizedHeight (request : String → Json → Except ChainError Json) (confirmations : Nat) :
    Except ChainError Nat :=
  match request "eth_getBlockByNumber" (.array [.string "finalized", .bool false]) with
  | .ok value => if value.isNull then .ok 0 else quantity (value.get "number")
  | .error (.rpc code) =>
    if code = -32601 ∨ code = -32602 then do
      let latest ← latestHeight request
      return latest - confirmations
    else .error (.rpc code)
  | .error e => .error e

def headerAt (p : Primitives) (request : String → Json → Except ChainError Json)
    (height : Nat) : Except ChainError Header := do
  let value ← request "eth_getBlockByNumber" (.array [hexQuantity height, .bool false])
  header p value height

def validateNetwork (request : String → Json → Except ChainError Json) (expected : String) :
    Except ChainError Unit := do
  let value ← request "eth_chainId" (.array [])
  let actual ← quantity value
  if fromStrRadix 64 10 expected ≠ some actual then
    .error (.chainIdMismatch expected actual.repr)
  else return ()

section Sources
variable {P : Type} {client : RpcClient P} {script : RpcClient.Script P} {n height : Nat}

theorem latestHeight_le {request : String → Json → Except ChainError Json}
    (h : latestHeight request = .ok n) : n ≤ Unsigned.maxValue 64 := by
  obtain ⟨value, _, h⟩ := bind_eq_ok.mp h
  exact quantity_le h

theorem latestHeight_source (h : latestHeight (client.ask script) = .ok n) :
    ∃ value, client.Attested script "eth_blockNumber" (.array []) value ∧
      quantity value = .ok n := by
  obtain ⟨value, hvalue, h⟩ := bind_eq_ok.mp h
  exact ⟨value, RpcClient.ask_attested (by decide) hvalue, h⟩

structure FinalBlock (client : RpcClient P) (script : RpcClient.Script P) (confirmations n : Nat) :
    Prop where
  source : (∃ value, client.Attested script "eth_getBlockByNumber"
      (.array [.string "finalized", .bool false]) value ∧
      (value.isNull = true ∧ n = 0 ∨ quantity (value.get "number") = .ok n)) ∨
    ∃ value latest, client.Attested script "eth_blockNumber" (.array []) value ∧
      quantity value = .ok latest ∧ n = latest - confirmations
  bounded : n ≤ Unsigned.maxValue 64

theorem finalizedHeight_source {confirmations : Nat}
    (h : finalizedHeight (client.ask script) confirmations = .ok n) :
    FinalBlock client script confirmations n := by
  rw [finalizedHeight] at h
  split at h
  next value hvalue =>
    have hattested := RpcClient.ask_attested (by decide) hvalue
    split_ifs at h with hnull
    · cases h
      exact ⟨.inl ⟨value, hattested, .inl ⟨hnull, rfl⟩⟩, Nat.zero_le _⟩
    · exact ⟨.inl ⟨value, hattested, .inr h⟩, quantity_le h⟩
  next code _ =>
    split_ifs at h
    obtain ⟨latest, hlatest, h⟩ := bind_eq_ok.mp h
    obtain ⟨value, hattested, hquantity⟩ := latestHeight_source hlatest
    have hn := pure_eq_ok.mp h
    exact ⟨.inr ⟨value, latest, hattested, hquantity, hn.symm⟩,
      hn ▸ (Nat.sub_le _ _).trans (latestHeight_le hlatest)⟩
  next => cases h

end Sources

section Fetched
variable {P : Type} {p : Primitives} {request : String → Json → Except ChainError Json}
  {height : Nat} {fetched : GenericBlock EvmBlock}

structure Answers (p : Primitives) (request : String → Json → Except ChainError Json) (height : Nat)
    (value logs : Json) (fetched : GenericBlock EvmBlock) : Prop where
  body : request "eth_getBlockByNumber" (.array [hexQuantity height, .bool true]) = .ok value
  events : request "eth_getLogs" (.array [.object [("blockHash", .string fetched.header.hash)]]) =
    .ok logs
  height : fetched.inner.number = height
  header : fetched.header = fetched.inner.header p
  items : BlockItem p value logs fetched.inner

theorem fetchBlock_eq_ok : fetchBlock p request height = .ok fetched ↔
    ∃ value logs, Answers p request height value logs fetched := by
  constructor
  · intro h
    have hheader := fetchBlock_header h
    obtain ⟨value, hvalue, h⟩ := bind_eq_ok.mp h
    obtain ⟨hd, _, h⟩ := bind_eq_ok.mp h
    obtain ⟨logs, hlogs, h⟩ := bind_eq_ok.mp h
    obtain ⟨b, hb, h⟩ := bind_eq_ok.mp h
    cases pure_eq_ok.mp h
    obtain ⟨hnumber, hitems⟩ := block_eq_ok.mp hb
    exact ⟨value, logs, hvalue, hlogs, hnumber, hheader, hitems⟩
  · rintro ⟨value, logs, h⟩
    obtain ⟨hd, b⟩ := fetched
    have hheader : hd = b.header p := h.header
    have hnumber : b.number = height := h.height
    subst hheader hnumber
    exact bind_eq_ok.mpr ⟨value, h.body, bind_eq_ok.mpr
      ⟨_, (header_eq_ok.mpr h.items.header).1, bind_eq_ok.mpr
        ⟨logs, h.events, bind_eq_ok.mpr ⟨b, block_of_items h.items, rfl⟩⟩⟩⟩

theorem fetched_block_is_one_block (p : Primitives) (client : RpcClient P)
    (script : RpcClient.Script P) (height : Nat) (fetched : GenericBlock EvmBlock) :
    (fetchBlock p (client.ask script) height = .ok fetched ↔
      ∃ value logs, Answers p (client.ask script) height value logs fetched) ∧
    ∀ value logs, Answers p (client.ask script) height value logs fetched →
      client.Attested script "eth_getBlockByNumber" (.array [hexQuantity height, .bool true])
        value ∧
      client.Attested script "eth_getLogs"
        (.array [.object [("blockHash", .string fetched.header.hash)]]) logs :=
  ⟨fetchBlock_eq_ok, fun _ _ h =>
    ⟨RpcClient.ask_attested (by decide) h.body, RpcClient.ask_attested (by decide) h.events⟩⟩

def attestedScript : RpcClient.Script Unit := fun method c =>
  if c.method = "eth_chainId" then .value (.string "0x1")
  else if method = "eth_getLogs" then .value (.array [fixtureLog "0x1", fixtureLog "0x0"])
  else .value fixtureBlock

theorem fixture_block_attested :
    let client : RpcClient Unit := ⟨[()], 1, 1, 30, by decide, by decide⟩
    client.Attested attestedScript "eth_getBlockByNumber" (.array [hexQuantity 2, .bool true])
        fixtureBlock ∧
      client.Attested attestedScript "eth_getLogs"
        (.array [.object [("blockHash", .string fixtureDecoded.hash)]])
        (.array [fixtureLog "0x1", fixtureLog "0x0"]) := by
  intro client
  obtain ⟨-, hattested⟩ := fetched_block_is_one_block lowerHexPrimitives client attestedScript 2
    ⟨fixtureDecoded.header lowerHexPrimitives, fixtureDecoded⟩
  exact hattested fixtureBlock _ ⟨rfl, rfl, rfl, rfl, block_items fixture_decodes⟩

end Fetched

section Replies
variable {P : Type} {p : Primitives} {client : RpcClient P} {script : RpcClient.Script P}
  {b : EvmBlock} {value : Json} {n : Nat}

structure BlockServed (client : RpcClient P) (script : RpcClient.Script P) (b : EvmBlock) :
    Prop where
  body : client.Replies script "eth_getBlockByNumber" (.array [hexQuantity b.number, .bool true])
    (wireBlock b)
  logs : ∃ items : List Json, items.Perm (b.logs.map (wireLog b)) ∧
    client.Replies script "eth_getLogs" (.array [.object [("blockHash", .string b.hash)]])
      (.array items)

theorem fetchBlock_served (hb : WellFormed p b) (h : BlockServed client script b) :
    fetchBlock p (client.ask script) b.number = .ok ⟨b.header p, b⟩ := by
  obtain ⟨items, hitems, hlogs⟩ := h.logs
  exact fetchBlock_eq_ok.mpr ⟨wireBlock b, .array items,
    RpcClient.ask_replies (by decide) h.body, RpcClient.ask_replies (by decide) hlogs, rfl, rfl,
    wireBlock_item hb hitems⟩

theorem headerAt_served (h : client.Replies script "eth_getBlockByNumber"
    (.array [hexQuantity b.number, .bool false]) value) (hitem : HeaderItem p value b) :
    headerAt p (client.ask script) b.number = .ok (b.header p) :=
  bind_eq_ok.mpr ⟨value, RpcClient.ask_replies (by decide) h, (header_eq_ok.mpr hitem).1⟩

theorem latestHeight_served (h : client.Replies script "eth_blockNumber" (.array []) value)
    (hn : quantity value = .ok n) : latestHeight (client.ask script) = .ok n :=
  bind_eq_ok.mpr ⟨value, RpcClient.ask_replies (by decide) h, hn⟩

theorem finalizedHeight_served (confirmations : Nat) (h : client.Replies script
    "eth_getBlockByNumber" (.array [.string "finalized", .bool false]) value)
    (hpresent : value.isNull = false) (hn : quantity (value.get "number") = .ok n) :
    finalizedHeight (client.ask script) confirmations = .ok n := by
  rw [finalizedHeight, RpcClient.ask_replies (by decide) h]
  simp only [hpresent, Bool.false_eq_true, if_false, hn]

end Replies

section Failover
variable {P : Type}

structure ServedAt (client : RpcClient P) (script : RpcClient.Script P) (k : Nat) (method : String)
    (params v : Json) : Prop where
  id : ∃ id, script method (client.idCall k) = .value id ∧ quantity id = .ok client.chainId
  value : script method (client.methodCall method params k) = .value v
  down : ∀ i < k, client.Down script method params i

theorem failover_fetches_wellFormed_block (p : Primitives) (client : RpcClient P)
    (script : RpcClient.Script P) (b : EvmBlock) (hb : WellFormed p b) (k : Nat)
    (hk : k < client.attempts)
    (hbody : ServedAt client script k "eth_getBlockByNumber"
      (.array [hexQuantity b.number, .bool true]) (wireBlock b))
    (l : Nat) (hl : l < client.attempts) (items : List Json)
    (hitems : items.Perm (b.logs.map (wireLog b)))
    (hlogs : ServedAt client script l "eth_getLogs"
      (.array [.object [("blockHash", .string b.hash)]]) (.array items)) :
    fetchBlock p (client.ask script) b.number = .ok ⟨b.header p, b⟩ :=
  fetchBlock_served hb ⟨⟨k, hk, hbody.id, hbody.value, hbody.down⟩, items, hitems,
    ⟨l, hl, hlogs.id, hlogs.value, hlogs.down⟩⟩

def fixtureScript : RpcClient.Script Bool := fun method c =>
  if c.method = "eth_chainId" then .value (.string "0x1")
  else if c.provider = false then .transportError
  else if method = "eth_getLogs" then
    .value (.array (fixtureDecoded.logs.map (wireLog fixtureDecoded)))
  else .value (wireBlock fixtureDecoded)

theorem second_endpoint_serves_fixture :
    let client : RpcClient Bool := ⟨[false, true], 1, 2, 30, by decide, by decide⟩
    fetchBlock lowerHexPrimitives (client.ask fixtureScript) 2 =
      .ok ⟨fixtureDecoded.header lowerHexPrimitives, fixtureDecoded⟩ := by
  intro client
  have hdown : ∀ i < 1, ∀ method ≠ "eth_chainId", ∀ params,
      client.Down fixtureScript method params i := by
    intro i hi method hmethod params
    cases Nat.lt_one_iff.mp hi
    refine .inr ⟨⟨.string "0x1", rfl, by decide⟩, ?_⟩
    have hfails : fixtureScript method (client.methodCall method params 0) = .transportError := by
      change (if method = "eth_chainId" then _ else _) = _
      rw [if_neg hmethod]
      rfl
    rw [hfails]
    trivial
  exact failover_fetches_wellFormed_block lowerHexPrimitives client fixtureScript fixtureDecoded
    ((block_items fixture_decodes).wellFormed lowerHexPrimitives_lawful) 1 (by decide)
    ⟨⟨.string "0x1", rfl, by decide⟩, rfl, fun i hi => hdown i hi _ (by decide) _⟩ 1 (by decide) _
    (List.Perm.refl _)
    ⟨⟨.string "0x1", rfl, by decide⟩, rfl, fun i hi => hdown i hi _ (by decide) _⟩

end Failover
end EvmAdapter
end SuperqueryNode.Evm

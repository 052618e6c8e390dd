import SuperqueryNode.Node.Provenance
import SuperqueryNode.Node.Startup
import SuperqueryNode.Store.Identity

namespace SuperqueryNode.Node
open Unsigned Radix Fallible LabelledRun ChainApi Config Evm Fetch Store Store.Ingestion

structure NodeProcess (P D : Type) where
  env : Environment P D
  config : NodeConfig
  context : NodeContext P D
  started : main env config = .ok context

inductive Stage where
  | verifying
  | verified
  | ingesting
  | stopped
deriving DecidableEq, Repr

structure Deployment (P D : Type) where
  schema : SharedSchema
  cluster : Cluster EvmBlock
  nodes : Nat → Option (NodeProcess P D × Stage)

-- The steps of `ingest::run` after the journal exists, each with the answers it reads.
inductive Request (P : Type) where
  | load
  | checkCanonical (script : RpcClient.Script P)
  | invoke
  | heads (latest finalized : RpcClient.Script P)
  | fetched (scripts : Nat → RpcClient.Script P)
  | wake
  | cancel
  | accept (delivery : Delivery)

inductive Action (P D : Type) where
  | bootstrap (i : Nat) (n : NodeProcess P D)
  | identity (turn : Turn)
  | boot (i : Nat)
  | ingest (i : Nat) (r : Request P)
  | crash (i : Nat)

namespace NodeProcess
variable {P D : Type} (n : NodeProcess P D)

def client : RpcClient P := n.context.client

def call : VerifyCall :=
  .verifyProject n.context.project.manifest.name n.context.project.manifest.network.chainId
    n.context.project.fingerprint "1"

def latest (script : RpcClient.Script P) : Except ChainError UInt64 :=
  (EvmAdapter.latestHeight (n.client.ask script)).map UInt64.ofNat

def finalized (script : RpcClient.Script P) : Except ChainError UInt64 :=
  (EvmAdapter.finalizedHeight (n.client.ask script) n.config.finalityConfirmations.toNat).map
    UInt64.ofNat

def fetchBlock (scripts : Nat → RpcClient.Script P) (height : Nat) :
    Except ChainError (GenericBlock EvmBlock) :=
  EvmAdapter.fetchBlock n.env.primitives (n.client.ask (scripts height)) height

def headerAt (script : RpcClient.Script P) (height : Nat) : Except ChainError Header :=
  EvmAdapter.headerAt n.env.primitives (n.client.ask script) height

def event (i : Nat) (proc : Proc EvmBlock) : Request P → Option (Event EvmBlock)
  | .load => some (.load i)
  | .checkCanonical script =>
    match proc with
    | .loaded _ last => some (.checkCanonical i (n.headerAt script last.height))
    | _ => none
  | .invoke => some (.schedule i .invoke)
  | .heads latest finalized => some (.schedule i (.heads (n.latest latest) (n.finalized finalized)))
  | .fetched scripts => some (.schedule i (.fetched (n.fetchBlock scripts)))
  | .wake => some (.schedule i .wake)
  | .cancel => some (.schedule i .cancel)
  | .accept delivery => some (.accept i delivery)

def turned (turn : Turn) : Session → Stage
  | .idle => if turn.isCommit then .verified else .stopped
  | _ => .verifying

end NodeProcess

namespace Deployment
variable {P D : Type}

def start (table : Metadata) : Deployment P D :=
  ⟨.start table, .start, fun _ => none⟩

def setNode (d : Deployment P D) (i : Nat) (n : NodeProcess P D) (stage : Stage) :
    Nat → Option (NodeProcess P D × Stage) :=
  Function.update d.nodes i (some (n, stage))

def node (d : Deployment P D) (i : Nat) : Option (NodeProcess P D) := (d.nodes i).map (·.1)

-- A process that dies in its identity check leaves the transaction to be rolled back.
def rollback (schema : String) (s : SharedSchema) (i : Nat) : SharedSchema :=
  (SharedSchema.step schema s (.fail i "connection closed")).getD s

-- An index stands for one process from its start to its end; a restart takes a new one. Other
-- programs may run identity checks on the schema under the indices no process has.
def step (schema : String) (d : Deployment P D) : Action P D → Option (Deployment P D)
  | .bootstrap i n =>
    match d.nodes i with
    | none => (SharedSchema.step schema d.schema (.call i n.call)).map fun s =>
        { d with schema := s, nodes := d.setNode i n .verifying }
    | some _ => none
  | .identity turn =>
    match d.nodes turn.process with
    | none => (SharedSchema.step schema d.schema turn).map fun s => { d with schema := s }
    | some (n, .verifying) => (SharedSchema.step schema d.schema turn).map fun s =>
        { d with
          schema := s
          nodes := d.setNode turn.process n
            (NodeProcess.turned turn (s.sessions turn.process)) }
    | some _ => none
  | .boot i =>
    match d.nodes i with
    | some (n, .verified) =>
      (d.cluster.step (.boot i (n.context.schedulerConfig n.config))).map fun c =>
        { d with cluster := c, nodes := d.setNode i n .ingesting }
    | _ => none
  | .ingest i r =>
    match d.nodes i with
    | some (n, .ingesting) => (n.event i (d.cluster.procs i) r).bind fun e =>
        (d.cluster.step e).map fun c => { d with cluster := c }
    | _ => none
  | .crash i =>
    match d.nodes i with
    | some (n, _) => (d.cluster.step (.crash i)).map fun c =>
        ⟨rollback schema d.schema i, c, d.setNode i n .stopped⟩
    | none => none

end Deployment

namespace Cluster

def process {B : Type} : Event B → Option Nat
  | .boot i _ => some i
  | .load i => some i
  | .checkCanonical i _ => some i
  | .schedule i _ => some i
  | .accept i _ => some i
  | .commit _ _ => none
  | .crash i => some i

end Cluster

def Bound (table : Metadata) (call : VerifyCall) : Prop :=
  ∀ c ∈ call.checks, table c.1 = some c.2

def NodeProcess.Explains {P D : Type} (n : NodeProcess P D) (taken : List (Action P D)) :
    Event EvmBlock → Prop
  | .boot _ config => config = n.context.schedulerConfig n.config
  | .schedule i (.heads latest finalized) => ∃ l f, .ingest i (.heads l f) ∈ taken ∧
    latest = n.latest l ∧ finalized = n.finalized f
  | .schedule i (.fetched fetchBlock) => ∃ scripts, .ingest i (.fetched scripts) ∈ taken ∧
    fetchBlock = n.fetchBlock scripts
  | _ => True

theorem NodeProcess.Explains.later {P D : Type} {n : NodeProcess P D}
    {taken more : List (Action P D)} {e : Event EvmBlock} (h : n.Explains taken e) :
    n.Explains (taken ++ more) e := by
  cases e with
  | boot i config => exact h
  | schedule i l =>
    cases l with
    | heads latest finalized =>
      obtain ⟨l, f, hmem, heq⟩ := h
      exact ⟨l, f, List.mem_append_left _ hmem, heq⟩
    | fetched fetchBlock =>
      obtain ⟨scripts, hmem, heq⟩ := h
      exact ⟨scripts, List.mem_append_left _ hmem, heq⟩
    | _ => trivial
  | _ => trivial

namespace Deployment
variable {P D : Type}

def Staged (s : SharedSchema) (i : Nat) : Option (NodeProcess P D × Stage) → Prop
  | some (n, .verifying) => (s.sessions i).call? = some n.call
  | some (n, .verified) => Bound s.table n.call
  | some (n, .ingesting) => Bound s.table n.call
  | some (_, .stopped) => True
  | none => True

def Explained (taken : List (Action P D)) (d : Deployment P D) (e : Event EvmBlock) : Prop :=
  ∃ i n, Cluster.process e = some i ∧ d.node i = some n ∧
    (e = .crash i ∨ Bound d.schema.table n.call ∧ n.Explains taken e)

structure Sound (schema : String) (first : Metadata) (taken : List (Action P D))
    (events : List (Event EvmBlock)) (d : Deployment P D) : Prop where
  settled : SharedSchema.Settled schema first d.schema
  history : Cluster.History events d.cluster
  staged : ∀ i, Staged d.schema i (d.nodes i)
  explained : ∀ e ∈ events, d.Explained taken e

section Later
variable {schema : String} {first : Metadata} {taken more : List (Action P D)}
  {events : List (Event EvmBlock)} {d : Deployment P D} {s t : SharedSchema} {i : Nat}
  {n : NodeProcess P D} {stage : Stage}

theorem bound_later {table table' : Metadata} {call : VerifyCall} (h : Bound table call)
    (htable : ∀ key value, table key = some value → table' key = some value) :
    Bound table' call :=
  fun c hc => htable _ _ (h c hc)

theorem staged_later {k : Nat} {x : Option (NodeProcess P D × Stage)} (h : Staged s k x)
    (htable : ∀ key value, s.table key = some value → t.table key = some value)
    (hsession : t.sessions k = s.sessions k) : Staged t k x := by
  cases x with
  | none => trivial
  | some x =>
    obtain ⟨n, stage⟩ := x
    cases stage with
    | verifying => exact (congrArg Session.call? hsession).trans h
    | verified => exact bound_later h htable
    | ingesting => exact bound_later h htable
    | stopped => trivial

theorem node_setNode (hnode : ∀ m, d.node i = some m → m = n) {k : Nat} {m : NodeProcess P D}
    (h : d.node k = some m) : (d.setNode i n stage k).map (·.1) = some m := by
  by_cases hk : k = i
  · subst hk
    simp [setNode, hnode m h]
  · rw [setNode, Function.update_of_ne hk]
    exact h

theorem explained_later {e : Event EvmBlock} {cluster : Cluster EvmBlock}
    {nodes : Nat → Option (NodeProcess P D × Stage)} (h : d.Explained taken e)
    (htable : ∀ key value, d.schema.table key = some value → s.table key = some value)
    (hnodes : ∀ k m, d.node k = some m → (nodes k).map (·.1) = some m) :
    Explained (taken ++ more) ⟨s, cluster, nodes⟩ e := by
  obtain ⟨k, m, hk, hm, hcause⟩ := h
  exact ⟨k, m, hk, hnodes k m hm,
    hcause.imp_right fun h => ⟨bound_later h.1 htable, h.2.later⟩⟩

theorem sound_update (hd : Sound schema first taken events d)
    (hs : SharedSchema.Settled schema first s)
    (htable : ∀ key value, d.schema.table key = some value → s.table key = some value)
    (hother : ∀ k, k ≠ i → s.sessions k = d.schema.sessions k)
    (hnode : ∀ m, d.node i = some m → m = n) (hstaged : Staged s i (some (n, stage))) :
    Sound schema first (taken ++ more) events ⟨s, d.cluster, d.setNode i n stage⟩ where
  settled := hs
  history := hd.history
  staged := by
    intro k
    by_cases hk : k = i
    · subst hk
      simpa [setNode] using hstaged
    · simpa [setNode, hk] using staged_later (hd.staged k) htable (hother k hk)
  explained := fun e he =>
    explained_later (hd.explained e he) htable fun _ _ h => node_setNode hnode h

theorem sound_event (hd : Sound schema first taken events d) {e : Event EvmBlock}
    {c : Cluster EvmBlock} (h : d.cluster.step e = some c) (he : d.Explained taken e) :
    Sound schema first taken (events ++ [e]) { d with cluster := c } where
  settled := hd.settled
  history := Cluster.history_step hd.history h
  staged := hd.staged
  explained := by
    intro x hx
    rcases List.mem_append.mp hx with hx | hx
    · exact hd.explained x hx
    · rw [List.mem_singleton.mp hx]
      exact he

end Later

section Step
variable {schema : String} {first : Metadata} {taken : List (Action P D)}
  {events : List (Event EvmBlock)} {d d' : Deployment P D} {s : SharedSchema} {i : Nat}
  {n : NodeProcess P D}

theorem turn_keeps (hd : SharedSchema.Settled schema first d.schema) {turn : Turn}
    (h : SharedSchema.step schema d.schema turn = some s) : SharedSchema.Settled schema first s ∧
      (∀ key value, d.schema.table key = some value → s.table key = some value) ∧
        ∀ k, k ≠ turn.process → s.sessions k = d.schema.sessions k := by
  refine ⟨SharedSchema.settled_step hd h, fun key value hvalue => ?_, fun k hk => ?_⟩
  · exact SharedSchema.stepped_keeps (SharedSchema.step_spec hd.invariant h).2 hvalue
  · obtain ⟨session, hsessions, -⟩ := SharedSchema.step_sessions h
    rw [hsessions, Function.update_of_ne hk]

theorem turned_open {turn : Turn} {session : Session} {call : VerifyCall}
    (h : session.call? = some call) : NodeProcess.turned turn session = .verifying := by
  cases session with
  | idle => cases h
  | opened _ => rfl
  | checking _ _ _ => rfl
  | stamping _ _ _ _ => rfl

theorem staged_turn (hd : SharedSchema.Settled schema first d.schema) {turn : Turn}
    (h : SharedSchema.step schema d.schema turn = some s)
    (hcall : (d.schema.sessions turn.process).call? = some n.call) :
    Staged s turn.process
      (some (n, NodeProcess.turned turn (s.sessions turn.process))) := by
  obtain ⟨session, hsessions, hturned⟩ := SharedSchema.step_sessions h
  have hsession : s.sessions turn.process = session := by rw [hsessions, Function.update_self]
  rw [hsession]
  cases hturned with
  | opened call _ hidle =>
    rw [hidle] at hcall
    cases hcall
  | continued call _ _ before after =>
    rw [turned_open after]
    exact (congrArg Session.call? hsession).trans (after.trans (before.symm.trans hcall))
  | failed call undecided _ =>
    rw [NodeProcess.turned, undecided]
    trivial
  | committed call outcome decided before returned =>
    rw [NodeProcess.turned, decided, if_pos rfl]
    cases Option.some.inj (before.symm.trans hcall)
    exact (SharedSchema.settled_step hd h).facts _ (.ok outcome) returned rfl

theorem rollback_spec (hd : SharedSchema.Settled schema first d.schema) (i : Nat) :
    SharedSchema.Settled schema first (rollback schema d.schema i) ∧
      (∀ key value, d.schema.table key = some value →
        (rollback schema d.schema i).table key = some value) ∧
        ∀ k, k ≠ i → (rollback schema d.schema i).sessions k = d.schema.sessions k := by
  rw [rollback]
  cases h : SharedSchema.step schema d.schema (.fail i "connection closed") with
  | none => exact ⟨hd, fun _ _ h => h, fun _ _ => rfl⟩
  | some s => exact turn_keeps hd h

theorem event_explained (hn : d.node i = some n) (hbound : Bound d.schema.table n.call)
    {r : Request P} {e : Event EvmBlock} (h : n.event i (d.cluster.procs i) r = some e)
    (htaken : .ingest i r ∈ taken) : d.Explained taken e := by
  have hcause : Cluster.process e = some i → n.Explains taken e → d.Explained taken e :=
    fun hp hx => ⟨i, n, hp, hn, .inr ⟨hbound, hx⟩⟩
  cases r with
  | load =>
    cases h
    exact hcause rfl trivial
  | checkCanonical script =>
    simp only [NodeProcess.event] at h
    split at h
    next config last _ =>
      cases h
      exact hcause rfl trivial
    next => cases h
  | invoke =>
    cases h
    exact hcause rfl trivial
  | heads latest finalized =>
    cases h
    exact hcause rfl ⟨latest, finalized, htaken, rfl, rfl⟩
  | fetched scripts =>
    cases h
    exact hcause rfl ⟨scripts, htaken, rfl⟩
  | wake =>
    cases h
    exact hcause rfl trivial
  | cancel =>
    cases h
    exact hcause rfl trivial
  | accept delivery =>
    cases h
    exact hcause rfl trivial

theorem node_of_nodes {x : NodeProcess P D × Stage} (h : d.nodes i = some x) :
    d.node i = some x.1 := by
  rw [node, h]
  rfl

theorem sound_step (hd : Sound schema first taken events d) {a : Action P D}
    (h : step schema d a = some d') :
    ∃ events', Sound schema first (taken ++ [a]) events' d' := by
  have htaken : a ∈ taken ++ [a] := List.mem_append_right _ (List.mem_singleton_self a)
  have hsame : ∀ {k : Nat} {x : NodeProcess P D × Stage}, d.nodes k = some x →
      ∀ m, d.node k = some m → m = x.1 := fun hk m hm =>
    Option.some.inj (hm.symm.trans (node_of_nodes hk))
  cases a with
  | bootstrap i n =>
    simp only [step] at h
    split at h
    next hnone =>
      obtain ⟨s, hs, rfl⟩ := Option.map_eq_some_iff.mp h
      obtain ⟨hsettled, htable, hother⟩ := turn_keeps hd.settled hs
      refine ⟨events, sound_update hd hsettled htable hother (fun m hm => ?_) ?_⟩
      · rw [node, hnone] at hm
        cases hm
      · exact SharedSchema.session_call hs
    next => cases h
  | identity turn =>
    simp only [step] at h
    split at h
    next hnone =>
      obtain ⟨s, hs, rfl⟩ := Option.map_eq_some_iff.mp h
      obtain ⟨hsettled, htable, hother⟩ := turn_keeps hd.settled hs
      refine ⟨events, hsettled, hd.history, fun k => ?_, fun e he =>
        explained_later (hd.explained e he) htable fun _ _ h => h⟩
      by_cases hk : k = turn.process
      · rw [hk, hnone]
        trivial
      · exact staged_later (hd.staged k) htable (hother k hk)
    next n hverifying =>
      obtain ⟨s, hs, rfl⟩ := Option.map_eq_some_iff.mp h
      obtain ⟨hsettled, htable, hother⟩ := turn_keeps hd.settled hs
      have hcall := hd.staged turn.process
      rw [hverifying] at hcall
      exact ⟨events, sound_update hd hsettled htable hother (hsame hverifying)
        (staged_turn hd.settled hs hcall)⟩
    next => cases h
  | boot i =>
    simp only [step] at h
    split at h
    next n hverified =>
      obtain ⟨c, hc, rfl⟩ := Option.map_eq_some_iff.mp h
      have hbound := hd.staged i
      rw [hverified] at hbound
      have hnext : Sound schema first (taken ++ [.boot i]) events
          ⟨d.schema, d.cluster, d.setNode i n .ingesting⟩ :=
        sound_update hd hd.settled (fun _ _ h => h) (fun _ _ => rfl) (hsame hverified) hbound
      exact ⟨_, sound_event hnext hc ⟨i, n, rfl,
        node_setNode (hsame hverified) (node_of_nodes hverified), .inr ⟨hbound, rfl⟩⟩⟩
    next => cases h
  | ingest i r =>
    simp only [step] at h
    split at h
    next n hingesting =>
      obtain ⟨e, he, h⟩ := Option.bind_eq_some_iff.mp h
      obtain ⟨c, hc, rfl⟩ := Option.map_eq_some_iff.mp h
      have hbound := hd.staged i
      rw [hingesting] at hbound
      have hnext : Sound schema first (taken ++ [.ingest i r]) events d :=
        ⟨hd.settled, hd.history, hd.staged, fun e he =>
          explained_later (hd.explained e he) (fun _ _ h => h) fun _ _ h => h⟩
      exact ⟨_, sound_event hnext hc (event_explained (node_of_nodes hingesting) hbound he htaken)⟩
    next => cases h
  | crash i =>
    simp only [step] at h
    split at h
    next n stage hn =>
      obtain ⟨c, hc, rfl⟩ := Option.map_eq_some_iff.mp h
      obtain ⟨hsettled, htable, hother⟩ := rollback_spec hd.settled i
      have hnext : Sound schema first (taken ++ [.crash i]) events
          ⟨rollback schema d.schema i, d.cluster, d.setNode i n .stopped⟩ :=
        sound_update hd hsettled htable hother (hsame hn) trivial
      exact ⟨_, sound_event hnext hc ⟨i, n, rfl, node_setNode (hsame hn) (node_of_nodes hn),
        .inl rfl⟩⟩
    next => cases h

end Step

structure Rooted (taken : List (Action P D)) (d : Deployment P D) (row : IngestionRow) (i : Nat)
    (n : NodeProcess P D) (block : GenericBlock EvmBlock) : Prop where
  node : d.node i = some n
  bound : Bound d.schema.table n.call
  chain : ∃ chain, d.schema.table Keys.chainId = some chain ∧
    fromStrRadix 64 10 chain = some n.client.chainId
  row : row = encode row.height block.header ∧ row.height.val = block.header.height
  range : n.context.range.start ≤ block.header.height ∧
    ∀ e ∈ n.context.range.stop, block.header.height ≤ e
  fetched : ∃ scripts value logs, .ingest i (.fetched scripts) ∈ taken ∧
    EvmAdapter.Answers n.env.primitives (n.client.ask (scripts block.header.height))
      block.header.height value logs block ∧
    n.client.Attested (scripts block.header.height) "eth_getBlockByNumber"
      (.array [EvmAdapter.hexQuantity block.header.height, .bool true]) value ∧
    n.client.Attested (scripts block.header.height) "eth_getLogs"
      (.array [.object [("blockHash", .string block.header.hash)]]) logs
  final : ∃ latest script final, .ingest i (.heads latest script) ∈ taken ∧
    EvmAdapter.FinalBlock n.client script n.config.finalityConfirmations.toNat final ∧
    block.header.height ≤ final

section Run
variable {schema : String} {first : Metadata} {taken : List (Action P D)}
  {events : List (Event EvmBlock)} {d : Deployment P D} {n : NodeProcess P D}

theorem sound_start : Sound schema first [] [] (start first : Deployment P D) where
  settled := SharedSchema.settled_start
  history := ⟨Cluster.invariant_start, fun _ => trivial, fun row hrow => by cases hrow⟩
  staged := fun _ => trivial
  explained := fun e he => by cases he

theorem sound_run {actions : List (Action P D)}
    (h : run (step schema) (start first) actions = some d) :
    ∃ events, Sound schema first actions events d :=
  run_history (P := fun taken d => ∃ events, Sound schema first taken events d)
    (fun _ _ _ _ hs hstep => hs.elim fun _ hd => sound_step hd hstep) ⟨[], sound_start⟩ h

theorem finalized_final {script : RpcClient.Script P} {final : UInt64} {height : Nat}
    (h : n.finalized script = .ok final) (hle : height ≤ final.toNat) : ∃ final,
      EvmAdapter.FinalBlock n.client script n.config.finalityConfirmations.toNat final ∧
        height ≤ final := by
  rw [NodeProcess.finalized] at h
  cases hanswer : EvmAdapter.finalizedHeight (n.client.ask script)
      n.config.finalityConfirmations.toNat with
  | error e =>
    rw [hanswer] at h
    cases h
  | ok value =>
    rw [hanswer] at h
    cases h
    have hfinal := EvmAdapter.finalizedHeight_source hanswer
    have hbound := hfinal.bounded
    have hmax : maxValue 64 = 2 ^ 64 - 1 := rfl
    rw [UInt64.toNat_ofNat_of_lt' (by change value < 2 ^ 64; omega)] at hle
    exact ⟨value, hfinal, hle⟩

theorem explained_node {e : Event EvmBlock} {i : Nat} (he : d.Explained taken e)
    (hi : Cluster.process e = some i) (hcrash : e ≠ .crash i) : ∃ n, d.node i = some n ∧
      Bound d.schema.table n.call ∧ n.Explains taken e := by
  obtain ⟨k, n, hk, hn, hcause⟩ := he
  cases Option.some.inj (hk.symm.trans hi)
  rcases hcause with hcause | hcause
  · exact absurd hcause hcrash
  · exact ⟨n, hn, hcause⟩

theorem rooted_row (hd : Sound schema first taken events d) {row : IngestionRow}
    (hrow : Cluster.Traced events row) : ∃ i n block, d.Rooted taken row i n block := by
  rcases hrow with ⟨header, delivery, hmem, _⟩ |
    ⟨i, config, header, hboot, ⟨fetchBlock, block, hfetch, hblock, rfl⟩, hrow, hheight, hlow,
      hhigh, hfinal⟩
  · obtain ⟨k, _, hk, -⟩ := hd.explained _ hmem
    cases hk
  · obtain ⟨n, hn, hbound, hconfig⟩ := explained_node (hd.explained _ hboot) rfl nofun
    obtain ⟨m, hm, -, scripts, hasked, hscripts⟩ :=
      explained_node (hd.explained _ hfetch) rfl nofun
    cases Option.some.inj (hm.symm.trans hn)
    have hconfig : config = n.context.schedulerConfig n.config := hconfig
    subst hconfig hscripts
    obtain ⟨la, fi, hheads, hle, -⟩ := hfinal rfl
    obtain ⟨m, hm, -, latest, script, hread, -, hfi⟩ :=
      explained_node (hd.explained _ hheads) rfl nofun
    cases Option.some.inj (hm.symm.trans hn)
    obtain ⟨value, logs, hanswers⟩ := EvmAdapter.fetchBlock_eq_ok.mp hblock
    obtain ⟨final, hfinal, hle⟩ := finalized_final hfi.symm hle
    have hchain : (Keys.chainId, n.context.project.manifest.network.chainId) ∈ n.call.checks :=
      List.mem_cons_of_mem _ List.mem_cons_self
    have hrooted : d.Rooted taken row i n block := {
      node := hn
      bound := hbound
      chain := ⟨_, hbound _ hchain, n.context.sameChain⟩
      row := ⟨hrow, hheight⟩
      range := ⟨hlow, fun e he => hhigh.trans (SchedulerConfig.last_le_end _ he)⟩
      fetched := ⟨scripts, value, logs, hasked, hanswers,
        RpcClient.ask_attested (by decide) hanswers.body,
        RpcClient.ask_attested (by decide) hanswers.events⟩
      final := ⟨latest, script, final, hread, hfinal, hle⟩ }
    exact ⟨i, n, block, hrooted⟩

theorem journal_follows_one_chain (schema : String) (first : Metadata)
    (actions : List (Action P D)) (d : Deployment P D)
    (hrun : run (step schema) (start first) actions = some d) :
    ∀ row ∈ d.cluster.journal.rows, ∃ i n block, d.Rooted actions row i n block := by
  obtain ⟨events, hd⟩ := sound_run hrun
  exact fun row hrow => rooted_row hd (hd.history.rows row hrow)

def erc20Block : GenericBlock EvmBlock :=
  ⟨EvmAdapter.fixtureDecoded.header Project.hexPrimitives, EvmAdapter.fixtureDecoded⟩

theorem erc20_fetches : EvmAdapter.fetchBlock Project.hexPrimitives (erc20Client.ask erc20Script)
    2 = .ok erc20Block := by
  have hblock : Decode.block Project.hexPrimitives EvmAdapter.fixtureBlock
      (.array [EvmAdapter.fixtureLog "0x1", EvmAdapter.fixtureLog "0x0"]) 2 =
        .ok EvmAdapter.fixtureDecoded := by
    decide +kernel
  obtain ⟨hnumber, hitems⟩ := Decode.block_eq_ok.mp hblock
  exact EvmAdapter.fetchBlock_eq_ok.mpr ⟨EvmAdapter.fixtureBlock, _, rfl, rfl, hnumber, rfl, hitems⟩

def erc20Turns : List Turn :=
  [.lock 0, .check 0, .check 0, .check 0, .check 0, .check 0, .check 0, .stamp 0, .stamp 0,
    .stamp 0, .stamp 0, .stamp 0, .commit 0]

def erc20Planned (n : NodeProcess Unit Unit) : List (Action Unit Unit) :=
  .bootstrap 0 n :: erc20Turns.map .identity ++
    [.boot 0, .ingest 0 .load, .ingest 0 .invoke, .ingest 0 (.heads erc20Script erc20Script)]

def erc20Ingested : List (Action Unit Unit) :=
  [.ingest 0 (.fetched fun _ => erc20Script), .ingest 0 (.accept .acknowledged)]

theorem step_fetched {i : Nat} {resumed : Option Header} {m : SchedulerRun EvmBlock}
    {heights : List Nat} {scripts : Nat → RpcClient.Script P} {block : GenericBlock EvmBlock}
    {rest : List (GenericBlock EvmBlock)} (hn : d.nodes i = some (n, .ingesting))
    (hrunning : d.cluster.procs i = .running resumed m) (hphase : m.phase = .requesting heights)
    (hfetch : fetchNext (n.fetchBlock scripts) heights = .ok (block :: rest)) :
    step schema d (.ingest i (.fetched scripts)) =
      some { d with
        cluster := d.cluster.setProc i
          (.running resumed { m with phase := .delivering block rest }) } := by
  simp [step, hn, NodeProcess.event, Cluster.step, hrunning, Cluster.internal, SchedulerRun.step,
    hphase, SchedulerRun.fetch, hfetch]

theorem erc20_row_is_rooted : ∃ (n : NodeProcess Unit Unit) (d : Deployment Unit Unit),
    run (step "app") (start .empty) (erc20Planned n ++ erc20Ingested) = some d ∧
      d.cluster.journal.rows.length = 1 ∧
        ∀ row ∈ d.cluster.journal.rows, ∃ i m block,
          d.Rooted (erc20Planned n ++ erc20Ingested) row i m block := by
  obtain ⟨hs, h⟩ := erc20_starts
  have hfetch : fetchNext (NodeProcess.fetchBlock ⟨_, _, _, h⟩ fun _ => erc20Script) [2] =
      .ok [erc20Block] :=
    bind_eq_ok.mpr ⟨_, mapM_eq_ok.mpr (.cons (bind_eq_ok.mpr
      ⟨_, mapError_eq_ok.mpr erc20_fetches, rfl⟩) .nil), rfl⟩
  obtain ⟨d, hd, hrows⟩ : ∃ d, run (step "app") (start .empty)
      (erc20Planned ⟨_, _, _, h⟩ ++ erc20Ingested) = some d ∧ d.cluster.journal.rows.length = 1 :=
    ⟨_, run_append.mpr ⟨_, rfl, run_cons.mpr ⟨_, step_fetched rfl rfl rfl hfetch,
      run_cons.mpr ⟨_, rfl, rfl⟩⟩⟩, rfl⟩
  exact ⟨_, d, hd, hrows, journal_follows_one_chain "app" .empty _ d hd⟩

end Run

end Deployment

end SuperqueryNode.Node

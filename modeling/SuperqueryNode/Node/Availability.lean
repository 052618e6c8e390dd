import SuperqueryNode.Node.CatchUp
import SuperqueryNode.Node.Deployment

namespace SuperqueryNode.Node
open Unsigned Enumeration Fallible LabelledRun Ranked
open ChainApi Evm Evm.Decode Fetch Store Store.Ingestion

structure Rendered (p : Primitives) (chain : ServedChain EvmBlock) : Prop where
  header : ∀ h ≤ maxValue 64, (chain.block h).header = (chain.block h).inner.header p
  wellFormed : ∀ h ≤ maxValue 64, WellFormed p (chain.block h).inner

theorem Rendered.number {p : Primitives} {chain : ServedChain EvmBlock} (hc : Rendered p chain)
    {h : Nat} (hmax : h ≤ maxValue 64) : (chain.block h).inner.number = h := by
  have hheight := chain.height h
  rw [hc.header h hmax] at hheight
  exact hheight

structure HeadServed {P : Type} (client : RpcClient P) (latest finalized : RpcClient.Script P)
    (target : Nat) : Prop where
  latest : ∃ value head, client.Replies latest "eth_blockNumber" (.array []) value ∧
    quantity value = .ok head ∧ target ≤ head
  finalized : ∃ value head, client.Replies finalized "eth_getBlockByNumber"
    (.array [.string "finalized", .bool false]) value ∧ value.isNull = false ∧
      quantity (value.get "number") = .ok head ∧ target ≤ head

namespace Cluster
variable {B : Type} {c c' : Cluster B} {e : Event B} {i target : Nat} {config : SchedulerConfig}
  {chain : ServedChain B}

theorem setProc_same {p : Proc B} : (c.setProc i p).procs i = p := Function.update_self ..

theorem setProc_ne {p : Proc B} {k : Nat} (hk : some i ≠ some k) :
    (c.setProc i p).procs k = c.procs k :=
  Function.update_of_ne (fun h => hk (congrArg some h.symm)) ..

theorem step_procs (h : c.step e = some c') {k : Nat} (hk : process e ≠ some k) :
    c'.procs k = c.procs k := by
  cases e with
  | boot i config =>
    simp only [step] at h
    split at h
    · cases h
      exact setProc_ne hk
    · cases h
  | load i =>
    simp only [step] at h
    split at h
    iterate 3
      · cases h
        exact setProc_ne hk
    · cases h
  | checkCanonical i answer =>
    simp only [step] at h
    split at h
    · cases h
      exact setProc_ne hk
    · cases h
  | schedule i l =>
    simp only [step] at h
    split at h
    · split_ifs at h
      obtain ⟨m, -, rfl⟩ := Option.map_eq_some_iff.mp h
      exact setProc_ne hk
    · cases h
  | accept i delivery =>
    simp only [step] at h
    split at h
    · split at h
      · obtain ⟨m, -, rfl⟩ := Option.map_eq_some_iff.mp h
        exact setProc_ne hk
      · cases h
    · cases h
  | commit header delivery =>
    cases h
    rfl
  | crash i =>
    cases h
    exact setProc_ne hk

theorem serving_up (hc : Healthy i config chain c) (he : Serving i config chain target c e)
    (h : c.step e = some c') : c'.procs i ≠ .down := by
  have hset : ∀ (c : Cluster B) (p : Proc B), p ≠ .down → (c.setProc i p).procs i ≠ .down := by
    intro c p hp
    rwa [setProc_same]
  have hready := hc.ready
  cases e with
  | boot k booted =>
    obtain ⟨rfl, -⟩ := he
    simp only [step] at h
    split at h
    · cases h
      exact hset _ _ (by simp)
    · cases h
  | load k =>
    obtain rfl := he
    simp only [step] at h
    split at h
    next booted e hp hload =>
      rw [load_eq hc.chained] at hload
      cases hload
    next =>
      cases h
      exact hset _ _ (by simp)
    next =>
      cases h
      exact hset _ _ (by simp)
    next => cases h
  | checkCanonical k answer =>
    obtain ⟨rfl, hanswer⟩ := he
    simp only [step] at h
    split at h
    next booted last hp =>
      cases h
      rw [hp] at hready
      obtain ⟨rfl, hload⟩ := hready
      obtain ⟨m, hresume, -⟩ := ready_resume hc hload
      rw [hanswer booted last hp, hresume]
      exact hset _ _ (by simp)
    next => cases h
  | schedule k l =>
    obtain ⟨rfl, -⟩ := he
    simp only [step] at h
    split at h
    · split_ifs at h
      obtain ⟨m, -, rfl⟩ := Option.map_eq_some_iff.mp h
      exact hset _ _ (by simp)
    · cases h
  | accept k delivery =>
    obtain ⟨rfl, -⟩ := he
    simp only [step] at h
    split at h
    · split at h
      · obtain ⟨m, -, rfl⟩ := Option.map_eq_some_iff.mp h
        exact hset _ _ (by simp)
      · cases h
    · cases h
  | commit header delivery => exact he.elim
  | crash k => exact he.elim

end Cluster

namespace NodeProcess
variable {P D : Type} (n : NodeProcess P D) (chain : ServedChain EvmBlock) (target : Nat)

-- What the endpoints answer to a request, and that the database takes what is written.
def Served (proc : Proc EvmBlock) : Request P → Prop
  | .load => True
  | .checkCanonical script => ∀ booted last, proc = .loaded booted last → ∃ value,
      n.client.Replies script "eth_getBlockByNumber"
        (.array [EvmAdapter.hexQuantity last.height, .bool false]) value ∧
      HeaderItem n.env.primitives value (chain.block last.height).inner
  | .invoke => True
  | .heads latest finalized => HeadServed n.client latest finalized target
  | .fetched scripts => ∀ resumed m heights, proc = .running resumed m →
      m.phase = .requesting heights → ∀ h ∈ heights,
        EvmAdapter.BlockServed n.client (scripts h) (chain.block h).inner
  | .wake => True
  | .cancel => False
  | .accept delivery => delivery = .acknowledged

variable {n} in
theorem event_process {i : Nat} {proc : Proc EvmBlock} {r : Request P} {e : Event EvmBlock}
    (h : n.event i proc r = some e) : Cluster.process e = some i := by
  cases r with
  | checkCanonical script =>
    simp only [event] at h
    split at h
    · cases h
      rfl
    · cases h
  | _ =>
    cases h
    rfl

end NodeProcess

namespace Deployment
variable {P D : Type} (i : Nat) (n : NodeProcess P D) (chain : ServedChain EvmBlock) (target : Nat)

def Serves (d : Deployment P D) : Action P D → Prop
  | .boot k => k = i
  | .ingest k r => k = i ∧ n.Served chain target (d.cluster.procs i) r
  | _ => False

abbrev schedulerConfig (n : NodeProcess P D) : SchedulerConfig := n.context.schedulerConfig n.config

abbrev Healthy (d : Deployment P D) : Prop :=
  Cluster.Healthy i (schedulerConfig n) chain d.cluster ∧ d.node i = some n

abbrev Ingested (d : Deployment P D) : Prop :=
  Cluster.Ingested i target (schedulerConfig n) chain d.cluster ∧ d.node i = some n

section Requests
variable {i n chain target} {schema : String} {d d' : Deployment P D} {script : RpcClient.Script P}

theorem headerAt_chain (hc : Rendered n.env.primitives chain) {h : Nat} (hmax : h ≤ maxValue 64)
    {value : Json} (hreply : n.client.Replies script "eth_getBlockByNumber"
      (.array [EvmAdapter.hexQuantity h, .bool false]) value)
    (hitem : HeaderItem n.env.primitives value (chain.block h).inner) :
    n.headerAt script h = .ok (chain.block h).header := by
  have hread := EvmAdapter.headerAt_served (b := (chain.block h).inner)
    (by rwa [hc.number hmax]) hitem
  rw [hc.number hmax, ← hc.header h hmax] at hread
  exact hread

theorem fetchBlock_chain (hc : Rendered n.env.primitives chain) {h : Nat} (hmax : h ≤ maxValue 64)
    {scripts : Nat → RpcClient.Script P}
    (hserved : EvmAdapter.BlockServed n.client (scripts h) (chain.block h).inner) :
    n.fetchBlock scripts h = chain.fetchBlock h := by
  have hread := EvmAdapter.fetchBlock_served (hc.wellFormed h hmax) hserved
  rw [hc.number hmax, ← hc.header h hmax] at hread
  exact hread

theorem safeHead_served {latest finalized : RpcClient.Script P}
    (h : HeadServed n.client latest finalized target) {s : FetchScheduler}
    (hconfig : s.config = schedulerConfig n) : ∃ head,
      s.safeHead (n.latest latest) (n.finalized finalized) = .ok head ∧ target ≤ head := by
  obtain ⟨value, head, hreply, hhead, hle⟩ := h.latest
  obtain ⟨value', final, hreply', hpresent, hfinal, hle'⟩ := h.finalized
  have hlatest : n.latest latest = .ok (UInt64.ofNat head) := by
    rw [NodeProcess.latest, EvmAdapter.latestHeight_served hreply hhead]
    rfl
  have hfinalized : n.finalized finalized = .ok (UInt64.ofNat final) := by
    rw [NodeProcess.finalized, EvmAdapter.finalizedHeight_served _ hreply' hpresent hfinal]
    rfl
  have hsmall : ∀ m : Nat, m ≤ maxValue 64 → (UInt64.ofNat m).toNat = m := by
    intro m hm
    have hmax : maxValue 64 = 2 ^ 64 - 1 := rfl
    exact UInt64.toNat_ofNat_of_lt' (by change m < 2 ^ 64; omega)
  refine ⟨min final head, ?_, Nat.le_min.mpr ⟨hle', hle⟩⟩
  rw [FetchScheduler.safeHead, hlatest, hfinalized, hconfig]
  change Except.ok (Fetch.safeHead (UInt64.ofNat head).toNat (UInt64.ofNat final).toNat false _) = _
  rw [hsmall head (quantity_le hhead), hsmall final (quantity_le hfinal)]
  rfl

theorem fetchNext_congr {f g : Nat → Except ChainError (GenericBlock EvmBlock)}
    {heights : List Nat} (h : ∀ x ∈ heights, f x = g x) :
    fetchNext f heights = fetchNext g heights := by
  have hone : heights.mapM (fetchOne f) = heights.mapM (fetchOne g) := by
    induction heights with
    | nil => rfl
    | cons x rest ih =>
      have hx : fetchOne f x = fetchOne g x := by rw [fetchOne, h x List.mem_cons_self, fetchOne]
      rw [List.mapM_cons, List.mapM_cons, hx, ih fun y hy => h y (List.mem_cons_of_mem _ hy)]
  rw [fetchNext, hone, fetchNext]

theorem requested_le {config : SchedulerConfig} {j : IngestionBlocks} {m : SchedulerRun EvmBlock}
    (hm : Cluster.Tracking config chain j m) {heights : List Nat}
    (hphase : m.phase = .requesting heights) : ∀ h ∈ heights, h ≤ maxValue 64 := by
  obtain ⟨origin, -, hsteady, -⟩ := hm.steady
  have hpending := hsteady.invariant.phase
  rw [hphase] at hpending
  intro h hh
  have hremaining := (hsteady.invariant.positioned.pending.subset (hpending.subset hh))
  have hlast := (mem_enumerate.mp hremaining).1.2
  exact hlast.trans (SchedulerConfig.last_le _)

theorem served_event (hc : Rendered n.env.primitives chain)
    (hd : Cluster.Healthy i (schedulerConfig n) chain d.cluster) {r : Request P}
    (hserved : n.Served chain target (d.cluster.procs i) r) {e : Event EvmBlock}
    (he : n.event i (d.cluster.procs i) r = some e) {c : Cluster EvmBlock}
    (hstep : d.cluster.step e = some c) :
    ∃ e, Cluster.Serving i (schedulerConfig n) chain target d.cluster e ∧
      d.cluster.step e = some c := by
  have hready := hd.ready
  cases r with
  | load =>
    cases he
    exact ⟨.load i, rfl, hstep⟩
  | checkCanonical script =>
    simp only [NodeProcess.event] at he
    split at he
    next booted last hloaded =>
      cases he
      refine ⟨.checkCanonical i _, ⟨rfl, fun booted' last' hloaded' => ?_⟩, hstep⟩
      rw [hloaded] at hloaded'
      cases hloaded'
      rw [hloaded] at hready
      have hmax := (Cluster.loaded_height hd.chained hready.2).le
      obtain ⟨value, hreply, hitem⟩ := hserved booted last hloaded
      exact headerAt_chain hc hmax hreply hitem
    next => cases he
  | invoke =>
    cases he
    exact ⟨.schedule i .invoke, ⟨rfl, fun _ _ _ => trivial⟩, hstep⟩
  | heads latest finalized =>
    cases he
    refine ⟨.schedule i (.heads _ _), ⟨rfl, fun resumed m hrunning => ?_⟩, hstep⟩
    rw [hrunning] at hready
    obtain ⟨origin, -, hsteady, -⟩ := hready.steady
    exact safeHead_served hserved hsteady.invariant.sameConfig
  | fetched scripts =>
    cases he
    -- The event carries the node's own reader, which reads the chain at the requested heights.
    refine ⟨.schedule i (.fetched chain.fetchBlock), ⟨rfl, fun _ _ _ => rfl⟩, ?_⟩
    rw [← hstep]
    cases hproc : d.cluster.procs i with
    | running resumed m =>
      rw [hproc] at hready
      cases hphase : m.phase with
      | requesting heights =>
        have hsame := fetchNext_congr fun h hh => fetchBlock_chain hc
          (requested_le hready hphase h hh) (hserved resumed m heights hproc hphase h hh)
        simp only [Cluster.step, hproc, SchedulerRun.step, hphase, SchedulerRun.fetch, hsame,
          Cluster.internal]
      | _ => simp only [Cluster.step, hproc, SchedulerRun.step, hphase, Cluster.internal]
    | _ => simp only [Cluster.step, hproc]
  | wake =>
    cases he
    exact ⟨.schedule i .wake, ⟨rfl, fun _ _ _ => trivial⟩, hstep⟩
  | cancel => exact hserved.elim
  | accept delivery =>
    cases he
    exact ⟨.accept i delivery, ⟨rfl, hserved⟩, hstep⟩

theorem serves_event (hc : Rendered n.env.primitives chain) (hd : Healthy i n chain d)
    {a : Action P D} (ha : Serves i n chain target d a) (h : step schema d a = some d') :
    ∃ e, Cluster.Serving i (schedulerConfig n) chain target d.cluster e ∧
      d.cluster.step e = some d'.cluster ∧ d'.node i = some n := by
  obtain ⟨hhealthy, hn⟩ := hd
  cases a with
  | bootstrap k m => exact ha.elim
  | identity turn => exact ha.elim
  | crash k => exact ha.elim
  | boot k =>
    obtain rfl : k = i := ha
    simp only [step] at h
    split at h
    next m hverified =>
      obtain rfl : m = n := Option.some.inj ((node_of_nodes hverified).symm.trans hn)
      obtain ⟨c, hstep, rfl⟩ := Option.map_eq_some_iff.mp h
      exact ⟨.boot k (schedulerConfig m), ⟨rfl, rfl⟩, hstep,
        node_setNode (fun _ hm => Option.some.inj (hm.symm.trans hn)) hn⟩
    next => cases h
  | ingest k r =>
    obtain ⟨rfl, hserved⟩ := ha
    simp only [step] at h
    split at h
    next m hingesting =>
      obtain rfl : m = n := Option.some.inj ((node_of_nodes hingesting).symm.trans hn)
      obtain ⟨e, he, h⟩ := Option.bind_eq_some_iff.mp h
      obtain ⟨c, hstep, rfl⟩ := Option.map_eq_some_iff.mp h
      obtain ⟨e', hserving, hstep'⟩ := served_event hc hhealthy hserved he hstep
      exact ⟨e', hserving, hstep', hn⟩
    next => cases h

theorem batch_positive (n : NodeProcess P D) : 0 < (schedulerConfig n).batchSize :=
  (main_started n.started).sound.budgets _ List.mem_cons_self

theorem serves_descends (hc : Rendered n.env.primitives chain)
    (hhash : ∀ h, (chain.block h).header.hash ≠ "")
    (htarget : (min target (schedulerConfig n).last : Nat) ≤ bigintMax) :
    Descending (step schema) (Serves i n chain target) (Healthy i n chain)
      (Ingested i n chain target)
      fun d : Deployment P D => Cluster.rank i target (schedulerConfig n) d.cluster := by
  have hcluster : Descending Cluster.step (Cluster.Serving i (schedulerConfig n) chain target)
      (Cluster.Healthy i (schedulerConfig n) chain)
      (Cluster.Ingested i target (schedulerConfig n) chain)
      (Cluster.rank i target (schedulerConfig n)) :=
    Cluster.serving_descends (batch_positive n) rfl hhash htarget
  constructor
  · intro d a d' hd ha h
    obtain ⟨e, he, hstep, hn⟩ := serves_event hc ⟨hd.1.1, hd.2⟩ ha h
    exact ⟨hcluster.keeps _ _ _ hd.1 he hstep, hn⟩
  · intro d a d' hd hopen ha h
    obtain ⟨e, he, hstep, hn⟩ := serves_event hc hd ha h
    exact (hcluster.lowers _ _ _ hd.1 (fun hdone => hopen ⟨hdone, hd.2⟩) he hstep).imp
      (fun hdone => ⟨hdone, hn⟩) fun hlower => ⟨⟨hlower.1, hn⟩, hlower.2⟩

end Requests

section Progress
variable {i n chain target} {schema : String} {d d' : Deployment P D}

theorem ingest_step (hn : d.nodes i = some (n, .ingesting)) {r : Request P} {e : Event EvmBlock}
    (he : n.event i (d.cluster.procs i) r = some e) {c : Cluster EvmBlock}
    (hstep : d.cluster.step e = some c) :
    step schema d (.ingest i r) = some { d with cluster := c } := by
  simp only [step, hn, he, Option.bind_some, hstep, Option.map_some]

theorem head_answered (hid : n.client.chainId ≤ maxValue 64) (htop : target ≤ maxValue 64) :
    HeadServed n.client (n.client.answering fun _ => EvmAdapter.hexQuantity target)
      (n.client.answering fun _ => .object [("number", EvmAdapter.hexQuantity target)]) target where
  latest := ⟨_, target, RpcClient.answering_replies hid (by decide), quantity_hexQuantity htop,
    le_rfl⟩
  finalized := ⟨_, target, RpcClient.answering_replies hid (by decide), rfl,
    quantity_hexQuantity htop, le_rfl⟩

theorem block_answered (hid : n.client.chainId ≤ maxValue 64) (b : EvmBlock) :
    EvmAdapter.BlockServed n.client (n.client.answering fun method =>
      if method = "eth_getLogs" then .array (b.logs.map (wireLog b)) else wireBlock b) b where
  body := RpcClient.answering_replies hid (by decide)
  logs := ⟨_, List.Perm.refl _, RpcClient.answering_replies hid (by decide)⟩

theorem chainId_le (n : NodeProcess P D) : n.client.chainId ≤ maxValue 64 :=
  Radix.fromStrRadix_le n.context.sameChain

theorem request_enabled (hc : Rendered n.env.primitives chain) (htop : target ≤ maxValue 64)
    (hd : Cluster.Healthy i (schedulerConfig n) chain d.cluster)
    (hup : d.cluster.procs i ≠ .down) : ∃ r e c, n.Served chain target (d.cluster.procs i) r ∧
      n.event i (d.cluster.procs i) r = some e ∧ d.cluster.step e = some c := by
  have hready := hd.ready
  have hid := chainId_le n
  cases hp : d.cluster.procs i with
  | down => exact absurd hp hup
  | started booted =>
    refine ⟨.load, .load i, ?_⟩
    simp only [Cluster.step, hp, load_eq hd.chained]
    cases d.cluster.journal.rows.getLast? with
    | none => exact ⟨_, trivial, rfl, rfl⟩
    | some row => exact ⟨_, trivial, rfl, rfl⟩
  | loaded booted last =>
    rw [hp] at hready
    have hmax := (Cluster.loaded_height hd.chained hready.2).le
    have hitem := (wireBlock_item (hc.wellFormed last.height hmax) (List.Perm.refl _)).header
    refine ⟨.checkCanonical (n.client.answering fun _ => wireBlock (chain.block last.height).inner),
      _, _, fun booted' last' h => ?_, rfl, by simp only [Cluster.step, hp]; rfl⟩
    cases h
    exact ⟨_, RpcClient.answering_replies hid (by decide), hitem⟩
  | running resumed m =>
    cases hphase : m.phase with
    | idle outcome =>
      exact ⟨.invoke, _, _, trivial, rfl, by
        simp only [Cluster.step, hp, Cluster.internal, SchedulerRun.step, hphase]; rfl⟩
    | planning =>
      exact ⟨.heads _ _, _, _, head_answered hid htop, rfl, by
        simp only [Cluster.step, hp, Cluster.internal, SchedulerRun.step, hphase]; rfl⟩
    | requesting heights =>
      exact ⟨.fetched _, _, _, fun _ _ _ _ _ h _ => block_answered hid (chain.block h).inner, rfl,
        by simp only [Cluster.step, hp, Cluster.internal, SchedulerRun.step, hphase]; rfl⟩
    | sleeping =>
      exact ⟨.wake, _, _, trivial, rfl, by
        simp only [Cluster.step, hp, Cluster.internal, SchedulerRun.step, hphase]; rfl⟩
    | delivering block rest =>
      exact ⟨.accept .acknowledged, _, _, rfl, rfl, by
        simp only [Cluster.step, hp, SchedulerRun.step, hphase]; rfl⟩

def Live (i : Nat) (n : NodeProcess P D) (chain : ServedChain EvmBlock) (d : Deployment P D) :
    Prop :=
  Healthy i n chain d ∧ (d.nodes i = some (n, .verified) ∧ d.cluster.procs i = .down ∨
    d.nodes i = some (n, .ingesting) ∧ d.cluster.procs i ≠ .down)

theorem serves_ingesting (hn : d.node i = some n) {a : Action P D}
    (ha : Serves i n chain target d a) (h : step schema d a = some d') :
    d'.nodes i = some (n, .ingesting) := by
  cases a with
  | bootstrap k m => exact ha.elim
  | identity turn => exact ha.elim
  | crash k => exact ha.elim
  | boot k =>
    obtain rfl : k = i := ha
    simp only [step] at h
    split at h
    next m hverified =>
      obtain rfl : m = n := Option.some.inj ((node_of_nodes hverified).symm.trans hn)
      obtain ⟨c, -, rfl⟩ := Option.map_eq_some_iff.mp h
      exact Function.update_self ..
    next => cases h
  | ingest k r =>
    obtain rfl : k = i := ha.1
    simp only [step] at h
    split at h
    next m hingesting =>
      obtain rfl : m = n := Option.some.inj ((node_of_nodes hingesting).symm.trans hn)
      obtain ⟨e, -, h⟩ := Option.bind_eq_some_iff.mp h
      obtain ⟨c, -, rfl⟩ := Option.map_eq_some_iff.mp h
      exact hingesting
    next => cases h

theorem live_step (hc : Rendered n.env.primitives chain)
    (hhash : ∀ h, (chain.block h).header.hash ≠ "")
    (htarget : (min target (schedulerConfig n).last : Nat) ≤ bigintMax) (hd : Live i n chain d)
    {a : Action P D} (ha : Serves i n chain target d a) (h : step schema d a = some d') :
    Live i n chain d' := by
  have hhealthy := hd.1
  obtain ⟨e, he, hstep, hn⟩ := serves_event hc hhealthy ha h
  have hadvances := Cluster.advances_step (batch_positive n) rfl hhash htarget hhealthy.1 he hstep
  exact ⟨⟨hadvances.healthy, hn⟩,
    .inr ⟨serves_ingesting hhealthy.2 ha h, Cluster.serving_up hhealthy.1 he hstep⟩⟩

theorem live_enabled (hc : Rendered n.env.primitives chain) (htop : target ≤ maxValue 64)
    (hd : Live i n chain d) :
    ∃ a d', Serves i n chain target d a ∧ step schema d a = some d' := by
  obtain ⟨hhealthy, ⟨hnodes, hdown⟩ | ⟨hnodes, hup⟩⟩ := hd
  · refine ⟨.boot i, { d with
      cluster := d.cluster.setProc i (.started (schedulerConfig n))
      nodes := d.setNode i n .ingesting }, rfl, ?_⟩
    simp only [step, hnodes, Cluster.step, hdown, Option.map_some]
  · obtain ⟨r, e, c, hserved, he, hstep⟩ := request_enabled hc htop hhealthy.1 hup
    exact ⟨.ingest i r, { d with cluster := c }, ⟨rfl, hserved⟩, ingest_step hnodes he hstep⟩

end Progress

def Parked (d : Deployment P D) : Prop :=
  ∀ i, (∀ n, d.nodes i ≠ some (n, .ingesting)) → d.cluster.procs i = .down

section Parked
variable {i n} {schema : String} {d d' : Deployment P D} {stage : Stage}

theorem setNode_ne {k : Nat} (hk : k ≠ i) : d.setNode i n stage k = d.nodes k :=
  Function.update_of_ne hk ..

theorem parked_setNode (hd : Parked d) (hnot : ∀ n, d.nodes i ≠ some (n, .ingesting))
    (s : SharedSchema) : Parked ⟨s, d.cluster, d.setNode i n stage⟩ := by
  intro k hk
  by_cases hki : k = i
  · subst hki
    exact hd k hnot
  · exact hd k fun m hm => hk m ((setNode_ne hki).trans hm)

theorem parked_step (hd : Parked d) {a : Action P D} (h : step schema d a = some d') :
    Parked d' := by
  cases a with
  | bootstrap i n =>
    simp only [step] at h
    split at h
    next hnone =>
      obtain ⟨s, -, rfl⟩ := Option.map_eq_some_iff.mp h
      exact parked_setNode hd (by simp [hnone]) s
    next => cases h
  | identity turn =>
    simp only [step] at h
    split at h
    next =>
      obtain ⟨s, -, rfl⟩ := Option.map_eq_some_iff.mp h
      exact hd
    next n hverifying =>
      obtain ⟨s, -, rfl⟩ := Option.map_eq_some_iff.mp h
      exact parked_setNode hd (by simp [hverifying]) s
    next => cases h
  | boot i =>
    simp only [step] at h
    split at h
    next n hverified =>
      obtain ⟨c, hstep, rfl⟩ := Option.map_eq_some_iff.mp h
      intro k hk
      by_cases hki : k = i
      · subst hki
        exact absurd (Function.update_self ..) (hk n)
      · have hprocs := Cluster.step_procs hstep (k := k) fun h => hki (Option.some.inj h).symm
        exact hprocs.trans (hd k fun m hm => hk m ((setNode_ne hki).trans hm))
    next => cases h
  | ingest i r =>
    simp only [step] at h
    split at h
    next n hingesting =>
      obtain ⟨e, he, h⟩ := Option.bind_eq_some_iff.mp h
      obtain ⟨c, hstep, rfl⟩ := Option.map_eq_some_iff.mp h
      intro k hk
      have hki : k ≠ i := by
        rintro rfl
        exact hk n hingesting
      refine (Cluster.step_procs hstep fun h => hki ?_).trans (hd k hk)
      exact Option.some.inj (h.symm.trans (NodeProcess.event_process he))
    next => cases h
  | crash i =>
    simp only [step] at h
    split at h
    next n stage hn =>
      obtain ⟨c, hstep, rfl⟩ := Option.map_eq_some_iff.mp h
      cases hstep
      intro k hk
      by_cases hki : k = i
      · subst hki
        exact Function.update_self ..
      · exact (Function.update_of_ne hki ..).trans
          (hd k fun m hm => hk m ((setNode_ne hki).trans hm))
    next => cases h

theorem parked_run {first : Metadata} {actions : List (Action P D)}
    (h : run (step schema) (start first) actions = some d) : Parked d :=
  run_invariant (P := Parked) (fun _ _ _ hd hstep => parked_step hd hstep) (fun _ _ => rfl) h

end Parked

theorem deployed_node_catches_up (schema : String) (first : Metadata) (actions : List (Action P D))
    (d : Deployment P D) (hrun : run (step schema) (start first) actions = some d) (i : Nat)
    (n : NodeProcess P D) (hverified : d.nodes i = some (n, .verified))
    (chain : ServedChain EvmBlock) (hc : Rendered n.env.primitives chain)
    (hhash : ∀ h, (chain.block h).header.hash ≠ "") {target : Nat}
    (htarget : (target : Int) ≤ bigintMax) (hchain : Cluster.OnChain chain d.cluster.journal)
    (hstart : n.context.range.start ≤
      Cluster.nextHeight (schedulerConfig n) d.cluster.journal) :
    (∀ more d', Guarded (step schema) (Serves i n chain target) d more →
      run (step schema) d more = some d' →
      ∃ a d'', Serves i n chain target d' a ∧ step schema d' a = some d'') ∧
    ∀ more d', Guarded (step schema) (Serves i n chain target) d more →
      run (step schema) d more = some d' →
      3 * (target + 1 - n.context.range.start) + 7 < more.length →
      ∀ h : Nat, n.context.range.start ≤ h → (∀ e ∈ n.context.range.stop, h ≤ e) → h ≤ target →
        (∀ row ∈ d'.cluster.journal.rows.head?, row.height.val ≤ h) →
        ∃ row ∈ d'.cluster.journal.rows, row.height.val = h ∧
          row = encode row.height (chain.block h).header := by
  obtain ⟨events, hd⟩ := sound_run hrun
  have htop : target ≤ maxValue 64 := by
    simp only [bigintMax, maxValue] at htarget ⊢
    omega
  have hmin : (min target (schedulerConfig n).last : Nat) ≤ bigintMax := by omega
  have hdown : d.cluster.procs i = .down := by
    refine parked_run hrun i fun m hm => ?_
    rw [hverified] at hm
    cases hm
  have hhealthy : Healthy i n chain d :=
    ⟨⟨hd.history.invariant.chained, hchain, hstart, by rw [hdown]; trivial⟩,
      node_of_nodes hverified⟩
  have hlive : Live i n chain d := ⟨hhealthy, .inl ⟨hverified, hdown⟩⟩
  refine ⟨fun more d' hg hmore => live_enabled hc htop ?_,
    fun more d' hg hmore hlong h hlow hstop htgt hfirst => ?_⟩
  · exact run_guarded_invariant (fun _ _ _ hs ha h => live_step hc hhash hmin hs ha h) hlive hg
      hmore
  · have hrank : Cluster.rank i target (schedulerConfig n) d.cluster ≤
        3 * (min target (schedulerConfig n).last + 1 - n.context.range.start) + 7 :=
      Cluster.rank_le hhealthy.1
    have hdone := guarded_reaches (serves_descends hc hhash hmin) (.inr hhealthy) hg hmore
      (Nat.lt_of_le_of_lt hrank (by omega))
    refine hdone.1.row hlow hfirst htgt ?_
    change h ≤ n.context.range.stop.getD (maxValue 64)
    cases hend : n.context.range.stop with
    | none => exact htgt.trans htop
    | some e => exact hstop e hend

def erc20Chain : ServedChain EvmBlock where
  block h := ⟨⟨h, EvmAdapter.word 'a', some (EvmAdapter.word 'a'),
    Project.hexPrimitives.fromTimestamp 0⟩,
    ⟨h, EvmAdapter.word 'a', EvmAdapter.word 'a', 0, [], []⟩⟩
  height := fun _ => rfl
  linked := fun _ hh => Header.isChildOf_iff.mpr ⟨rfl, hh, rfl⟩

theorem erc20_word : Decode.Normal Project.hexPrimitives.parseB256 Project.hexPrimitives.formatB256
    (EvmAdapter.word 'a') := by
  unfold Decode.Normal
  decide +kernel

theorem erc20_rendered : Rendered Project.hexPrimitives erc20Chain where
  header := fun _ _ => rfl
  wellFormed := fun h hmax => {
    number := hmax
    timestamp := Nat.zero_le _
    inRange := (by decide : ((trySigned 64 0).bind Project.hexPrimitives.fromTimestamp).isSome)
    hash := erc20_word
    parentHash := erc20_word
    numbered := ⟨fun _ _ ht => (by cases ht), List.nodup_nil, fun _ ht => (by cases ht)⟩
    transactions := fun t ht => by cases ht
    positions := fun j l hl => by cases hl
    logs := fun l hl => by cases hl }

theorem erc20_node_catches_up : ∃ (n : NodeProcess Unit Unit) (d : Deployment Unit Unit),
    run (step "app") (start .empty) (.bootstrap 0 n :: erc20Turns.map .identity) = some d ∧
      ∀ more d', Guarded (step "app") (Serves 0 n erc20Chain 2) d more →
        run (step "app") d more = some d' → more.length = 11 →
        (∀ row ∈ d'.cluster.journal.rows.head?, row.height.val ≤ 2) →
        ∃ row ∈ d'.cluster.journal.rows, row.height.val = 2 := by
  obtain ⟨hs, h⟩ := erc20_starts
  let n : NodeProcess Unit Unit := ⟨_, _, _, h⟩
  obtain ⟨d, hd, hnodes, hrows⟩ : ∃ d, run (step "app") (start .empty)
      (.bootstrap 0 n :: erc20Turns.map .identity) = some d ∧
        d.nodes 0 = some (n, .verified) ∧ d.cluster.journal.rows = [] := ⟨_, rfl, rfl, rfl⟩
  refine ⟨n, d, hd, fun more d' hg hmore hlong hfirst => ?_⟩
  obtain ⟨-, hreach⟩ := deployed_node_catches_up "app" .empty _ d hd 0 n hnodes erc20Chain
    erc20_rendered (fun _ => (by decide : EvmAdapter.word 'a' ≠ ""))
    (by decide : ((2 : Nat) : Int) ≤ bigintMax)
    (fun row hrow => by rw [hrows] at hrow; cases hrow)
    (by rw [Cluster.nextHeight_nil hrows]; exact le_rfl)
  have hbound : 3 * (2 + 1 - n.context.range.start) + 7 < more.length := by
    rw [hlong]
    exact (by decide : 3 * (2 + 1 - 2) + 7 < 11)
  obtain ⟨row, hrow, hheight, -⟩ := hreach more d' hg hmore hbound 2 le_rfl
    (fun e he => by cases he; exact le_rfl) le_rfl hfirst
  exact ⟨row, hrow, hheight⟩

end Deployment
end SuperqueryNode.Node

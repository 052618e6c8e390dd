import SuperqueryNode.Evm.Adapter

namespace SuperqueryNode.Evm.Decode
open Fallible

section Order

theorem logIndex_total : Std.Total fun a b : EvmLog => a.logIndex ≤ b.logIndex :=
  ⟨fun a b => Nat.le_total a.logIndex b.logIndex⟩

theorem logIndex_trans : IsTrans EvmLog fun a b => a.logIndex ≤ b.logIndex :=
  ⟨fun _ _ _ => Nat.le_trans⟩

theorem sortByLogIndex_ascending (logs : List EvmLog) :
    (sortByLogIndex logs).Pairwise fun a b => a.logIndex ≤ b.logIndex :=
  have := logIndex_total
  have := logIndex_trans
  List.pairwise_insertionSort _ logs

theorem indexed_positions {logs : List EvmLog} (h : indexed logs = true) :
    logs.map (·.logIndex) = List.range logs.length := by
  rw [indexed_iff] at h
  apply List.ext_getElem
  · simp
  · intro j hj _
    have hj' : j < logs.length := by simpa using hj
    simpa using h j logs[j] (List.getElem?_eq_getElem hj')

theorem eq_of_logIndex {logs : List EvmLog} (h : indexed logs = true) {a b : EvmLog}
    (ha : a ∈ logs) (hb : b ∈ logs) (hab : a.logIndex = b.logIndex) : a = b := by
  have hnodup : (logs.map (·.logIndex)).Nodup := indexed_positions h ▸ List.nodup_range
  exact List.inj_on_of_nodup_map hnodup ha hb hab

-- Only an order without ties fixes a sorted list; the indices of an accepted list have none.
theorem sortByLogIndex_eq_of_perm {xs ys : List EvmLog} (hp : ys.Perm xs)
    (h : indexed (sortByLogIndex xs) = true) : sortByLogIndex ys = sortByLogIndex xs := by
  have hsorts : (sortByLogIndex ys).Perm (sortByLogIndex xs) :=
    (sortByLogIndex_perm ys).trans (hp.trans (sortByLogIndex_perm xs).symm)
  apply List.Perm.eq_of_pairwise ?_ (sortByLogIndex_ascending ys) (sortByLogIndex_ascending xs) hsorts
  intro a b ha hb hab hba
  exact eq_of_logIndex h (hsorts.mem_iff.mp ha) hb (Nat.le_antisymm hab hba)

end Order

section Block
variable {p : Primitives} {value : Json} {expected : Nat} {b : EvmBlock}

theorem block_perm_ok {items others : List Json} (hp : items.Perm others)
    (h : block p value (.array items) expected = .ok b) :
    block p value (.array others) expected = .ok b := by
  obtain ⟨hd, hheader, h⟩ := bind_eq_ok.mp h
  obtain ⟨txItems, htxItems, h⟩ := bind_eq_ok.mp h
  obtain ⟨txs, htxs, h⟩ := bind_eq_ok.mp h
  obtain ⟨logItems, hitems, hrest⟩ := bind_eq_ok.mp h
  clear h
  cases okOr_eq_ok.mp hitems
  obtain ⟨decoded, hdecoded, h⟩ := bind_eq_ok.mp hrest
  obtain ⟨u, hindexed, h⟩ := bind_eq_ok.mp h
  obtain ⟨parentHash, hparent, h⟩ := bind_eq_ok.mp h
  obtain ⟨timestamp, htimestamp, h⟩ := bind_eq_ok.mp h
  obtain ⟨redecoded, hredecoded, hperm⟩ := mapM_perm hp hdecoded
  have hsorted := sortByLogIndex_eq_of_perm hperm (ensure_eq_ok.mp hindexed)
  refine bind_eq_ok.mpr ⟨hd, hheader, bind_eq_ok.mpr ⟨txItems, htxItems, bind_eq_ok.mpr
    ⟨txs, htxs, bind_eq_ok.mpr ⟨others, rfl, bind_eq_ok.mpr ⟨redecoded, hredecoded, ?_⟩⟩⟩⟩⟩
  simp only [hsorted]
  exact bind_eq_ok.mpr ⟨u, hindexed, bind_eq_ok.mpr ⟨parentHash, hparent, bind_eq_ok.mpr
    ⟨timestamp, htimestamp, h⟩⟩⟩

theorem block_log_indices {items : List Json}
    (h : block p value (.array items) expected = .ok b) :
    b.logs.map (·.logIndex) = List.range items.length := by
  have hacc := block_ok h
  obtain ⟨_, decoded, hitems, hall, hperm⟩ := hacc.oneForEachLog
  cases hitems
  rw [hall.length_eq, ← hperm.length_eq]
  exact indexed_positions (indexed_iff.mpr hacc.logPositions)

theorem block_ignores_log_order {items others : List Json} (hp : items.Perm others) :
    (∀ b, block p value (.array items) expected = .ok b ↔
      block p value (.array others) expected = .ok b) ∧
    ∀ b, block p value (.array items) expected = .ok b →
      b.logs.map (·.logIndex) = List.range items.length ∧
      ∃ decoded, List.Forall₂
        (fun item l => log p (b.header p) expected b.transactions item = .ok l) items decoded ∧
        b.logs.Perm decoded := by
  refine ⟨fun b => ⟨block_perm_ok hp, block_perm_ok hp.symm⟩, fun b hb => ⟨block_log_indices hb, ?_⟩⟩
  obtain ⟨_, decoded, hitems, hall, hperm⟩ := (block_ok hb).oneForEachLog
  cases hitems
  exact ⟨decoded, hall, hperm⟩

theorem fixture_logs_swap :
    block EvmAdapter.lowerHexPrimitives EvmAdapter.fixtureBlock
      (.array [EvmAdapter.fixtureLog "0x0", EvmAdapter.fixtureLog "0x1"]) 2 =
      .ok EvmAdapter.fixtureDecoded :=
  ((block_ignores_log_order (List.Perm.swap _ _ [])).1 _).mp EvmAdapter.fixture_decodes

end Block

end SuperqueryNode.Evm.Decode

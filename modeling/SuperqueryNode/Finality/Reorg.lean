import SuperqueryNode.Lib.FirstMatch
import SuperqueryNode.ChainApi.Types

namespace SuperqueryNode.Finality
open Unsigned FirstMatch ChainApi

structure HeightComparison where
  height : Nat
  storedHash : String
  canonicalHash : Option String
deriving DecidableEq, Repr

def HeightComparison.matches (c : HeightComparison) : Bool := c.canonicalHash == some c.storedHash

inductive ReorgDecision where
  | canonical
  | rewind (ancestor : BlockPtr) (depth : Nat)
  | beyondHistory (oldestKnown : Nat)
deriving DecidableEq, Repr

def findCommonAncestor : List HeightComparison → ReorgDecision
  | [] => .canonical
  | tip :: rest =>
    if tip.matches then .canonical
    else
      match (tip :: rest).zipIdx.find? fun q => q.1.matches with
      | some (c, index) => .rewind ⟨c.height, c.storedHash⟩ index
      | none => .beyondHistory (((tip :: rest).getLast?.map (·.height)).getD tip.height)

def continuesChain (lastIndexed : BlockPtr) (incoming : Header) : Bool :=
  incoming.height == wrappingAdd 64 lastIndexed.height 1 &&
    incoming.parentHash == some lastIndexed.hash

-- In a build with overflow checks the sum, evaluated first, panics past `u64::MAX`.
def continuesChainChecked (lastIndexed : BlockPtr) (incoming : Header) : Option Bool :=
  (checkedAdd 64 lastIndexed.height 1).map fun following =>
    incoming.height == following && incoming.parentHash == some lastIndexed.hash

theorem continuesChain_of_lt {lastIndexed : BlockPtr} (incoming : Header)
    (h : lastIndexed.height < maxValue 64) :
    continuesChainChecked lastIndexed incoming = some (continuesChain lastIndexed incoming) := by
  rw [continuesChainChecked, checkedAdd_eq_some.mpr ⟨h, rfl⟩, continuesChain,
    wrappingAdd_one_of_lt h]
  rfl

variable {pre post : List HeightComparison} {c : HeightComparison}

theorem findCommonAncestor_canonical (hc : c.matches = true) :
    findCommonAncestor (c :: post) = .canonical := if_pos hc

theorem findCommonAncestor_eq_canonical :
    findCommonAncestor (c :: post) = .canonical ↔ c.matches = true := by
  constructor
  · intro h
    by_contra hc
    rw [findCommonAncestor, if_neg hc] at h
    split at h
    · cases h
    · cases h
  · exact findCommonAncestor_canonical

theorem findCommonAncestor_rewind (hne : pre ≠ []) (hpre : ∀ d ∈ pre, d.matches = false)
    (hc : c.matches = true) :
    findCommonAncestor (pre ++ c :: post) = .rewind ⟨c.height, c.storedHash⟩ pre.length := by
  have hfind := find_zipIdx_split post hpre hc 0
  cases pre with
  | nil => exact absurd rfl hne
  | cons tip pre =>
    rw [List.cons_append] at hfind ⊢
    rw [findCommonAncestor, hpre tip List.mem_cons_self, if_neg Bool.false_ne_true, hfind,
      Nat.zero_add]

theorem findCommonAncestor_found (pre post : List HeightComparison)
    (hpre : ∀ d ∈ pre, d.matches = false) (hc : c.matches = true) :
    findCommonAncestor (pre ++ c :: post) = .canonical ∨
      findCommonAncestor (pre ++ c :: post) = .rewind ⟨c.height, c.storedHash⟩ pre.length := by
  by_cases hne : pre = []
  · subst hne
    exact .inl (findCommonAncestor_canonical hc)
  · exact .inr (findCommonAncestor_rewind hne hpre hc)

theorem findCommonAncestor_beyond (hpre : ∀ d ∈ pre ++ [c], d.matches = false) :
    findCommonAncestor (pre ++ [c]) = .beyondHistory c.height := by
  have hfind := find_zipIdx_none hpre 0
  have hlast : (pre ++ [c]).getLast? = some c := List.getLast?_concat
  cases hcs : pre ++ [c] with
  | nil => simp at hcs
  | cons tip rest =>
    rw [hcs] at hfind hlast hpre
    rw [findCommonAncestor, hpre tip List.mem_cons_self, if_neg Bool.false_ne_true, hfind, hlast]
    rfl

theorem findCommonAncestor_upTo (cs : List HeightComparison) :
    findCommonAncestor (upTo HeightComparison.matches cs) = findCommonAncestor cs := by
  rcases split_or_none HeightComparison.matches cs with hnone | ⟨pre, c, post, rfl, hpre, hc⟩
  · rw [upTo_none hnone]
  · rw [upTo_split hpre hc]
    by_cases hne : pre = []
    · subst hne
      exact (findCommonAncestor_canonical hc).trans (findCommonAncestor_canonical hc).symm
    · exact (findCommonAncestor_rewind hne hpre hc).trans
        (findCommonAncestor_rewind hne hpre hc).symm

end SuperqueryNode.Finality

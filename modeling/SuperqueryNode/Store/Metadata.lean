import Mathlib.Data.List.Nodup
import Mathlib.Logic.Function.Basic

namespace SuperqueryNode.Store

def schemaVersion : String := "1"

namespace Keys

def projectId : String := "project_id"
def schemaVersion : String := "schema_version"
def manifestHash : String := "manifest_hash"
def chainId : String := "chain_id"
def indexedHeight : String := "indexed_height"
def indexedBlockHash : String := "indexed_block_hash"
def finalizedHeight : String := "finalized_height"
def mappingAbiVersion : String := "mapping_abi_version"

end Keys

-- `_superquery_metadata`: one value for each key, or none.
abbrev Metadata := String → Option String

namespace Metadata

def empty : Metadata := fun _ => none

def set (m : Metadata) (key value : String) : Metadata := Function.update m key (some value)

@[simp] theorem set_same (m : Metadata) (key value : String) : m.set key value key = some value :=
  Function.update_self ..

@[simp] theorem set_other (m : Metadata) {key other : String} (value : String) (h : other ≠ key) :
    m.set key value other = m other :=
  Function.update_of_ne h ..

def setAll (m : Metadata) (facts : List (String × String)) : Metadata :=
  facts.foldl (fun t fact => t.set fact.1 fact.2) m

theorem setAll_other {m : Metadata} {facts : List (String × String)} {key : String}
    (h : key ∉ facts.map (·.1)) : m.setAll facts key = m key := by
  induction facts generalizing m with
  | nil => rfl
  | cons fact facts ih =>
    rw [List.map_cons, List.mem_cons, not_or] at h
    exact (ih h.2).trans (set_other m _ h.1)

theorem setAll_mem {m : Metadata} {facts : List (String × String)}
    (hnodup : (facts.map (·.1)).Nodup) {fact : String × String} (h : fact ∈ facts) :
    m.setAll facts fact.1 = some fact.2 := by
  induction facts generalizing m with
  | nil => cases h
  | cons first facts ih =>
    rw [List.map_cons, List.nodup_cons] at hnodup
    rcases List.mem_cons.mp h with rfl | h
    · exact (setAll_other hnodup.1).trans (set_same m _ _)
    · exact ih hnodup.2 h

end Metadata
end SuperqueryNode.Store

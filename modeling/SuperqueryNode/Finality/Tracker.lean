import SuperqueryNode.Finality.Reorg
import SuperqueryNode.Store.Checkpoint

namespace SuperqueryNode.Finality
open Unsigned Fallible FirstMatch ChainApi Store

def defaultReorgSearchDepth : Nat := 200

structure FinalityTracker where
  searchDepth : Nat
  positive : 1 ≤ searchDepth

abbrev HeaderAt := Nat → Except ChainError Header

def canonicalHash (answer : Except ChainError Header) : Except CoreError (Option String) :=
  match answer with
  | .ok h => .ok (some h.hash)
  | .error e => if !e.isRetryable then .ok none else .error (.chain e)

def walk (headerAt : HeaderAt) : List StoredHeader → Except CoreError (List HeightComparison)
  | [] => .ok []
  | header :: rest => do
    let canonical ← canonicalHash (headerAt header.height)
    let comparison : HeightComparison := ⟨header.height, header.hash, canonical⟩
    if comparison.matches then return [comparison]
    else return comparison :: (← walk headerAt rest)

def checkStored (headerAt : HeaderAt) (stored : List StoredHeader) :
    Except CoreError ReorgDecision := do
  let comparisons ← walk headerAt stored
  return findCommonAncestor comparisons

namespace FinalityTracker

def new : FinalityTracker := ⟨defaultReorgSearchDepth, by decide⟩

def withSearchDepth (t : FinalityTracker) (depth : Nat) : FinalityTracker :=
  { t with searchDepth := max depth 1, positive := Nat.le_max_right depth 1 }

def floor (t : FinalityTracker) (tip : BlockPtr) : Nat := tip.height - t.searchDepth

def check (t : FinalityTracker) (headerAt : HeaderAt) (s : Schema) (tip : BlockPtr) :
    Except CoreError ReorgDecision := do
  let stored ← (CheckpointStore.headersDescending s tip.height (t.floor tip)).mapError .store
  checkStored headerAt stored

theorem check_eq {t : FinalityTracker} {headerAt : HeaderAt} {s : Schema} {tip : BlockPtr}
    {stored : List StoredHeader}
    (h : CheckpointStore.headersDescending s tip.height (t.floor tip) = .ok stored) :
    t.check headerAt s tip = checkStored headerAt stored := by
  rw [check, h]
  rfl

end FinalityTracker

def comparisonOf (headerAt : HeaderAt) (header : StoredHeader) : HeightComparison :=
  ⟨header.height, header.hash, (headerAt header.height).toOption.map (·.hash)⟩

def stops (headerAt : HeaderAt) (header : StoredHeader) : Bool :=
  match headerAt header.height with
  | .ok h => h.hash == header.hash
  | .error e => e.isRetryable

def examined (headerAt : HeaderAt) (stored : List StoredHeader) : List StoredHeader :=
  upTo (stops headerAt) stored

section Walk
variable {headerAt : HeaderAt} {header : StoredHeader} {pre post : List StoredHeader}

theorem matches_comparisonOf : (comparisonOf headerAt header).matches = true ↔
    ∃ h, headerAt header.height = .ok h ∧ h.hash = header.hash := by
  unfold comparisonOf HeightComparison.matches
  cases headerAt header.height with
  | error e => simp [Except.toOption]
  | ok h => simp [Except.toOption]

theorem not_matches_of_not_stops (h : stops headerAt header = false) :
    (comparisonOf headerAt header).matches = false := by
  by_contra hm
  rw [Bool.not_eq_false, matches_comparisonOf] at hm
  obtain ⟨canonical, hok, heq⟩ := hm
  rw [stops, hok] at h
  simp [heq] at h

theorem canonicalHash_ok (h : ∀ e, headerAt header.height = .error e → e.isRetryable = false) :
    canonicalHash (headerAt header.height) = .ok (comparisonOf headerAt header).canonicalHash := by
  unfold comparisonOf canonicalHash
  cases ha : headerAt header.height with
  | ok canonical => rfl
  | error e =>
    simp only [h e ha]
    rfl

theorem walk_cons (h : ∀ e, headerAt header.height = .error e → e.isRetryable = false)
    (rest : List StoredHeader) :
    walk headerAt (header :: rest) =
      if (comparisonOf headerAt header).matches then .ok [comparisonOf headerAt header]
      else (walk headerAt rest).map (comparisonOf headerAt header :: ·) := by
  rw [walk, canonicalHash_ok h]
  change (if (comparisonOf headerAt header).matches then _ else _) = _
  split_ifs
  · rfl
  · cases walk headerAt rest <;> rfl

theorem walk_cons_pass (h : stops headerAt header = false) (rest : List StoredHeader) :
    walk headerAt (header :: rest) =
      (walk headerAt rest).map (comparisonOf headerAt header :: ·) := by
  have hanswer : ∀ e, headerAt header.height = .error e → e.isRetryable = false := by
    intro e he
    rwa [stops, he] at h
  rw [walk_cons hanswer, not_matches_of_not_stops h]
  rfl

theorem walk_append_pass (hpre : ∀ x ∈ pre, stops headerAt x = false) (rest : List StoredHeader) :
    walk headerAt (pre ++ rest) =
      (walk headerAt rest).map (pre.map (comparisonOf headerAt) ++ ·) := by
  induction pre with
  | nil =>
    rw [List.nil_append]
    cases walk headerAt rest <;> rfl
  | cons x pre ih =>
    rw [List.cons_append, walk_cons_pass (hpre x List.mem_cons_self),
      ih fun y hy => hpre y (List.mem_cons_of_mem _ hy)]
    cases walk headerAt rest <;> rfl

theorem walk_cons_match (h : (comparisonOf headerAt header).matches = true)
    (rest : List StoredHeader) :
    walk headerAt (header :: rest) = .ok [comparisonOf headerAt header] := by
  obtain ⟨canonical, hok, _⟩ := matches_comparisonOf.mp h
  have hanswer : ∀ e, headerAt header.height = .error e → e.isRetryable = false := by
    intro e he
    rw [hok] at he
    cases he
  rw [walk_cons hanswer, if_pos h]

theorem walk_cons_retry {e : ChainError} (h : headerAt header.height = .error e)
    (hr : e.isRetryable = true) (rest : List StoredHeader) :
    walk headerAt (header :: rest) = .error (.chain e) := by
  rw [walk, h]
  simp only [canonicalHash, hr]
  rfl

inductive Walked (headerAt : HeaderAt) (stored : List StoredHeader) : Prop where
  | clean (hall : ∀ x ∈ stored, stops headerAt x = false)
      (hwalk : walk headerAt stored = .ok (stored.map (comparisonOf headerAt)))
  | matched (pre : List StoredHeader) (header : StoredHeader) (post : List StoredHeader)
      (hstored : stored = pre ++ header :: post) (hpre : ∀ x ∈ pre, stops headerAt x = false)
      (hmatch : (comparisonOf headerAt header).matches = true)
      (hexamined : examined headerAt stored = pre ++ [header])
      (hwalk : walk headerAt stored = .ok ((pre ++ [header]).map (comparisonOf headerAt)))
  | retry (pre : List StoredHeader) (header : StoredHeader) (post : List StoredHeader)
      (e : ChainError) (hstored : stored = pre ++ header :: post)
      (hpre : ∀ x ∈ pre, stops headerAt x = false) (herror : headerAt header.height = .error e)
      (hretry : e.isRetryable = true) (hexamined : examined headerAt stored = pre ++ [header])
      (hwalk : walk headerAt stored = .error (.chain e))

theorem walked (headerAt : HeaderAt) (stored : List StoredHeader) : Walked headerAt stored := by
  rcases split_or_none (stops headerAt) stored with hall | ⟨pre, header, post, rfl, hpre, hstop⟩
  · refine .clean hall ?_
    have h := walk_append_pass hall []
    rw [List.append_nil] at h
    rw [h, walk]
    exact congrArg Except.ok (List.append_nil _)
  · have hexamined : examined headerAt (pre ++ header :: post) = pre ++ [header] :=
      upTo_split hpre hstop
    have hwalk := walk_append_pass hpre (header :: post)
    cases ha : headerAt header.height with
    | ok canonical =>
      have hmatch : (comparisonOf headerAt header).matches = true := by
        rw [stops, ha] at hstop
        exact matches_comparisonOf.mpr ⟨canonical, ha, beq_iff_eq.mp hstop⟩
      refine .matched pre header post rfl hpre hmatch hexamined ?_
      rw [hwalk, walk_cons_match hmatch, List.map_append]
      rfl
    | error e =>
      have hretry : e.isRetryable = true := by rwa [stops, ha] at hstop
      refine .retry pre header post e rfl hpre ha hretry hexamined ?_
      rw [hwalk, walk_cons_retry ha hretry]
      rfl

theorem walk_head {rest : List StoredHeader} {cs : List HeightComparison}
    (h : walk headerAt (header :: rest) = .ok cs) :
    ∃ tail, cs = comparisonOf headerAt header :: tail := by
  have hanswer : ∀ e, headerAt header.height = .error e → e.isRetryable = false := by
    intro e he
    by_contra hretry
    rw [walk_cons_retry he (Bool.not_eq_false _ ▸ hretry)] at h
    cases h
  rw [walk_cons hanswer] at h
  split_ifs at h
  · cases h
    exact ⟨[], rfl⟩
  · cases hrest : walk headerAt rest with
    | error e =>
      rw [hrest] at h
      cases h
    | ok tail =>
      rw [hrest] at h
      cases h
      exact ⟨tail, rfl⟩

theorem checkStored_canonical_iff {rest : List StoredHeader} :
    checkStored headerAt (header :: rest) = .ok .canonical ↔
      (comparisonOf headerAt header).matches = true := by
  constructor
  · intro h
    obtain ⟨cs, hwalk, hdecision⟩ := bind_eq_ok.mp h
    obtain ⟨tail, rfl⟩ := walk_head hwalk
    exact findCommonAncestor_eq_canonical.mp (pure_eq_ok.mp hdecision)
  · intro h
    rw [checkStored, walk_cons_match h]
    exact congrArg Except.ok (findCommonAncestor_canonical h)

theorem checkStored_full {stored : List StoredHeader}
    (h : ∀ x ∈ stored, ∀ e, headerAt x.height = .error e → e.isRetryable = false) :
    checkStored headerAt stored =
      .ok (findCommonAncestor (stored.map (comparisonOf headerAt))) := by
  cases walked headerAt stored with
  | clean hall hwalk =>
    rw [checkStored, hwalk]
    rfl
  | matched pre header post hstored hpre hmatch hexamined hwalk =>
    have hpass : ∀ c ∈ pre.map (comparisonOf headerAt), c.matches = false := by
      simpa using fun x hx => not_matches_of_not_stops (hpre x hx)
    have hfull : findCommonAncestor (stored.map (comparisonOf headerAt)) =
        findCommonAncestor ((pre ++ [header]).map (comparisonOf headerAt)) := by
      rw [hstored, ← findCommonAncestor_upTo, List.map_append, List.map_cons,
        upTo_split hpass hmatch, List.map_append]
      rfl
    rw [checkStored, hwalk, hfull]
    rfl
  | retry pre header post e hstored hpre herror hretry hexamined hwalk =>
    have hmem : header ∈ stored := by simp [hstored]
    rw [h header hmem e herror] at hretry
    cases hretry

end Walk
end SuperqueryNode.Finality

import SuperqueryNode.Finality.Tracker

namespace SuperqueryNode.Finality
open Unsigned Fallible FirstMatch ChainApi Store

def Diverged (headerAt : HeaderAt) (header : StoredHeader) : Prop :=
  (∃ h, headerAt header.height = .ok h ∧ h.hash ≠ header.hash) ∨
    ∃ height, headerAt header.height = .error (.blockUnavailable height)

structure ForkEvidence (headerAt : HeaderAt) (stored : List StoredHeader)
    (result : Except CoreError ReorgDecision) : Prop where
  rewind : ∀ ancestor depth, result = .ok (.rewind ancestor depth) →
    ∀ x ∈ examined headerAt stored, ancestor.height < x.height → Diverged headerAt x
  beyondHistory : ∀ oldestKnown, result = .ok (.beyondHistory oldestKnown) →
    ∀ x ∈ examined headerAt stored, Diverged headerAt x
  propagated : ∀ x ∈ examined headerAt stored, ∀ e, headerAt x.height = .error e →
    (∀ height, e ≠ .blockUnavailable height) → result = .error (.chain e)

def AnswersClassified (headerAt : HeaderAt) (stored : List StoredHeader) : Prop :=
  ∀ x ∈ examined headerAt stored, ∀ e, headerAt x.height = .error e →
    e.isRetryable = true ∨ ∃ height, e = .blockUnavailable height

section Evidence
variable {headerAt : HeaderAt} {stored pre post : List StoredHeader} {header : StoredHeader}

theorem unavailable_of_pass {x : StoredHeader} {e : ChainError} (hpass : stops headerAt x = false)
    (he : headerAt x.height = .error e)
    (hclass : e.isRetryable = true ∨ ∃ height, e = .blockUnavailable height) :
    ∃ height, e = .blockUnavailable height := by
  rw [stops, he] at hpass
  rcases hclass with hretry | hunavailable
  · simp only [hretry] at hpass
    cases hpass
  · exact hunavailable

theorem diverged_of_pass {x : StoredHeader} (hpass : stops headerAt x = false)
    (hclass : ∀ e, headerAt x.height = .error e →
      e.isRetryable = true ∨ ∃ height, e = .blockUnavailable height) : Diverged headerAt x := by
  cases ha : headerAt x.height with
  | ok h =>
    rw [stops, ha] at hpass
    exact .inl ⟨h, ha, by simpa using hpass⟩
  | error e =>
    obtain ⟨height, rfl⟩ := unavailable_of_pass hpass ha (hclass e ha)
    exact .inr ⟨height, ha⟩

theorem forkEvidence_clean (hall : ∀ x ∈ stored, stops headerAt x = false)
    (hclass : AnswersClassified headerAt stored) (result : Except CoreError ReorgDecision) :
    ForkEvidence headerAt stored result := by
  have hex : examined headerAt stored = stored := upTo_none hall
  have hdiv : ∀ x ∈ examined headerAt stored, Diverged headerAt x := fun x hx =>
    diverged_of_pass (hall x (hex ▸ hx)) (hclass x hx)
  refine ⟨fun _ _ _ x hx _ => hdiv x hx, fun _ _ => hdiv, fun x hx e he hne => ?_⟩
  obtain ⟨height, rfl⟩ := unavailable_of_pass (hall x (hex ▸ hx)) he (hclass x hx e he)
  exact absurd rfl (hne height)

theorem forkEvidence_matched (hpre : ∀ x ∈ pre, stops headerAt x = false)
    (hmatch : (comparisonOf headerAt header).matches = true)
    (hexamined : examined headerAt stored = pre ++ [header])
    (hclass : AnswersClassified headerAt stored) :
    ForkEvidence headerAt stored
      (.ok (findCommonAncestor ((pre ++ [header]).map (comparisonOf headerAt)))) := by
  have hdiv : ∀ x ∈ pre, Diverged headerAt x := fun x hx =>
    diverged_of_pass (hpre x hx) (hclass x (hexamined ▸ List.mem_append_left _ hx))
  have hdecision := findCommonAncestor_found (pre.map (comparisonOf headerAt)) []
    (by simpa using fun x hx => not_matches_of_not_stops (hpre x hx)) hmatch
  rw [List.map_append, List.map_singleton]
  refine ⟨fun ancestor depth hrewind x hx hlt => ?_, fun oldest hbeyond => ?_, ?_⟩
  · rw [hexamined, List.mem_append, List.mem_singleton] at hx
    rcases hx with hx | rfl
    · exact hdiv x hx
    · rcases hdecision with hcanonical | hfound
      · rw [hcanonical] at hrewind
        cases hrewind
      · rw [hfound] at hrewind
        cases hrewind
        exact absurd hlt (Nat.lt_irrefl _)
  · rcases hdecision with hcanonical | hfound
    · rw [hcanonical] at hbeyond
      cases hbeyond
    · rw [hfound] at hbeyond
      cases hbeyond
  · intro x hx e he hne
    have hclassified := hclass x hx e he
    rw [hexamined, List.mem_append, List.mem_singleton] at hx
    rcases hx with hx | rfl
    · obtain ⟨height, rfl⟩ := unavailable_of_pass (hpre x hx) he hclassified
      exact absurd rfl (hne height)
    · obtain ⟨canonical, hok, _⟩ := matches_comparisonOf.mp hmatch
      rw [hok] at he
      cases he

theorem forkEvidence_retry {e : ChainError} (hpre : ∀ x ∈ pre, stops headerAt x = false)
    (herror : headerAt header.height = .error e)
    (hexamined : examined headerAt stored = pre ++ [header])
    (hclass : AnswersClassified headerAt stored) :
    ForkEvidence headerAt stored (.error (.chain e)) := by
  refine ⟨fun _ _ h => (by cases h), fun _ h => (by cases h), fun x hx e' he hne => ?_⟩
  have hclassified := hclass x hx e' he
  rw [hexamined, List.mem_append, List.mem_singleton] at hx
  rcases hx with hx | rfl
  · obtain ⟨height, rfl⟩ := unavailable_of_pass (hpre x hx) he hclassified
    exact absurd rfl (hne height)
  · rw [herror] at he
    cases he
    rfl

theorem forkEvidence_of_classified (hclass : AnswersClassified headerAt stored) :
    ForkEvidence headerAt stored (checkStored headerAt stored) := by
  cases walked headerAt stored with
  | clean hall hwalk => exact forkEvidence_clean hall hclass _
  | matched pre header post hstored hpre hmatch hexamined hwalk =>
    rw [checkStored, hwalk]
    exact forkEvidence_matched hpre hmatch hexamined hclass
  | retry pre header post e hstored hpre herror hretry hexamined hwalk =>
    rw [checkStored, hwalk]
    exact forkEvidence_retry hpre herror hexamined hclass

theorem classified_of_forkEvidence
    (hev : ForkEvidence headerAt stored (checkStored headerAt stored)) :
    AnswersClassified headerAt stored := by
  intro x hx e he
  by_contra hnot
  rw [not_or, Bool.not_eq_true] at hnot
  obtain ⟨hfatal, hother⟩ := hnot
  have herr := hev.propagated x hx e he fun height h => hother ⟨height, h⟩
  cases walked headerAt stored with
  | clean hall hwalk =>
    rw [checkStored, hwalk] at herr
    cases herr
  | matched pre header post hstored hpre hmatch hexamined hwalk =>
    rw [checkStored, hwalk] at herr
    cases herr
  | retry pre header post e' hstored hpre herror hretry hexamined hwalk =>
    rw [checkStored, hwalk] at herr
    cases herr
    rw [hretry] at hfatal
    cases hfatal

end Evidence

theorem check_reports_forks_on_evidence_iff (headerAt : HeaderAt) (tracker : FinalityTracker)
    (s : Schema) (tip : BlockPtr) (stored : List StoredHeader)
    (hstored : CheckpointStore.headersDescending s tip.height (tracker.floor tip) = .ok stored) :
    ForkEvidence headerAt stored (tracker.check headerAt s tip) ↔
      AnswersClassified headerAt stored := by
  rw [FinalityTracker.check_eq hstored]
  exact ⟨classified_of_forkEvidence, forkEvidence_of_classified⟩

def finalBlockAndTip : Schema where
  blocks := (BlocksTable.empty.upsert ⟨9, by decide, by decide⟩ ⟨"0x9", none, "final"⟩).upsert
    ⟨10, by decide, by decide⟩ ⟨"0xa", some "0x9", "unfinalized"⟩
  metadata := Metadata.empty

theorem wrong_chain_answer_rewinds_canonical_tip :
    let tip : BlockPtr := ⟨10, "0xa"⟩
    let headerAt : HeaderAt := fun height =>
      if height = 10 then .error (.chainIdMismatch "1" "137") else .ok ⟨height, "0x9", none, none⟩
    let result := FinalityTracker.new.check headerAt finalBlockAndTip tip
    result = .ok (.rewind ⟨9, "0x9"⟩ 1) ∧
    ∃ stored, CheckpointStore.headersDescending finalBlockAndTip tip.height
        (FinalityTracker.new.floor tip) = .ok stored ∧
      ¬ForkEvidence headerAt stored result := by
  intro tip headerAt result
  have hresult : result = .ok (.rewind ⟨9, "0x9"⟩ 1) := by decide
  let top : StoredHeader := ⟨10, "0xa", some "0x9", .unfinalized⟩
  let parent : StoredHeader := ⟨9, "0x9", none, .final⟩
  refine ⟨hresult, [top, parent], by decide, fun hev => ?_⟩
  have htop : top ∈ examined headerAt [top, parent] := by decide
  have herr := hev.propagated top htop (.chainIdMismatch "1" "137") rfl fun _ h => (by cases h)
  rw [hresult] at herr
  cases herr

theorem absent_tip_rewinds_on_evidence :
    let tip : BlockPtr := ⟨10, "0xa"⟩
    let headerAt : HeaderAt := fun height =>
      if height = 10 then .error (.blockUnavailable 10) else .ok ⟨height, "0x9", none, none⟩
    let stored : List StoredHeader :=
      [⟨10, "0xa", some "0x9", .unfinalized⟩, ⟨9, "0x9", none, .final⟩]
    ForkEvidence headerAt stored (FinalityTracker.new.check headerAt finalBlockAndTip tip) ↔
      AnswersClassified headerAt stored := by
  intro tip headerAt stored
  exact check_reports_forks_on_evidence_iff headerAt FinalityTracker.new finalBlockAndTip tip
    stored (by decide)

end SuperqueryNode.Finality

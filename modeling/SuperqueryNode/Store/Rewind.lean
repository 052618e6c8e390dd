import SuperqueryNode.Lib.Sql

namespace SuperqueryNode.Store
open Sql

def blockRangeColumn : String := "_block_range"

def deleteVersionsAboveSql (schema table : String) (height : Nat) : String :=
  "DELETE FROM \"" ++ schema ++ "\".\"" ++ table ++ "\" " ++
    "WHERE " ++ "lower(\"" ++ blockRangeColumn ++ "\")" ++ " > " ++ height.repr

def reopenVersionsSql (schema table : String) (height : Nat) : String :=
  "UPDATE \"" ++ schema ++ "\".\"" ++ table ++ "\" " ++
    "SET \"" ++ blockRangeColumn ++ "\" = int8range(" ++
      "lower(\"" ++ blockRangeColumn ++ "\")" ++ ", NULL) " ++
    "WHERE " ++ "upper(\"" ++ blockRangeColumn ++ "\")" ++ " > " ++ height.repr ++
      " AND " ++ "lower(\"" ++ blockRangeColumn ++ "\")" ++ " <= " ++ height.repr

-- The ranges an entity version can hold: `[lower, upper)`, `[lower, )` and the empty range.
inductive Int8range where
  | empty
  | closed (lower upper : Int) (ordered : lower < upper)
  | unbounded (lower : Int)
deriving DecidableEq, Repr

namespace Int8range

def lower : Int8range → Option Int
  | empty => none
  | closed lower _ _ => some lower
  | unbounded lower => some lower

def upper : Int8range → Option Int
  | empty => none
  | closed _ upper _ => some upper
  | unbounded _ => none

def isOpen : Int8range → Bool
  | unbounded _ => true
  | _ => false

def contains (height : Int) : Int8range → Bool
  | empty => false
  | closed lower upper _ => decide (lower ≤ height ∧ height < upper)
  | unbounded lower => decide (lower ≤ height)

-- `int8range(lower(r), NULL)`; the statement never applies it to a range without a lower bound.
def reopened (r : Int8range) : Int8range :=
  match r.lower with
  | some lower => unbounded lower
  | none => r

end Int8range

inductive Bound where
  | lower
  | upper
deriving DecidableEq, Repr

def Bound.text : Bound → String
  | lower => "lower(\"" ++ blockRangeColumn ++ "\")"
  | upper => "upper(\"" ++ blockRangeColumn ++ "\")"

structure Version (I D : Type) where
  id : I
  data : D
  range : Int8range
deriving DecidableEq, Repr

namespace Version
variable {I D : Type}

def bound (v : Version I D) : Bound → Option Int
  | .lower => v.range.lower
  | .upper => v.range.upper

def reopened (v : Version I D) : Version I D := { v with range := v.range.reopened }

def visibleAt (height : Int) (v : Version I D) : Bool := v.range.contains height

end Version

def deleteCondition (height : Nat) : Predicate Bound := .compare .lower .gt height

def reopenCondition (height : Nat) : Predicate Bound :=
  .and (.compare .upper .gt height) (.compare .lower .le height)

theorem deleteCondition_text (height : Nat) : (deleteCondition height).render Bound.text =
    "lower(\"" ++ blockRangeColumn ++ "\")" ++ " > " ++ height.repr := rfl

theorem reopenCondition_text (height : Nat) : (reopenCondition height).render Bound.text =
    "upper(\"" ++ blockRangeColumn ++ "\")" ++ " > " ++ height.repr ++
      " AND " ++ ("lower(\"" ++ blockRangeColumn ++ "\")" ++ " <= " ++ height.repr) := rfl

theorem deleteVersionsAboveSql_condition (schema table : String) (height : Nat) :
    deleteVersionsAboveSql schema table height =
      "DELETE FROM \"" ++ schema ++ "\".\"" ++ table ++ "\" " ++
        "WHERE " ++ (deleteCondition height).render Bound.text := by
  unfold deleteVersionsAboveSql
  rw [deleteCondition_text]
  simp only [String.append_assoc, -String.reduceAppend]

theorem reopenVersionsSql_condition (schema table : String) (height : Nat) :
    reopenVersionsSql schema table height =
      "UPDATE \"" ++ schema ++ "\".\"" ++ table ++ "\" " ++
        "SET \"" ++ blockRangeColumn ++ "\" = int8range(" ++
          ("lower(\"" ++ blockRangeColumn ++ "\")") ++ ", NULL) " ++
        "WHERE " ++ (reopenCondition height).render Bound.text := by
  unfold reopenVersionsSql
  rw [reopenCondition_text]
  simp only [String.append_assoc, -String.reduceAppend]

section Rewind
variable {I D : Type}

def deleteVersionsAbove (height : Nat) (t : Multiset (Version I D)) : Multiset (Version I D) :=
  deleteWhere ((deleteCondition height).selects Version.bound) t

def reopenVersions (height : Nat) (t : Multiset (Version I D)) : Multiset (Version I D) :=
  updateWhere ((reopenCondition height).selects Version.bound) Version.reopened t

def rewind (height : Nat) (t : Multiset (Version I D)) : Multiset (Version I D) :=
  reopenVersions height (deleteVersionsAbove height t)

def visible (t : Multiset (Version I D)) (height : Int) : Multiset (I × D) :=
  (t.filter (·.visibleAt height = true)).map fun v => (v.id, v.data)

def openVersions (t : Multiset (Version I D)) : Multiset (Version I D) :=
  t.filter (·.range.isOpen = true)

variable {height : Nat} {v : Version I D}

theorem deletes_iff : (deleteCondition height).selects Version.bound v = true ↔
    ∃ l, v.range.lower = some l ∧ (height : Int) < l := by
  rw [deleteCondition, Predicate.selects_compare]
  simp only [Operator.compares, decide_eq_true_eq]
  rfl

theorem reopens_iff : (reopenCondition height).selects Version.bound v = true ↔
    ∃ l u, v.range.lower = some l ∧ v.range.upper = some u ∧ l ≤ height ∧ (height : Int) < u := by
  rw [reopenCondition, Predicate.selects_and, Predicate.selects_compare, Predicate.selects_compare]
  simp only [Operator.compares, decide_eq_true_eq]
  constructor
  · rintro ⟨⟨u, hu, hlt⟩, l, hl, hle⟩
    exact ⟨l, u, hl, hu, hle, hlt⟩
  · rintro ⟨l, u, hl, hu, hle, hlt⟩
    exact ⟨⟨u, hu, hlt⟩, l, hl, hle⟩

def afterReopen (height : Nat) (v : Version I D) : Version I D :=
  if (reopenCondition height).selects Version.bound v then v.reopened else v

inductive Rewound (height : Nat) (v : Version I D) : Prop
  | empty (hr : v.range = .empty)
      (keeps : (deleteCondition height).selects Version.bound v = false)
      (after : afterReopen height v = v)
  | later (l : Int) (hl : v.range.lower = some l) (hlt : (height : Int) < l)
      (deletes : (deleteCondition height).selects Version.bound v = true)
      (after : afterReopen height v = v)
  | past (l u : Int) (h : l < u) (hr : v.range = .closed l u h) (hu : u ≤ height)
      (keeps : (deleteCondition height).selects Version.bound v = false)
      (after : afterReopen height v = v)
  | current (l : Int) (hl : v.range.lower = some l) (hle : l ≤ height)
      (hu : ∀ u, v.range.upper = some u → (height : Int) < u)
      (keeps : (deleteCondition height).selects Version.bound v = false)
      (after : afterReopen height v = v.reopened)

theorem keeps_iff : (deleteCondition height).selects Version.bound v = false ↔
    ∀ l, v.range.lower = some l → l ≤ height := by
  rw [← Bool.not_eq_true, deletes_iff]
  simp only [not_exists, not_and, not_lt]

theorem afterReopen_same (h : ∀ l u, v.range.lower = some l → v.range.upper = some u →
    l ≤ height → u ≤ height) : afterReopen height v = v := by
  rw [afterReopen, if_neg]
  rw [reopens_iff]
  rintro ⟨l, u, hl, hu, hle, hlt⟩
  have := h l u hl hu hle
  omega

theorem rewound (height : Nat) (v : Version I D) : Rewound height v := by
  obtain ⟨id, data, range⟩ := v
  cases range with
  | empty =>
    exact .empty rfl (keeps_iff.mpr fun l hl => (by cases hl))
      (afterReopen_same fun l u hl => (by cases hl))
  | closed l u h =>
    by_cases hlt : (height : Int) < l
    · refine .later l rfl hlt (deletes_iff.mpr ⟨l, rfl, hlt⟩) (afterReopen_same fun l' u' hl' _ => ?_)
      cases hl'
      omega
    · have hkeeps : (deleteCondition height).selects Version.bound
          (⟨id, data, .closed l u h⟩ : Version I D) = false := by
        refine keeps_iff.mpr fun l' hl' => ?_
        cases hl'
        omega
      by_cases hu : u ≤ height
      · refine .past l u h rfl hu hkeeps (afterReopen_same fun l' u' _ hu' _ => ?_)
        cases hu'
        exact hu
      · refine .current l rfl (by omega) (fun u' hu' => ?_) hkeeps (if_pos ?_)
        · cases hu'
          omega
        · exact reopens_iff.mpr ⟨l, u, rfl, rfl, by omega, by omega⟩
  | unbounded l =>
    by_cases hlt : (height : Int) < l
    · exact .later l rfl hlt (deletes_iff.mpr ⟨l, rfl, hlt⟩)
        (afterReopen_same fun _ u' _ hu' => (by cases hu'))
    · refine .current l rfl (by omega) (fun u' hu' => (by cases hu')) (keeps_iff.mpr fun l' hl' => ?_)
        (afterReopen_same fun _ u' _ hu' => (by cases hu'))
      cases hl'
      omega

theorem contains_iff {range : Int8range} {h : Int} : range.contains h = true ↔
    ∃ l, range.lower = some l ∧ l ≤ h ∧ ∀ u, range.upper = some u → h < u := by
  cases range <;> simp [Int8range.contains, Int8range.lower, Int8range.upper]

theorem reopened_range {l : Int} (hl : v.range.lower = some l) :
    v.reopened.range = .unbounded l := by
  simp only [Version.reopened, Int8range.reopened, hl]

theorem contains_empty {h : Int} (hr : v.range = .empty) : v.visibleAt h = false := by
  rw [Version.visibleAt, hr]
  rfl

theorem visibleAt_after (v : Version I D) (h : Int) :
    ((deleteCondition height).selects Version.bound v = false ∧
      (afterReopen height v).visibleAt h = true) ↔ v.visibleAt (min h height) = true := by
  cases rewound height v with
  | empty hr keeps after =>
    rw [after, contains_empty hr, contains_empty hr]
    simp
  | later l hl hlt deletes after =>
    rw [deletes, Version.visibleAt, Version.visibleAt, contains_iff, contains_iff]
    refine iff_of_false (fun h => (by cases h.1)) ?_
    rintro ⟨l', hl', hle, _⟩
    rw [hl] at hl'
    cases hl'
    omega
  | past l u hlu hr hu keeps after =>
    rw [after, keeps, Version.visibleAt, Version.visibleAt, hr]
    simp only [Int8range.contains, decide_eq_true_eq, true_and]
    omega
  | current l hl hle hu keeps after =>
    have hbefore : v.visibleAt (min h height) = true ↔ l ≤ min h height ∧
        ∀ u, v.range.upper = some u → min h (height : Int) < u := by
      simp [Version.visibleAt, contains_iff, hl]
    rw [after, keeps, hbefore, Version.visibleAt, reopened_range hl]
    simp only [Int8range.contains, decide_eq_true_eq, true_and]
    constructor
    · intro hle'
      refine ⟨by omega, fun u hu' => ?_⟩
      have := hu u hu'
      omega
    · rintro ⟨hle', _⟩
      omega

theorem isOpen_after (v : Version I D) :
    ((deleteCondition height).selects Version.bound v = false ∧
      (afterReopen height v).range.isOpen = true) ↔ v.visibleAt height = true := by
  rw [← min_self (height : Int), ← visibleAt_after v (height : Int)]
  refine and_congr_right fun keeps => ?_
  cases rewound height v with
  | empty hr _ after =>
    rw [after, contains_empty hr, hr]
    rfl
  | later _ _ _ deletes _ =>
    rw [deletes] at keeps
    cases keeps
  | past l u hlu hr hu _ after =>
    rw [after, Version.visibleAt, hr]
    simp only [Int8range.isOpen, Int8range.contains, decide_eq_true_eq]
    refine iff_of_false Bool.false_ne_true (by omega)
  | current l hl hle hu _ after =>
    rw [after, Version.visibleAt, reopened_range hl]
    simpa [Int8range.isOpen, Int8range.contains] using hle

theorem after_of_visible (h : v.visibleAt height = true) : afterReopen height v = v.reopened := by
  cases rewound height v with
  | empty hr _ _ =>
    rw [contains_empty hr] at h
    cases h
  | later l hl hlt _ _ =>
    obtain ⟨l', hl', hle, _⟩ := contains_iff.mp h
    rw [hl] at hl'
    cases hl'
    omega
  | past l u hlu hr hu _ _ =>
    rw [Version.visibleAt, hr] at h
    simp only [Int8range.contains, decide_eq_true_eq] at h
    omega
  | current _ _ _ _ _ after => exact after

theorem keeps_after (height later : Nat) (v : Version I D) :
    (deleteCondition height).selects Version.bound (afterReopen later v) =
      (deleteCondition height).selects Version.bound v := by
  cases rewound later v with
  | empty _ _ after => rw [after]
  | later _ _ _ _ after => rw [after]
  | past _ _ _ _ _ _ after => rw [after]
  | current l hl _ _ _ after =>
    rw [after, Bool.eq_iff_iff, deletes_iff, deletes_iff, reopened_range hl, hl]
    rfl

theorem after_after {earlier later : Nat} (hle : earlier ≤ later)
    (hkeeps : (deleteCondition earlier).selects Version.bound v = false) :
    afterReopen earlier (afterReopen later v) = afterReopen earlier v := by
  cases rewound later v with
  | empty _ _ after => rw [after]
  | later _ _ _ _ after => rw [after]
  | past _ _ _ _ _ _ after => rw [after]
  | current l hl _ hu _ after =>
    have hearlier : v.visibleAt (earlier : Int) = true := by
      refine contains_iff.mpr ⟨l, hl, keeps_iff.mp hkeeps l hl, fun u hu' => ?_⟩
      have := hu u hu'
      omega
    have hsame : v.reopened.reopened = v.reopened := by
      simp only [Version.reopened, Int8range.reopened, hl]
      rfl
    have hopen : afterReopen earlier v.reopened = v.reopened := by
      rw [afterReopen_same]
      intro _ u _ hu'
      rw [reopened_range hl] at hu'
      cases hu'
    rw [after, hopen, after_of_visible hearlier]

section Table
variable (height : Nat) (t : Multiset (Version I D))

theorem statements_commute : reopenVersions height (deleteVersionsAbove height t) =
    deleteVersionsAbove height (reopenVersions height t) :=
  (delete_update_comm (keeps_after height height) t).symm

theorem visible_rewind (h : Int) : visible (rewind height t) h = visible t (min h height) :=
  query_delete_update (fun v => visibleAt_after v h) (fun v _ => by
    change ((afterReopen height v).id, (afterReopen height v).data) = (v.id, v.data)
    rw [afterReopen]
    split_ifs <;> rfl) t

theorem openVersions_rewind : openVersions (rewind height t) =
    (t.filter (·.visibleAt height = true)).map Version.reopened := by
  have hquery : ((rewind height t).filter (·.range.isOpen = true)).map id =
      (t.filter (·.visibleAt height = true)).map Version.reopened := by
    apply query_delete_update
    · exact isOpen_after
    · exact fun v hv => after_of_visible hv
  rwa [Multiset.map_id] at hquery

theorem rewind_rewind {earlier : Nat} (hle : earlier ≤ height) :
    rewind earlier (rewind height t) = rewind earlier t := by
  have hdelete : deleteVersionsAbove earlier (rewind height t) =
      reopenVersions height (deleteVersionsAbove earlier t) := by
    rw [rewind, deleteVersionsAbove, reopenVersions, delete_update_comm (keeps_after earlier height),
      ← deleteVersionsAbove, ← reopenVersions, deleteVersionsAbove, deleteVersionsAbove,
      delete_delete, ← deleteVersionsAbove]
    intro v hv
    obtain ⟨l, hl, hlt⟩ := deletes_iff.mp hv
    exact deletes_iff.mpr ⟨l, hl, by omega⟩
  rw [rewind, hdelete, rewind]
  exact update_update fun v hv => after_after hle (mem_deleteWhere.mp hv).2

variable [DecidableEq I]

def versionsOf (id : I) (seen : Multiset (I × D)) : Nat := seen.countP (·.1 = id)

theorem countP_open (id : I) : (openVersions (rewind height t)).countP (·.id = id) =
    versionsOf id (visible t height) := by
  rw [openVersions_rewind, versionsOf, visible, Multiset.countP_map, Multiset.countP_map]
  rfl

theorem rewind_restores_history (schema table : String) :
    deleteVersionsAboveSql schema table height =
      "DELETE FROM \"" ++ schema ++ "\".\"" ++ table ++ "\" " ++
        "WHERE " ++ (deleteCondition height).render Bound.text ∧
    reopenVersionsSql schema table height =
      "UPDATE \"" ++ schema ++ "\".\"" ++ table ++ "\" " ++
        "SET \"" ++ blockRangeColumn ++ "\" = int8range(" ++
          ("lower(\"" ++ blockRangeColumn ++ "\")") ++ ", NULL) " ++
        "WHERE " ++ (reopenCondition height).render Bound.text ∧
    reopenVersions height (deleteVersionsAbove height t) =
      deleteVersionsAbove height (reopenVersions height t) ∧
    (∀ h : Int, h ≤ height → visible (rewind height t) h = visible t h) ∧
    openVersions (rewind height t) =
      (t.filter (·.visibleAt height = true)).map Version.reopened ∧
    rewind height (rewind height t) = rewind height t ∧
    (∀ earlier, earlier ≤ height → rewind earlier (rewind height t) = rewind earlier t) ∧
    ((∀ h id, versionsOf id (visible t h) ≤ 1) →
      (∀ h id, versionsOf id (visible (rewind height t) h) ≤ 1) ∧
      ∀ id data, (id, data) ∈ visible t height →
        (openVersions (rewind height t)).countP (·.id = id) = 1) := by
  refine ⟨deleteVersionsAboveSql_condition schema table height,
    reopenVersionsSql_condition schema table height, statements_commute height t,
    fun h hle => by rw [visible_rewind, min_eq_left hle], openVersions_rewind height t,
    rewind_rewind height t le_rfl, fun earlier hle => rewind_rewind height t hle,
    fun hunique => ⟨fun h id => by rw [visible_rewind]; exact hunique _ id, fun id data hmem => ?_⟩⟩
  have hpos : 0 < versionsOf id (visible t height) :=
    Multiset.countP_pos.mpr ⟨(id, data), hmem, rfl⟩
  have := hunique height id
  rw [countP_open]
  omega

def rewritten : Multiset (Version Nat Nat) :=
  {⟨1, 10, .closed 1 5 (by decide)⟩, ⟨1, 20, .unbounded 5⟩}

theorem rewritten_unique (h : Int) (id : Nat) : versionsOf id (visible rewritten h) ≤ 1 := by
  have hcount : versionsOf id (visible rewritten h) =
      rewritten.countP fun v => v.id = id ∧ v.visibleAt h = true := by
    rw [versionsOf, visible, Multiset.countP_map, Multiset.filter_filter,
      Multiset.countP_eq_card_filter]
  rw [hcount, rewritten, Multiset.insert_eq_cons, Multiset.countP_cons,
    ← Multiset.cons_zero, Multiset.countP_cons, Multiset.countP_zero]
  simp only [Version.visibleAt, Int8range.contains, decide_eq_true_eq]
  split_ifs <;> omega

theorem first_version_reopens :
    (∀ h id, versionsOf id (visible (rewind 3 rewritten) h) ≤ 1) ∧
      (openVersions (rewind 3 rewritten)).countP (·.id = 1) = 1 := by
  obtain ⟨-, -, -, -, -, -, -, hunique⟩ := rewind_restores_history 3 rewritten "app" "transfers"
  obtain ⟨hlater, hopen⟩ := hunique rewritten_unique
  exact ⟨hlater, hopen 1 10 (by decide)⟩

end Table
end Rewind
end SuperqueryNode.Store

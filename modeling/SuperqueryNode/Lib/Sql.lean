import Mathlib.Data.Multiset.Filter

namespace Sql

inductive Operator where
  | gt
  | le
deriving DecidableEq, Repr

def Operator.text : Operator → String
  | gt => " > "
  | le => " <= "

def Operator.compares : Operator → Int → Int → Bool
  | gt, a, b => decide (b < a)
  | le, a, b => decide (a ≤ b)

inductive Predicate (C : Type) where
  | compare (term : C) (op : Operator) (literal : Nat)
  | and (left right : Predicate C)

def and3 : Option Bool → Option Bool → Option Bool
  | some false, _ => some false
  | _, some false => some false
  | some true, b => b
  | none, _ => none

namespace Predicate
variable {C R : Type}

def render (text : C → String) : Predicate C → String
  | compare term op literal => text term ++ op.text ++ literal.repr
  | and left right => left.render text ++ " AND " ++ right.render text

def eval (value : C → Option Int) : Predicate C → Option Bool
  | compare term op literal => (value term).map fun v => op.compares v literal
  | and left right => and3 (left.eval value) (right.eval value)

-- WHERE keeps the rows for which the condition is true; a NULL condition does not select.
def selects (value : R → C → Option Int) (p : Predicate C) (row : R) : Bool :=
  p.eval (value row) == some true

theorem selects_compare {value : R → C → Option Int} {term : C} {op : Operator} {literal : Nat}
    {row : R} : (compare term op literal).selects value row = true ↔
      ∃ v, value row term = some v ∧ op.compares v literal = true := by
  simp [selects, eval]

theorem selects_and {value : R → C → Option Int} {p q : Predicate C} {row : R} :
    (and p q).selects value row = true ↔
      p.selects value row = true ∧ q.selects value row = true := by
  rw [selects, selects, selects, eval]
  rcases p.eval (value row) with _ | _ | _ <;> rcases q.eval (value row) with _ | _ | _ <;> decide

end Predicate

section Statements
variable {R : Type}

def deleteWhere (condition : R → Bool) (rows : Multiset R) : Multiset R :=
  rows.filter fun r => !condition r

def updateWhere (condition : R → Bool) (set : R → R) (rows : Multiset R) : Multiset R :=
  rows.map fun r => if condition r then set r else r

variable {delete update update' : R → Bool} {set set' : R → R}

theorem delete_update_comm (h : ∀ r, delete (if update r then set r else r) = delete r)
    (rows : Multiset R) : deleteWhere delete (updateWhere update set rows) =
      updateWhere update set (deleteWhere delete rows) := by
  rw [deleteWhere, updateWhere, updateWhere, deleteWhere, Multiset.filter_map]
  congr 2
  funext r
  simp [h r]

theorem delete_delete {delete' : R → Bool} (h : ∀ r, delete r = true → delete' r = true)
    (rows : Multiset R) : deleteWhere delete' (deleteWhere delete rows) = deleteWhere delete' rows := by
  rw [deleteWhere, deleteWhere, deleteWhere, Multiset.filter_filter]
  apply Multiset.filter_congr
  intro r _
  have := h r
  cases hr : delete r <;> simp_all

theorem update_update {rows : Multiset R} (h : ∀ r ∈ rows,
    (if update' (if update r then set r else r) then set' (if update r then set r else r)
      else if update r then set r else r) = if update' r then set' r else r) :
    updateWhere update' set' (updateWhere update set rows) = updateWhere update' set' rows := by
  rw [updateWhere, updateWhere, updateWhere, Multiset.map_map]
  exact Multiset.map_congr rfl h

theorem mem_deleteWhere {rows : Multiset R} {r : R} :
    r ∈ deleteWhere delete rows ↔ r ∈ rows ∧ delete r = false := by
  simp [deleteWhere]

theorem query_delete_update {A : Type} {seen seen' : R → Bool} {f g : R → A}
    (hseen : ∀ r, (delete r = false ∧ seen (if update r then set r else r) = true) ↔
      seen' r = true)
    (hf : ∀ r, seen' r = true → f (if update r then set r else r) = g r) (rows : Multiset R) :
    ((updateWhere update set (deleteWhere delete rows)).filter (seen · = true)).map f =
      (rows.filter (seen' · = true)).map g := by
  rw [updateWhere, deleteWhere, Multiset.filter_map, Multiset.map_map, Multiset.filter_filter]
  have hrows : rows.filter (fun r => ((fun r => seen r = true) ∘
      fun r => if update r then set r else r) r ∧ (!delete r) = true) =
      rows.filter (seen' · = true) := by
    apply Multiset.filter_congr
    intro r _
    rw [← hseen r, Bool.not_eq_true', and_comm]
    rfl
  rw [hrows]
  exact Multiset.map_congr rfl fun r hr => hf r (Multiset.mem_filter.mp hr).2

end Statements

section Identifiers

def unquote : List Char → Option (List Char)
  | [] => some []
  | ['"'] => none
  | '"' :: c :: s => if c = '"' then (unquote s).map ('"' :: ·) else none
  | c :: s => (unquote s).map (c :: ·)

def clip : Nat → List Char → List Char
  | _, [] => []
  | limit, c :: s => if c.utf8Size ≤ limit then c :: clip (limit - c.utf8Size) s else []

def identifierBytes : Nat := 63

def readIdentifier (quoted : String) : Option String :=
  if quoted.isEmpty || quoted.toList.contains '\x00' then none
  else (unquote quoted.toList).map fun s => String.ofList (clip identifierBytes s)

end Identifiers

section Upsert
variable {R K : Type} {conflicts : R → Bool} {set : R → R} {row : R} {rows : Multiset R}

-- `INSERT … ON CONFLICT DO UPDATE`: a conflicting row is updated in place of the insert.
def upsertRow (conflicts : R → Bool) (set : R → R) (row : R) (rows : Multiset R) : Multiset R :=
  if rows.countP (conflicts · = true) = 0 then row ::ₘ rows else updateWhere conflicts set rows

section Keyed
variable [DecidableEq K] {key : R → K}

def keyed (key : R → K) (row : R) (rows : Multiset R) : Multiset R :=
  row ::ₘ rows.filter fun r => key r ≠ key row

theorem upsertRow_keyed (hunique : (rows.map key).Nodup)
    (hset : ∀ r ∈ rows, key r = key row → set r = row) :
    upsertRow (fun r => key r = key row) set row rows = keyed key row rows := by
  rw [upsertRow, keyed]
  split_ifs with hcount
  · have hnone : ∀ r ∈ rows, key r ≠ key row := by
      intro r hr
      have := Multiset.countP_eq_zero.mp hcount r hr
      simpa using this
    rw [Multiset.filter_eq_self.mpr hnone]
  · obtain ⟨r, hr, hkey⟩ := Multiset.countP_pos.mp (Nat.pos_of_ne_zero hcount)
    have hkey : key r = key row := of_decide_eq_true hkey
    have hrow := hset r hr hkey
    obtain ⟨others, rfl⟩ := Multiset.exists_cons_of_mem hr
    rw [Multiset.map_cons, Multiset.nodup_cons, hkey] at hunique
    have hothers : ∀ r ∈ others, key r ≠ key row := by
      intro r hr heq
      exact hunique.1 (heq ▸ Multiset.mem_map_of_mem key hr)
    have hmap : others.map (fun r => if decide (key r = key row) then set r else r) =
        others.map id := by
      apply Multiset.map_congr rfl
      intro r hr
      simp [hothers r hr]
    rw [updateWhere, Multiset.map_cons, hmap, Multiset.map_id, if_pos (decide_eq_true hkey), hrow,
      Multiset.filter_cons_of_neg (p := fun r => key r ≠ key row) _ (not_not_intro hkey),
      Multiset.filter_eq_self.mpr hothers]

theorem keyed_same (row : R) (rows : Multiset R) :
    (keyed key row rows).filter (fun r => key r = key row) = {row} := by
  rw [keyed, Multiset.filter_cons_of_pos (p := fun r => key r = key row) _ rfl,
    Multiset.filter_filter]
  have hnone : rows.filter (fun r => key r = key row ∧ key r ≠ key row) = 0 :=
    Multiset.filter_eq_nil.mpr fun r _ h => h.2 h.1
  rw [hnone]
  rfl

theorem keyed_other (row : R) (rows : Multiset R) :
    (keyed key row rows).filter (fun r => key r ≠ key row) =
      rows.filter fun r => key r ≠ key row := by
  rw [keyed, Multiset.filter_cons_of_neg (p := fun r => key r ≠ key row) _ (not_not_intro rfl),
    Multiset.filter_filter]
  simp only [and_self]

theorem mem_keyed {r : R} (h : r ∈ keyed key row rows) : r = row ∨ r ∈ rows := by
  rcases Multiset.mem_cons.mp h with rfl | h
  · exact .inl rfl
  · exact .inr (Multiset.mem_of_mem_filter h)

theorem keyed_unique (hunique : (rows.map key).Nodup) : ((keyed key row rows).map key).Nodup := by
  rw [keyed, Multiset.map_cons, Multiset.nodup_cons]
  constructor
  · intro h
    obtain ⟨r, hr, heq⟩ := Multiset.mem_map.mp h
    exact (Multiset.mem_filter.mp hr).2 heq
  · exact Multiset.nodup_of_le (Multiset.map_le_map (Multiset.filter_le _ _)) hunique

end Keyed

end Upsert
end Sql

import Mathlib.Data.List.Induction
import SuperqueryNode.Lib.Sql

namespace Sql

section Runs
variable {R K : Type} [DecidableEq K] (key : R → K) (set : R → R → R)

def upsertOne (row : R) (rows : Multiset R) : Multiset R :=
  upsertRow (fun r => key r = key row) (set row) row rows

def upsertAll : List R → Multiset R → Multiset R
  | [], rows => rows
  | row :: later, rows => upsertAll later (upsertOne key set row rows)

def LastFor (written : List R) (row : R) : Prop :=
  ∃ before later, written = before ++ row :: later ∧ ∀ w ∈ later, key w ≠ key row

structure Assigns : Prop where
  key_set : ∀ row r, key (set row r) = key r
  set_set : ∀ a b r, set b (set a r) = set b r
  set_self : ∀ row, set row row = row

variable {key set} {written : List R} {rows : Multiset R} {row r : R}

omit [DecidableEq K] in
theorem lastFor_last (written : List R) (row : R) : LastFor key (written ++ [row]) row :=
  ⟨written, [], rfl, fun _ h => by cases h⟩

omit [DecidableEq K] in
theorem lastFor_concat {w : R} (h : LastFor key written row) (hne : key w ≠ key row) :
    LastFor key (written ++ [w]) row := by
  obtain ⟨before, later, rfl, hlast⟩ := h
  refine ⟨before, later ++ [w], by simp, fun w' hw' => ?_⟩
  rcases List.mem_append.mp hw' with hw' | hw'
  · exact hlast w' hw'
  · rw [List.mem_singleton.mp hw']
    exact hne

theorem exists_lastFor (h : r ∈ written) : ∃ row, LastFor key written row ∧ key row = key r := by
  induction written using List.reverseRecOn with
  | nil => cases h
  | append_singleton written w ih =>
    by_cases hw : key w = key r
    · exact ⟨w, lastFor_last written w, hw⟩
    · rcases List.mem_append.mp h with h | h
      · obtain ⟨row, hlast, hrow⟩ := ih h
        exact ⟨row, lastFor_concat hlast (hrow ▸ hw), hrow⟩
      · exact absurd (congrArg key (List.mem_singleton.mp h).symm) hw

theorem mem_upsertOne_same (h : Assigns key set) :
    ∃ r ∈ upsertOne key set row rows, key r = key row ∧ set row r = r := by
  rw [upsertOne, upsertRow]
  split_ifs with hcount
  · exact ⟨row, Multiset.mem_cons_self row rows, rfl, h.set_self row⟩
  · obtain ⟨r, hr, hkey⟩ := Multiset.countP_pos.mp (Nat.pos_of_ne_zero hcount)
    refine ⟨set row r, Multiset.mem_map.mpr ⟨r, hr, if_pos hkey⟩, ?_, h.set_set row row r⟩
    rw [h.key_set, of_decide_eq_true hkey]

theorem mem_upsertOne_other (hr : r ∈ rows) (hne : key r ≠ key row) :
    r ∈ upsertOne key set row rows := by
  rw [upsertOne, upsertRow]
  split_ifs
  · exact Multiset.mem_cons_of_mem hr
  · exact Multiset.mem_map.mpr ⟨r, hr, if_neg (by simpa using hne)⟩

theorem set_mem_upsertOne (hr : r ∈ rows) (hkey : key r = key row) :
    set row r ∈ upsertOne key set row rows := by
  rw [upsertOne, upsertRow]
  split_ifs with hcount
  · exact absurd (decide_eq_true hkey) (Multiset.countP_eq_zero.mp hcount r hr)
  · exact Multiset.mem_map.mpr ⟨r, hr, if_pos (decide_eq_true hkey)⟩

theorem eq_of_mem_upsertOne (hr : r ∈ upsertOne key set row rows) (hkey : key r = key row) :
    r = row ∨ ∃ old ∈ rows, key old = key row ∧ r = set row old := by
  rw [upsertOne, upsertRow] at hr
  split_ifs at hr with hcount
  · rcases Multiset.mem_cons.mp hr with rfl | hr
    · exact .inl rfl
    · exact absurd (decide_eq_true hkey) (Multiset.countP_eq_zero.mp hcount r hr)
  · obtain ⟨old, hold, rfl⟩ := Multiset.mem_map.mp hr
    by_cases hsame : key old = key row
    · exact .inr ⟨old, hold, hsame, if_pos (decide_eq_true hsame)⟩
    · rw [if_neg (by simpa using hsame)] at hkey
      exact absurd hkey hsame

theorem upsertAll_append (before later : List R) (rows : Multiset R) :
    upsertAll key set (before ++ later) rows =
      upsertAll key set later (upsertAll key set before rows) := by
  induction before generalizing rows with
  | nil => rfl
  | cons row before ih => exact ih _

theorem mem_upsertAll_other (hr : r ∈ rows) (hne : ∀ w ∈ written, key w ≠ key r) :
    r ∈ upsertAll key set written rows := by
  induction written generalizing rows with
  | nil => exact hr
  | cons w written ih =>
    exact ih (mem_upsertOne_other hr (hne w List.mem_cons_self).symm)
      fun w' hw' => hne w' (List.mem_cons_of_mem _ hw')

def touch (key : R → K) (set : R → R → R) (r w : R) : R := if key r = key w then set w r else r

theorem key_touch (h : Assigns key set) (w : R) : key (touch key set r w) = key r := by
  rw [touch]
  split_ifs
  · exact h.key_set w r
  · rfl

theorem foldl_touch (h : Assigns key set) (written : List R) (r : R) :
    written.foldl (touch key set) r = r ∨ ∃ row, LastFor key written row ∧ key row = key r ∧
      written.foldl (touch key set) r = set row r := by
  induction written using List.reverseRecOn with
  | nil => exact .inl rfl
  | append_singleton written w ih =>
    rw [List.foldl_append, List.foldl_cons, List.foldl_nil]
    have hkey : key (written.foldl (touch key set) r) = key r := by
      rcases ih with hsame | ⟨row, -, -, hset⟩
      · rw [hsame]
      · rw [hset, h.key_set]
    rw [touch, hkey]
    split_ifs with hw
    · refine .inr ⟨w, lastFor_last written w, hw.symm, ?_⟩
      rcases ih with hsame | ⟨row, -, -, hset⟩
      · rw [hsame]
      · rw [hset, h.set_set]
    · rcases ih with hsame | ⟨row, hlast, hrow, hset⟩
      · exact .inl hsame
      · exact .inr ⟨row, lastFor_concat hlast fun heq => hw (hrow ▸ heq.symm), hrow, hset⟩

theorem upsertAll_map (h : Assigns key set) (hall : ∀ w ∈ written, ∃ r ∈ rows, key r = key w) :
    upsertAll key set written rows = rows.map fun r => written.foldl (touch key set) r := by
  induction written generalizing rows with
  | nil => exact (Multiset.map_id rows).symm
  | cons w written ih =>
    obtain ⟨r, hr, hkey⟩ := hall w List.mem_cons_self
    have hcount : rows.countP (fun r => decide (key r = key w) = true) ≠ 0 := by
      refine (Multiset.countP_pos.mpr ⟨r, hr, decide_eq_true hkey⟩).ne'
    have hone : upsertOne key set w rows = rows.map fun r => touch key set r w := by
      rw [upsertOne, upsertRow, if_neg hcount, updateWhere]
      simp only [decide_eq_true_eq, touch]
    rw [upsertAll, hone, ih, Multiset.map_map]
    · rfl
    · intro w' hw'
      obtain ⟨r', hr', hkey'⟩ := hall w' (List.mem_cons_of_mem _ hw')
      exact ⟨_, Multiset.mem_map_of_mem _ hr', by rw [key_touch h, hkey']⟩

theorem upsertAll_eq_iff (h : Assigns key set) (hunique : (rows.map key).Nodup) :
    upsertAll key set written rows = rows ↔
      ∀ row, LastFor key written row → ∃ r ∈ rows, key r = key row ∧ set row r = r := by
  constructor
  · rintro hsame row ⟨before, later, rfl, hlast⟩
    rw [upsertAll_append, upsertAll] at hsame
    have hone : ∃ r ∈ upsertOne key set row (upsertAll key set before rows), _ ∧ _ :=
      mem_upsertOne_same h
    obtain ⟨r, hr, hkey, hset⟩ := hone
    refine ⟨r, ?_, hkey, hset⟩
    rw [← hsame]
    exact mem_upsertAll_other hr fun w hw => hkey ▸ hlast w hw
  · intro hstored
    have hall : ∀ w ∈ written, ∃ r ∈ rows, key r = key w := by
      intro w hw
      obtain ⟨row, hlast, hrow⟩ := (exists_lastFor hw : ∃ row, LastFor key written row ∧ _)
      obtain ⟨r, hr, hkey, -⟩ := hstored row hlast
      exact ⟨r, hr, hkey.trans hrow⟩
    have hid : ∀ r ∈ rows, written.foldl (touch key set) r = id r := by
      intro r hr
      rcases foldl_touch h written r with hsame | ⟨row, hlast, hrow, hset⟩
      · exact hsame
      · obtain ⟨r', hr', hkey, hkept⟩ := hstored row hlast
        rw [hset, ← Multiset.inj_on_of_nodup_map hunique r' hr' r hr (hkey.trans hrow)]
        exact hkept
    rw [upsertAll_map h hall, Multiset.map_congr rfl hid, Multiset.map_id]

end Runs

end Sql

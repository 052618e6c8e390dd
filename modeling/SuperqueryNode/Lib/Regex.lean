import Mathlib.Data.List.Basic

inductive Regex where
  | empty
  | start
  | finish
  | char (accepts : Char → Bool)
  | plus (accepts : Char → Bool)
  | seq (left right : Regex)
  | alt (left right : Regex)
  | group (n : Nat) (body : Regex)

namespace Regex

structure Match where
  text : List Char
  rest : List Char
  group : Nat → List Char

namespace Match

def none (s : List Char) : Match := ⟨[], s, fun _ => []⟩

def append (m n : Match) : Match := ⟨m.text ++ n.text, n.rest, fun g => m.group g ++ n.group g⟩

def capture (k : Nat) (m : Match) : Match :=
  ⟨m.text, m.rest, fun g => if g = k then m.text else m.group g⟩

@[simp] theorem append_none (m : Match) : m.append (none m.rest) = m := by
  simp [append, none]

end Match

-- A greedy repetition tries its longest run first.
def plusRuns (accepts : Char → Bool) : List Char → List (List Char × List Char)
  | [] => []
  | c :: s => if accepts c then
      (plusRuns accepts s).map (fun r => (c :: r.1, r.2)) ++ [([c], s)]
    else []

-- Every way to match from here, in the order in which backtracking tries them.
def run : Regex → Bool → List Char → List Match
  | empty, _, s => [.none s]
  | start, first, s => if first then [.none s] else []
  | finish, _, s => if s = [] then [.none s] else []
  | char _, _, [] => []
  | char accepts, _, c :: s => if accepts c then [⟨[c], s, fun _ => []⟩] else []
  | plus accepts, _, s => (plusRuns accepts s).map fun r => ⟨r.1, r.2, fun _ => []⟩
  | seq left right, first, s => (left.run first s).flatMap fun m =>
      (right.run (first && m.text.isEmpty) m.rest).map m.append
  | alt left right, first, s => left.run first s ++ right.run first s
  | group k body, first, s => (body.run first s).map (Match.capture k)

def search (r : Regex) : Bool → List Char → Option (List Char × Match)
  | first, [] => (r.run first []).head?.map ([], ·)
  | first, c :: s => ((r.run first (c :: s)).head?.map ([], ·)).or
      ((search r false s).map fun found => (c :: found.1, found.2))

inductive Part where
  | group (n : Nat)
  | text (s : String)
deriving DecidableEq, Repr

def expand (parts : List Part) (m : Match) : List Char :=
  parts.flatMap fun
    | .group n => m.group n
    | .text s => s.toList

def replace (r : Regex) (parts : List Part) (s : List Char) : Option (List Char) :=
  (r.search true s).map fun found => found.1 ++ expand parts found.2 ++ found.2.rest

-- Scanning left to right, `skip` counts the characters of the last match still to pass.
-- The patterns replaced this way never match the empty text.
def replaceAllFrom (r : Regex) (parts : List Part) : Nat → Bool → List Char → List Char
  | _, _, [] => []
  | skip + 1, _, _ :: s => replaceAllFrom r parts skip false s
  | 0, first, c :: s => match (r.run first (c :: s)).head? with
    | some m => expand parts m ++ replaceAllFrom r parts (m.text.length - 1) false s
    | none => c :: replaceAllFrom r parts 0 false s

def replaceAll (r : Regex) (parts : List Part) (s : List Char) : List Char :=
  replaceAllFrom r parts 0 true s

section ReplaceAll
variable {r : Regex} {parts : List Part} {first : Bool}

theorem replaceAll_skip (passed s : List Char) :
    ∀ first, replaceAllFrom r parts passed.length first (passed ++ s) =
      replaceAllFrom r parts 0 (first && passed.isEmpty) s := by
  induction passed with
  | nil => simp
  | cons c passed ih =>
    intro first
    simpa [replaceAllFrom] using ih false

theorem replaceAll_match {c : Char} {s : List Char} {m : Match}
    (hm : (r.run first (c :: s)).head? = some m) (htext : m.text ≠ [])
    (hs : c :: s = m.text ++ m.rest) :
    replaceAllFrom r parts 0 first (c :: s) =
      expand parts m ++ replaceAllFrom r parts 0 false m.rest := by
  rw [replaceAllFrom, hm]
  obtain ⟨text, rest, group⟩ := m
  obtain _ | ⟨d, passed⟩ := text
  · exact absurd rfl htext
  · obtain ⟨rfl, rfl⟩ : c = d ∧ s = passed ++ rest := by simpa using hs
    simpa using replaceAll_skip passed rest false

theorem replaceAll_miss {c : Char} {s : List Char} (hm : (r.run first (c :: s)).head? = none) :
    replaceAllFrom r parts 0 first (c :: s) = c :: replaceAllFrom r parts 0 false s := by
  rw [replaceAllFrom, hm]

end ReplaceAll

-- A scan that writes `mark` wherever `opens` finds a boundary between two neighbours.
def insertBefore (mark : Char) (opens : Char → Char → Option Char → Bool) :
    Char → List Char → List Char
  | _, [] => []
  | prev, c :: s => if opens prev c s.head? then mark :: c :: insertBefore mark opens c s
    else c :: insertBefore mark opens c s

section Insertion
variable {mark : Char} {opens : Char → Char → Option Char → Bool} {r : Regex} {parts : List Part}

def Continues (opens : Char → Char → Option Char → Bool) (prev : Char) (s : List Char) : Prop :=
  ∀ c rest, s = c :: rest → opens prev c rest.head? = false

theorem insertBefore_continues {prev c : Char} {s : List Char}
    (h : Continues opens prev (c :: s)) :
    insertBefore mark opens prev (c :: s) = c :: insertBefore mark opens c s := by
  rw [insertBefore, h c s rfl]
  rfl

theorem mem_insertBefore {s : List Char} {d : Char} :
    ∀ {prev : Char}, d ∈ insertBefore mark opens prev s → d = mark ∨ d ∈ s := by
  induction s with
  | nil => exact fun h => .inr h
  | cons c s ih =>
    intro prev h
    rw [insertBefore] at h
    split_ifs at h
    · rcases List.mem_cons.mp h with hmark | h
      · exact .inl hmark
      · rcases List.mem_cons.mp h with rfl | h
        · exact .inr List.mem_cons_self
        · exact (ih h).imp_right (List.mem_cons_of_mem c)
    · rcases List.mem_cons.mp h with rfl | h
      · exact .inr List.mem_cons_self
      · exact (ih h).imp_right (List.mem_cons_of_mem c)

theorem insertBefore_congr {opens' : Char → Char → Option Char → Bool} {s : List Char} :
    ∀ {prev : Char}, (∀ p ∈ prev :: s, ∀ c next, opens p c next = opens' p c next) →
      insertBefore mark opens prev s = insertBefore mark opens' prev s := by
  induction s with
  | nil => exact fun _ => rfl
  | cons c s ih =>
    intro prev h
    rw [insertBefore, insertBefore, h prev List.mem_cons_self,
      ih fun p hp => h p (List.mem_cons_of_mem prev hp)]

theorem filter_insertBefore {keep : Char → Bool} (hmark : keep mark = false) {s : List Char} :
    ∀ {prev : Char}, (insertBefore mark opens prev s).filter keep = s.filter keep := by
  induction s with
  | nil => exact rfl
  | cons c s ih =>
    intro prev
    rw [insertBefore]
    split_ifs
    · rw [List.filter_cons, hmark, if_neg Bool.false_ne_true, List.filter_cons, ih,
        ← List.filter_cons]
    · rw [List.filter_cons, ih, ← List.filter_cons]

theorem insertBefore_eq_self {s : List Char} :
    ∀ {prev : Char}, (∀ c ∈ s, ∀ p next, opens p c next = false) →
      insertBefore mark opens prev s = s := by
  induction s with
  | nil => exact fun _ => rfl
  | cons c s ih =>
    intro prev h
    rw [insertBefore, h c List.mem_cons_self, if_neg Bool.false_ne_true,
      ih fun d hd => h d (List.mem_cons_of_mem c hd)]

theorem replaceAll_insertBefore
    (hmatch : ∀ first prev c s m, (r.run first (c :: s)).head? = some m →
      Continues opens prev (c :: s) → m.text ≠ [] ∧ c :: s = m.text ++ m.rest ∧
        ∃ last, insertBefore mark opens prev (c :: s) =
          expand parts m ++ insertBefore mark opens last m.rest ∧ Continues opens last m.rest)
    (hmiss : ∀ first c s, (r.run first (c :: s)).head? = none → Continues opens c s)
    (s : List Char) : ∀ first prev, Continues opens prev s →
      replaceAllFrom r parts 0 first s = insertBefore mark opens prev s := by
  induction hn : s.length using Nat.strongRecOn generalizing s with
  | ind n ih =>
    intro first prev hprev
    cases s with
    | nil => rfl
    | cons c s =>
      cases hm : (r.run first (c :: s)).head? with
      | none =>
        have hnext := hmiss first c s hm
        rw [replaceAll_miss hm, insertBefore_continues hprev]
        exact congrArg (List.cons c) (ih s.length (by simp [← hn]) s rfl false c hnext)
      | some m =>
        obtain ⟨htext, hs, last, hinsert, hlast⟩ := hmatch first prev c s m hm hprev
        have hshort : m.rest.length < n := by
          rw [← hn, hs, List.length_append]
          have := List.length_pos_of_ne_nil htext
          omega
        rw [replaceAll_match hm htext hs, hinsert]
        exact congrArg (expand parts m ++ ·) (ih m.rest.length hshort m.rest rfl false last hlast)

end Insertion

theorem mem_plusRuns {accepts : Char → Bool} {s text rest : List Char}
    (h : (text, rest) ∈ plusRuns accepts s) :
    s = text ++ rest ∧ text ≠ [] ∧ ∀ c ∈ text, accepts c = true := by
  induction s generalizing text with
  | nil => cases h
  | cons c s ih =>
    rw [plusRuns] at h
    split_ifs at h with hc
    · rcases List.mem_append.mp h with hlonger | hone
      · obtain ⟨⟨run, _⟩, hrun, heq⟩ := List.mem_map.mp hlonger
        cases heq
        obtain ⟨hs, -, hall⟩ := ih hrun
        refine ⟨by rw [List.cons_append, ← hs], by simp, ?_⟩
        rintro d (_ | ⟨_, hd⟩)
        · exact hc
        · exact hall d hd
      · cases List.mem_singleton.mp hone
        exact ⟨rfl, by simp, by simpa using hc⟩
    · cases h

theorem single_mem_plusRuns {accepts : Char → Bool} {c : Char} {s : List Char}
    (h : accepts c = true) : ([c], s) ∈ plusRuns accepts (c :: s) := by
  rw [plusRuns, if_pos h]
  exact List.mem_append_right _ List.mem_cons_self

end Regex

import SuperqueryNode.Lib.Regex
import SuperqueryNode.Lib.FirstMatch
import Mathlib.Data.List.Sort

namespace Regex

structure Piece where
  accepts : Char → Bool
  groups : List Nat

abbrev Spelling := List Piece

-- Anchors and repetitions have no spelling.
def spellings : Regex → List Spelling
  | empty => [[]]
  | char accepts => [[⟨accepts, []⟩]]
  | seq left right => left.spellings.flatMap fun p => right.spellings.map (p ++ ·)
  | alt left right => left.spellings ++ right.spellings
  | group k body => body.spellings.map fun p => p.map fun x => ⟨x.accepts, k :: x.groups⟩
  | _ => []

def fixed : Regex → Bool
  | empty | char _ => true
  | seq left right | alt left right => left.fixed && right.fixed
  | group _ body => body.fixed
  | start | finish | plus _ => false

namespace Spelling

def read : Spelling → List Char → Option Match
  | [], s => some (.none s)
  | _ :: _, [] => none
  | x :: p, c :: s => if x.accepts c then
      (read p s).map fun m => ⟨c :: m.text, m.rest,
        fun g => if g ∈ x.groups then c :: m.group g else m.group g⟩
    else none

theorem read_append (p q : Spelling) (s : List Char) :
    read (p ++ q) s = (read p s).bind fun m => (read q m.rest).map m.append := by
  induction p generalizing s with
  | nil => cases h : read q s <;> simp [read, Match.none, Match.append, h]
  | cons x p ih =>
    obtain _ | ⟨c, s⟩ := s
    · rfl
    · rw [List.cons_append, read, read, ih]
      cases x.accepts c with
      | false => rfl
      | true =>
        cases read p s with
        | none => rfl
        | some m =>
          cases hq : read q m.rest with
          | none => simp [hq]
          | some n =>
            simp only [if_true, Option.bind_some, Option.map_some, hq, Match.append,
              Option.some.injEq, Match.mk.injEq, List.cons_append, true_and]
            funext g
            split_ifs <;> rfl

theorem read_capture (k : Nat) (p : Spelling) (s : List Char) :
    read (p.map fun x => ⟨x.accepts, k :: x.groups⟩) s = (read p s).map (Match.capture k) := by
  induction p generalizing s with
  | nil => simp [read, Match.none, Match.capture]
  | cons x p ih =>
    obtain _ | ⟨c, s⟩ := s
    · rfl
    · rw [List.map_cons, read, read, ih]
      cases x.accepts c with
      | false => rfl
      | true =>
        cases read p s with
        | none => rfl
        | some m =>
          simp only [if_true, Option.map_some, Match.capture, Option.some.injEq, Match.mk.injEq,
            true_and, List.mem_cons]
          funext g
          by_cases hg : g = k <;> simp [hg]

theorem read_splits {p : Spelling} {s : List Char} {m : Match} (h : read p s = some m) :
    s = m.text ++ m.rest ∧ m.text.length = p.length := by
  induction p generalizing s m with
  | nil =>
    cases h
    exact ⟨rfl, rfl⟩
  | cons x p ih =>
    obtain _ | ⟨c, s⟩ := s
    · cases h
    · rw [read] at h
      split_ifs at h
      obtain ⟨n, hn, rfl⟩ := Option.map_eq_some_iff.mp h
      obtain ⟨hs, hlen⟩ := ih hn
      exact ⟨by rw [List.cons_append, ← hs], by simp [hlen]⟩

end Spelling

theorem run_spellings {r : Regex} (h : r.fixed = true) (first : Bool) (s : List Char) :
    r.run first s = r.spellings.filterMap (Spelling.read · s) := by
  induction r generalizing first s with
  | empty => rfl
  | start | finish | plus => cases h
  | char accepts =>
    obtain _ | ⟨c, s⟩ := s
    · rfl
    · rw [run, spellings]
      cases hc : accepts c <;> simp [Spelling.read, hc, Match.none]
  | seq left right ihl ihr =>
    obtain ⟨hl, hr⟩ := Bool.and_eq_true_iff.mp h
    rw [run, spellings, ihl hl]
    generalize left.spellings = ps
    induction ps with
    | nil => rfl
    | cons p ps ihp =>
      rw [List.flatMap_cons, List.filterMap_append, ← ihp, List.filterMap_map]
      have hread : (right.spellings.filterMap fun q => (p ++ q).read s) =
          right.spellings.filterMap fun q => (p.read s).bind fun m => (q.read m.rest).map m.append :=
        List.filterMap_congr fun q _ => Spelling.read_append p q s
      rw [Function.comp_def, hread]
      cases hp : p.read s with
      | none => simp [hp]
      | some m => simp [hp, ihr hr, List.map_filterMap]
  | alt left right ihl ihr =>
    obtain ⟨hl, hr⟩ := Bool.and_eq_true_iff.mp h
    rw [run, spellings, List.filterMap_append, ihl hl, ihr hr]
  | group k body ih =>
    rw [run, spellings, ih h, List.filterMap_map, List.map_filterMap]
    congr 1
    funext p
    exact (Spelling.read_capture k p s).symm

namespace Spelling

def readEnd (p : Spelling) (s : List Char) : Option (List Char × Match) :=
  if p.length ≤ s.length then
    (read p (s.drop (s.length - p.length))).map (s.take (s.length - p.length), ·)
  else none

def exactly (p : Spelling) (s : List Char) : Option Match :=
  (read p s).filter fun m => m.rest.isEmpty

theorem exactly_length {p : Spelling} {s : List Char} {m : Match} (h : p.exactly s = some m) :
    p.read s = some m ∧ s.length = p.length := by
  obtain ⟨hread, hrest⟩ := Option.filter_eq_some_iff.mp h
  obtain ⟨hs, hlen⟩ := read_splits hread
  refine ⟨hread, ?_⟩
  rw [hs, List.isEmpty_iff.mp hrest, List.append_nil, hlen]

theorem exactly_of_length {p : Spelling} {s : List Char} (h : s.length = p.length) :
    p.exactly s = p.read s := by
  cases hr : p.read s with
  | none => rw [exactly, hr, Option.filter_none]
  | some m =>
    obtain ⟨hs, hlen⟩ := read_splits hr
    have hrest : m.rest = [] := by
      have := congrArg List.length hs
      rw [List.length_append] at this
      exact List.eq_nil_of_length_eq_zero (by omega)
    simp [exactly, hr, hrest]

theorem exactly_none {p : Spelling} {s : List Char} (h : p.length ≠ s.length) :
    p.exactly s = none := by
  rw [Option.eq_none_iff_forall_ne_some]
  intro m hm
  have := (exactly_length hm).2
  omega

theorem readEnd_length {p : Spelling} {s : List Char} {found : List Char × Match}
    (h : p.readEnd s = some found) : p.length ≤ s.length := by
  rw [readEnd] at h
  split_ifs at h with hlen
  exact hlen

theorem readEnd_nil (p : Spelling) : p.readEnd [] = (p.exactly []).map ([], ·) := by
  cases p <;> rfl

theorem readEnd_cons (p : Spelling) (c : Char) (s : List Char) : p.readEnd (c :: s) =
    ((p.exactly (c :: s)).map ([], ·)).or
      ((p.readEnd s).map fun found => (c :: found.1, found.2)) := by
  rcases lt_trichotomy p.length (c :: s).length with hlt | heq | hgt
  · have hexact : p.exactly (c :: s) = none := exactly_none (Nat.ne_of_lt hlt)
    have hle : p.length ≤ s.length := Nat.le_of_lt_succ hlt
    have hsucc : (c :: s).length - p.length = s.length - p.length + 1 := Nat.succ_sub hle
    rw [hexact, readEnd, readEnd, if_pos hlt.le, if_pos hle, hsucc]
    simp [Function.comp_def]
  · have hshort : p.readEnd s = none := by
      rw [readEnd, if_neg (by rw [heq]; exact Nat.not_succ_le_self _)]
    rw [exactly_of_length heq.symm, hshort, readEnd, if_pos heq.le, heq, Nat.sub_self]
    simp
  · have hexact : p.exactly (c :: s) = none := exactly_none (Nat.ne_of_gt hgt)
    have hshort : p.readEnd s = none := if_neg (by simp at hgt; omega)
    rw [hexact, hshort, readEnd, if_neg (by omega)]
    rfl

end Spelling

section Search
variable {body : Regex}

theorem run_ending (h : body.fixed = true) (first : Bool) (s : List Char) :
    ((seq body finish).run first s).head? = body.spellings.findSome? (·.exactly s) := by
  rw [run, run_spellings h]
  generalize body.spellings = ps
  induction ps with
  | nil => rfl
  | cons p ps ih =>
    rw [List.findSome?_cons, Spelling.exactly, List.filterMap_cons]
    cases hp : p.read s with
    | none => simpa using ih
    | some m =>
      obtain ⟨text, rest, group⟩ := m
      cases rest with
      | nil => simp [run, Match.none, Match.append, Option.filter]
      | cons c rest => simpa [run, Option.filter] using ih

abbrev Longer (p q : Spelling) : Prop := q.length ≤ p.length

def longestFirst (ps : List Spelling) : List Spelling := ps.insertionSort Longer

-- Only spellings of one length can match the same text, and those keep their order.
theorem exactly_longestFirst (ps : List Spelling) (s : List Char) :
    (longestFirst ps).findSome? (·.exactly s) = ps.findSome? (·.exactly s) := by
  apply FirstMatch.findSome_insertionSort
  intro p q hlonger
  rw [or_iff_not_imp_left]
  intro hp
  obtain ⟨m, hm⟩ := Option.ne_none_iff_exists'.mp hp
  rw [Option.eq_none_iff_forall_ne_some]
  intro n hn
  exact hlonger ((Spelling.exactly_length hn).2.symm.trans (Spelling.exactly_length hm).2).le

theorem longestFirst_sorted (ps : List Spelling) : (longestFirst ps).Pairwise Longer :=
  have : Std.Total Longer := ⟨fun p q => Nat.le_total q.length p.length⟩
  have : IsTrans Spelling Longer := ⟨fun _ _ _ hpq hqr => Nat.le_trans hqr hpq⟩
  List.pairwise_insertionSort Longer ps

theorem search_ending (h : body.fixed = true) (s : List Char) : ∀ first,
    (seq body finish).search first s =
      (longestFirst body.spellings).findSome? (·.readEnd s) := by
  induction s with
  | nil =>
    intro first
    rw [search, run_ending h, ← exactly_longestFirst, List.map_findSome?]
    simp only [Spelling.readEnd_nil, Function.comp_def]
  | cons c s ih =>
    intro first
    have hlongest : (longestFirst body.spellings).Pairwise fun p q =>
        ((p.readEnd s).map fun found => (c :: found.1, found.2)).isSome = true →
          ((q.exactly (c :: s)).map fun m => (([] : List Char), m)) = none := by
      refine (longestFirst_sorted body.spellings).imp ?_
      intro p q hle hp
      obtain ⟨found, hfound⟩ := Option.isSome_iff_exists.mp (Option.isSome_map ▸ hp)
      have hshort := Spelling.readEnd_length hfound
      rw [Option.map_eq_none_iff, Option.eq_none_iff_forall_ne_some]
      intro m hm
      have hlong := (Spelling.exactly_length hm).2
      rw [List.length_cons] at hlong
      omega
    rw [search, run_ending h, ih, ← exactly_longestFirst, List.map_findSome?,
      List.map_findSome?, Function.comp_def, Function.comp_def, ← FirstMatch.findSome_or hlongest]
    simp only [Spelling.readEnd_cons]

theorem search_unanchored (s : List Char) : (seq start body).search false s = none := by
  induction s with
  | nil => rfl
  | cons c s ih =>
    rw [search, ih]
    rfl

theorem search_whole (h : body.fixed = true) (s : List Char) :
    (seq start (seq body finish)).search true s =
      ((longestFirst body.spellings).findSome? (·.exactly s)).map ([], ·) := by
  rw [exactly_longestFirst]
  have hrun : ((seq start (seq body finish)).run true s).head? =
      body.spellings.findSome? (·.exactly s) := by
    have hstart : (start.run true s).flatMap (fun m =>
        ((seq body finish).run (true && m.text.isEmpty) m.rest).map m.append) =
        (seq body finish).run true s := by
      have hnone : (Match.none s).append = id := rfl
      simp only [run, if_true, List.flatMap_singleton, hnone, List.map_id]
      rfl
    rw [← run_ending h true s, run, hstart]
  cases s with
  | nil => rw [search, hrun]
  | cons c s => rw [search, hrun, search_unanchored, Option.map_none, Option.or_none]

end Search

def fits : List (Char → Bool) → List Char → Bool
  | [], [] => true
  | accepts :: classes, c :: s => accepts c && fits classes s
  | _, _ => false

theorem fits_length {classes : List (Char → Bool)} {s : List Char} (h : fits classes s = true) :
    s.length = classes.length := by
  induction classes generalizing s with
  | nil => cases s with
    | nil => rfl
    | cons c s => cases h
  | cons accepts classes ih => cases s with
    | nil => cases h
    | cons c s => simp [ih (Bool.and_eq_true_iff.mp h).2]

structure Ending where
  whole : Bool
  stem : List (Char → Bool)
  dropped : List (Char → Bool)
  added : String

def Ending.length (e : Ending) : Nat := e.stem.length + e.dropped.length

def Ending.inflect (e : Ending) (s : List Char) : Option (List Char) :=
  if fits (e.stem ++ e.dropped) (s.drop (s.length - e.length)) &&
      (!e.whole || s.length == e.length) then
    some (s.take (s.length - e.dropped.length) ++ e.added.toList)
  else none

namespace Spelling

def classes (p : Spelling) : List (Char → Bool) := p.map (·.accepts)

@[simp] theorem classes_cons (x : Piece) (p : Spelling) :
    classes (x :: p) = x.accepts :: p.classes := rfl

def positions (g : Nat) : Spelling → List Nat
  | [] => []
  | x :: p => (if g ∈ x.groups then [0] else []) ++ (positions g p).map (· + 1)

def kept (groups : List Nat) (p : Spelling) : List Nat := groups.flatMap (positions · p)

def ending (whole : Bool) (groups : List Nat) (added : String) (p : Spelling) : Ending :=
  ⟨whole, p.classes.take (p.kept groups).length, p.classes.drop (p.kept groups).length, added⟩

theorem read_fits {p : Spelling} {s : List Char} (h : s.length = p.length) :
    p.read s = if fits p.classes s then
      some ⟨s, [], fun g => (p.positions g).map (s.getD · default)⟩ else none := by
  induction p generalizing s with
  | nil =>
    obtain rfl := List.eq_nil_of_length_eq_zero h
    rfl
  | cons x p ih =>
    obtain _ | ⟨c, s⟩ := s
    · cases h
    · rw [read, ih (Nat.succ.inj h), classes_cons, fits]
      cases x.accepts c with
      | false => rfl
      | true =>
        cases fits (classes p) s with
        | false => rfl
        | true =>
          simp only [if_true, Option.map_some, Bool.and_self, Option.some.injEq, Match.mk.injEq,
            true_and, positions, List.map_append, List.map_map]
          funext g
          split_ifs <;> rfl

theorem readEnd_fits (p : Spelling) (s : List Char) :
    p.readEnd s = if fits p.classes (s.drop (s.length - p.length)) then
      some (s.take (s.length - p.length), ⟨s.drop (s.length - p.length), [],
        fun g => (p.positions g).map ((s.drop (s.length - p.length)).getD · default)⟩)
    else none := by
  rw [readEnd]
  by_cases hle : p.length ≤ s.length
  · rw [if_pos hle, read_fits (by rw [List.length_drop]; omega)]
    split_ifs <;> rfl
  · rw [if_neg hle, if_neg]
    intro hfits
    have := fits_length hfits
    rw [List.length_drop, classes, List.length_map] at this
    omega

def aligned (groups : List Nat) (p : Spelling) : Bool :=
  p.kept groups == List.range (p.kept groups).length && (p.kept groups).length ≤ p.length

theorem expand_kept {groups : List Nat} {added : String} {p : Spelling} {s : List Char} {m : Match}
    (h : p.aligned groups = true) (hs : s.length = p.length)
    (hm : m.group = fun g => (p.positions g).map (s.getD · default)) :
    expand (groups.map .group ++ [.text added]) m =
      s.take (p.kept groups).length ++ added.toList := by
  obtain ⟨hrange, hle⟩ := Bool.and_eq_true_iff.mp h
  have hgroups : groups.flatMap (fun g => m.group g) = (p.kept groups).map (s.getD · default) := by
    rw [kept, List.map_flatMap, hm]
  have htake : (List.range (p.kept groups).length).map (s.getD · default) =
      s.take (p.kept groups).length := by
    apply List.ext_getElem
    · rw [List.length_map, List.length_range, List.length_take]
      have := of_decide_eq_true hle
      omega
    · intro i _ hi
      rw [List.length_take] at hi
      simp [List.getElem?_eq_getElem (by omega : i < s.length)]
  rw [expand, List.flatMap_append, List.flatMap_map, hgroups, beq_iff_eq.mp hrange]
  simpa using htake

end Spelling

structure SuffixRule where
  whole : Bool
  body : Regex
  groups : List Nat
  added : String

namespace SuffixRule

def pattern (r : SuffixRule) : Regex :=
  if r.whole then seq start (seq r.body finish) else seq r.body finish

def parts (r : SuffixRule) : List Part := r.groups.map .group ++ [.text r.added]

def rewrite (r : SuffixRule) (s : List Char) : Option (List Char) := r.pattern.replace r.parts s

def endings (r : SuffixRule) : List Ending :=
  (longestFirst r.body.spellings).map (Spelling.ending r.whole r.groups r.added)

def regular (r : SuffixRule) : Bool :=
  r.body.fixed && r.body.spellings.all (Spelling.aligned r.groups)

def found (r : SuffixRule) (s : List Char) (p : Spelling) : Option (List Char × Match) :=
  if r.whole then (p.exactly s).map ([], ·) else p.readEnd s

theorem found_fits (r : SuffixRule) (p : Spelling) (s : List Char) :
    r.found s p = if fits p.classes (s.drop (s.length - p.length)) &&
        (!r.whole || s.length == p.length) then
      some (s.take (s.length - p.length), ⟨s.drop (s.length - p.length), [],
        fun g => (p.positions g).map ((s.drop (s.length - p.length)).getD · default)⟩)
    else none := by
  rw [found]
  cases r.whole with
  | false => simpa using Spelling.readEnd_fits p s
  | true =>
    by_cases hlen : s.length = p.length
    · rw [if_pos rfl, Spelling.exactly_of_length hlen, Spelling.read_fits hlen, hlen, Nat.sub_self]
      cases hfits : fits p.classes s <;> simp [hfits]
    · have hnone : p.exactly s = none := by
        rw [Option.eq_none_iff_forall_ne_some]
        intro m hm
        exact hlen (Spelling.exactly_length hm).2
      simp [hnone, hlen]

theorem found_ending {r : SuffixRule} {p : Spelling} (h : p.aligned r.groups = true)
    (s : List Char) : (r.found s p).map (fun f => f.1 ++ expand r.parts f.2 ++ f.2.rest) =
      (p.ending r.whole r.groups r.added).inflect s := by
  have hkept := of_decide_eq_true (Bool.and_eq_true_iff.mp h).2
  have hlen : (p.ending r.whole r.groups r.added).length = p.length := by
    simp [Ending.length, Spelling.ending, Spelling.classes]
    omega
  rw [found_fits, Ending.inflect, hlen, Spelling.ending, List.take_append_drop]
  split_ifs with hfits
  · have hpos := (Bool.and_eq_true_iff.mp hfits).1
    have hend := fits_length hpos
    rw [List.length_drop, Spelling.classes, List.length_map] at hend
    have hdrop : (p.classes.drop (p.kept r.groups).length).length =
        p.length - (p.kept r.groups).length := by
      rw [List.length_drop, Spelling.classes, List.length_map]
    have htake : s.length - (p.length - (p.kept r.groups).length) =
        s.length - p.length + (p.kept r.groups).length := by omega
    rw [Option.map_some, parts, Spelling.expand_kept h (by rw [List.length_drop]; omega) rfl,
      hdrop, htake, List.take_add]
    simp
  · rfl

theorem rewrite_endings {r : SuffixRule} (h : r.regular = true) (s : List Char) :
    r.rewrite s = r.endings.findSome? (·.inflect s) := by
  rw [regular, Bool.and_eq_true_iff, List.all_eq_true] at h
  obtain ⟨hfixed, haligned⟩ := h
  have hsearch : r.pattern.search true s =
      (longestFirst r.body.spellings).findSome? (r.found s) := by
    cases hwhole : r.whole with
    | true =>
      have hfound : r.found s = fun p => (p.exactly s).map ([], ·) := by
        funext p
        rw [found, hwhole, if_pos rfl]
      rw [pattern, hwhole, if_pos rfl, search_whole hfixed, hfound, List.map_findSome?]
      rfl
    | false =>
      have hfound : r.found s = (·.readEnd s) := by
        funext p
        rw [found, hwhole, if_neg Bool.false_ne_true]
      rw [pattern, hwhole, if_neg Bool.false_ne_true, search_ending hfixed, hfound]
  rw [rewrite, replace, hsearch, endings, List.map_findSome?, List.findSome?_map]
  apply FirstMatch.findSome_congr
  intro p hp
  exact found_ending (haligned p ((List.mem_insertionSort _).mp hp)) s

end SuffixRule

end Regex

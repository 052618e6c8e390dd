import SuperqueryNode.Lib.Ascii
import SuperqueryNode.Lib.Ending

namespace SuperqueryNode.Store
open Ascii Regex

-- The Unicode tables of the standard library and of the regex crate, known here on ASCII.
structure Unicode where
  isDecimal : Char → Bool
  isUppercase : Char → Bool
  toLowercase : List Char → List Char
  isDecimal_ascii : ∀ c, c.toNat < 128 → isDecimal c = c.isDigit
  isUppercase_ascii : ∀ c, c.toNat < 128 → isUppercase c = c.isUpper
  toLowercase_ascii : ∀ s, (∀ c ∈ s, c.toNat < 128) → toLowercase s = s.map Char.toLower

def Unicode.ascii : Unicode where
  isDecimal := Char.isDigit
  isUppercase := Char.isUpper
  toLowercase := List.map Char.toLower
  isDecimal_ascii := fun _ _ => rfl
  isUppercase_ascii := fun _ _ => rfl
  toLowercase_ascii := fun _ _ => rfl

section Underscored

def acronym (u : Unicode) : Regex :=
  seq (group 1 (plus fun c => c.isUpper || u.isDecimal c))
    (group 2 (seq (char Char.isUpper) (char Char.isLower)))

def word (u : Unicode) : Regex :=
  seq (group 1 (char fun c => c.isLower || u.isDecimal c)) (group 2 (char Char.isUpper))

def joined : List Part := [.group 1, .text "_", .group 2]

def underscored (u : Unicode) (input : String) : String :=
  let step1 := replaceAll (acronym u) joined input.toList
  let step2 := replaceAll (word u) joined step1
  String.ofList (u.toLowercase (step2.map fun c => if c = '-' then '_' else c))

theorem not_decimal_of_letter {u : Unicode} {c : Char} (h : c.isUpper = true ∨ c.isLower = true) :
    u.isDecimal c = false := by
  rw [isUpper_iff, isLower_iff] at h
  rw [u.isDecimal_ascii c (by omega), Bool.eq_false_iff, Ne, isDigit_iff]
  omega

section Separate
variable {u : Unicode}

def opensAcronym (u : Unicode) (prev c : Char) (next : Option Char) : Bool :=
  (prev.isUpper || u.isDecimal prev) && (c.isUpper && next.any Char.isLower)

def opensWord (u : Unicode) (prev c : Char) (_ : Option Char) : Bool :=
  (prev.isLower || u.isDecimal prev) && c.isUpper

def opens (u : Unicode) (prev c : Char) (next : Option Char) : Bool :=
  opensAcronym u prev c next || opensWord u prev c next

theorem mem_capitalized {first : Bool} {s : List Char} {m : Match}
    (h : m ∈ (group 2 (seq (char Char.isUpper) (char Char.isLower))).run first s) :
    ∃ x y, s = x :: y :: m.rest ∧ x.isUpper = true ∧ y.isLower = true ∧ m.text = [x, y] ∧
      m.group 1 = [] ∧ m.group 2 = [x, y] := by
  obtain _ | ⟨x, _ | ⟨y, rest⟩⟩ := s
  · simp [run] at h
  · cases hx : x.isUpper <;> simp [run, hx] at h
  · cases hx : x.isUpper <;> cases hy : y.isLower <;> simp [run, hx, hy] at h
    subst h
    exact ⟨x, y, rfl, hx, hy, rfl, rfl, rfl⟩

theorem mem_acronym {first : Bool} {s : List Char} {m : Match}
    (h : m ∈ (acronym u).run first s) : ∃ capitals x y, s = capitals ++ x :: y :: m.rest ∧
      capitals ≠ [] ∧ (∀ c ∈ capitals, (c.isUpper || u.isDecimal c) = true) ∧ x.isUpper = true ∧
      y.isLower = true ∧ m.text = capitals ++ [x, y] ∧
      expand joined m = capitals ++ '_' :: [x, y] := by
  rw [acronym, run, List.mem_flatMap] at h
  obtain ⟨left, hleft, hm⟩ := h
  obtain ⟨right, hright, rfl⟩ := List.mem_map.mp hm
  rw [run, run, List.map_map, List.mem_map] at hleft
  obtain ⟨⟨capitals, rest⟩, hcapitals, rfl⟩ := hleft
  obtain ⟨hs, hne, hall⟩ := mem_plusRuns hcapitals
  obtain ⟨x, y, hrest, hx, hy, htext, hone, htwo⟩ := mem_capitalized hright
  refine ⟨capitals, x, y, ?_, hne, hall, hx, hy, ?_, ?_⟩
  · rw [hs]
    exact congrArg (capitals ++ ·) hrest
  · exact congrArg (capitals ++ ·) htext
  · simp [expand, joined, Match.append, Match.capture, hone, htwo]

theorem acronym_miss {first : Bool} {c : Char} {s : List Char}
    (h : ((acronym u).run first (c :: s)).head? = none) : Continues (opensAcronym u) c s := by
  rintro d rest rfl
  rw [Bool.eq_false_iff]
  intro hopens
  rw [opensAcronym, Bool.and_eq_true_iff, Bool.and_eq_true_iff] at hopens
  obtain ⟨hc, hd, hnext⟩ := hopens
  obtain _ | ⟨y, rest⟩ := rest
  · cases hnext
  have hnil := List.head?_eq_none_iff.mp h
  have hone : ([c], d :: y :: rest) ∈ plusRuns (fun c => c.isUpper || u.isDecimal c)
      (c :: d :: y :: rest) := single_mem_plusRuns hc
  rw [acronym, run, List.flatMap_eq_nil_iff] at hnil
  have hrun := hnil _ (List.mem_map_of_mem (List.mem_map_of_mem hone))
  have hlower : y.isLower = true := hnext
  simp [run, hd, hlower, Match.capture] at hrun

theorem not_lower_of_capital {c : Char} (h : (c.isUpper || u.isDecimal c) = true) :
    c.isLower = false := by
  rw [Bool.eq_false_iff]
  intro hlower
  rw [not_upper_of_lower hlower, not_decimal_of_letter (.inr hlower)] at h
  cases h

theorem insertBefore_capitals {capitals rest : List Char} {x y : Char} (hx : x.isUpper = true)
    (hy : y.isLower = true) (hall : ∀ c ∈ capitals, (c.isUpper || u.isDecimal c) = true) :
    ∀ c : Char, (c.isUpper || u.isDecimal c) = true →
      insertBefore '_' (opensAcronym u) c (capitals ++ x :: y :: rest) =
        capitals ++ '_' :: x :: y :: insertBefore '_' (opensAcronym u) y rest := by
  induction capitals with
  | nil =>
    intro c hc
    simp [insertBefore, opensAcronym, hc, hx, hy, not_upper_of_lower hy]
  | cons d capitals ih =>
    intro c _
    have hd := hall d List.mem_cons_self
    have hrest := ih fun e he => hall e (List.mem_cons_of_mem _ he)
    have hnext : (capitals ++ x :: y :: rest).head?.any Char.isLower = false := by
      cases capitals with
      | nil => exact not_lower_of_upper hx
      | cons e capitals =>
        exact not_lower_of_capital (hall e (List.mem_cons_of_mem _ List.mem_cons_self))
    rw [List.cons_append, insertBefore, opensAcronym, hnext, Bool.and_false, Bool.and_false,
      if_neg Bool.false_ne_true, hrest d hd]
    rfl

theorem acronym_match {first : Bool} {prev c : Char} {s : List Char} {m : Match}
    (h : ((acronym u).run first (c :: s)).head? = some m)
    (hprev : Continues (opensAcronym u) prev (c :: s)) : m.text ≠ [] ∧ c :: s = m.text ++ m.rest ∧
      ∃ last, insertBefore '_' (opensAcronym u) prev (c :: s) =
        expand joined m ++ insertBefore '_' (opensAcronym u) last m.rest ∧
          Continues (opensAcronym u) last m.rest := by
  obtain ⟨capitals, x, y, hs, hne, hall, hx, hy, htext, hexpand⟩ :=
    mem_acronym (List.mem_of_head? h)
  obtain ⟨d, capitals, rfl⟩ := List.exists_cons_of_ne_nil hne
  obtain ⟨rfl, rfl⟩ : c = d ∧ s = capitals ++ x :: y :: m.rest := by simpa using hs
  refine ⟨?_, ?_, y, ?_, ?_⟩
  · simp [htext]
  · simp [htext]
  · rw [insertBefore_continues hprev, hexpand, insertBefore_capitals hx hy
      (fun e he => hall e (List.mem_cons_of_mem _ he)) c (hall c List.mem_cons_self)]
    simp
  · intro e rest _
    rw [opensAcronym, not_upper_of_lower hy, not_decimal_of_letter (.inr hy)]
    rfl

theorem mem_word {first : Bool} {c : Char} {s : List Char} {m : Match}
    (h : m ∈ (word u).run first (c :: s)) : ∃ d, s = d :: m.rest ∧
      (c.isLower || u.isDecimal c) = true ∧ d.isUpper = true ∧ m.text = [c, d] ∧
      expand joined m = [c, '_', d] := by
  cases hc : c.isLower || u.isDecimal c with
  | false => simp [word, run, hc] at h
  | true =>
    obtain _ | ⟨d, rest⟩ := s
    · simp [word, run, hc, Match.capture] at h
    · cases hd : d.isUpper <;> simp [word, run, hc, hd, Match.capture] at h
      subst h
      exact ⟨d, rfl, rfl, hd, rfl, rfl⟩

theorem word_match {first : Bool} {prev c : Char} {s : List Char} {m : Match}
    (h : ((word u).run first (c :: s)).head? = some m)
    (hprev : Continues (opensWord u) prev (c :: s)) : m.text ≠ [] ∧ c :: s = m.text ++ m.rest ∧
      ∃ last, insertBefore '_' (opensWord u) prev (c :: s) =
        expand joined m ++ insertBefore '_' (opensWord u) last m.rest ∧
          Continues (opensWord u) last m.rest := by
  obtain ⟨d, rfl, hc, hd, htext, hexpand⟩ := mem_word (List.mem_of_head? h)
  refine ⟨by simp [htext], by simp [htext], d, ?_, ?_⟩
  · rw [insertBefore_continues hprev, hexpand, insertBefore, opensWord, hc, hd]
    rfl
  · intro e rest _
    rw [opensWord, not_lower_of_upper hd, not_decimal_of_letter (.inl hd)]
    rfl

theorem word_miss {first : Bool} {c : Char} {s : List Char}
    (h : ((word u).run first (c :: s)).head? = none) : Continues (opensWord u) c s := by
  rintro d rest rfl
  rw [Bool.eq_false_iff]
  intro hopens
  obtain ⟨hc, hd⟩ := Bool.and_eq_true_iff.mp hopens
  simp [word, run, hc, hd, Match.capture] at h

theorem continues_initial (s : List Char) :
    Continues (opensAcronym u) '_' s ∧ Continues (opensWord u) '_' s := by
  have hdecimal : u.isDecimal '_' = false := u.isDecimal_ascii '_' (by decide)
  constructor <;> intro c rest _
  · rw [opensAcronym, hdecimal]
    rfl
  · rw [opensWord, hdecimal]
    rfl

theorem insertBefore_twice (s : List Char) : ∀ prev,
    insertBefore '_' (opensWord u) prev (insertBefore '_' (opensAcronym u) prev s) =
      insertBefore '_' (opens u) prev s := by
  induction s with
  | nil => exact fun _ => rfl
  | cons c s ih =>
    intro prev
    have hmark : opensWord u '_' c (insertBefore '_' (opensAcronym u) c s).head? = false :=
      (continues_initial _).2 c _ rfl
    rw [insertBefore, insertBefore, opens]
    cases opensAcronym u prev c s.head? with
    | true =>
      have hkeep : opensWord u prev '_' (some c) = false := Bool.and_false _
      rw [if_pos rfl, Bool.true_or, if_pos rfl, insertBefore, List.head?_cons, hkeep,
        if_neg Bool.false_ne_true, insertBefore, hmark, if_neg Bool.false_ne_true, ih]
    | false =>
      rw [if_neg Bool.false_ne_true, Bool.false_or, insertBefore, ih]
      rfl

theorem underscored_inserts (input : String) : underscored u input =
    String.ofList (u.toLowercase ((insertBefore '_' (opens u) '_' input.toList).map
      fun c => if c = '-' then '_' else c)) := by
  have hacronym := replaceAll_insertBefore (fun _ _ _ _ _ => acronym_match (u := u))
    (fun _ _ _ => acronym_miss) input.toList true '_' (continues_initial _).1
  have hword := replaceAll_insertBefore (fun _ _ _ _ _ => word_match (u := u))
    (fun _ _ _ => word_miss) (insertBefore '_' (opensAcronym u) '_' input.toList) true '_'
    (continues_initial _).2
  rw [underscored, replaceAll, replaceAll, hacronym, hword, insertBefore_twice]

end Separate

end Underscored

section Pluralize

def uncountable : List String :=
  ["equipment", "information", "rice", "money", "species", "series", "fish", "sheep", "jeans",
    "moose", "deer", "news"]

def irregular : List (String × String) :=
  [("person", "people"), ("man", "men"), ("child", "children"), ("sex", "sexes"),
    ("move", "moves"), ("cow", "kine"), ("zombie", "zombies")]

-- A letter under `(?i)`: besides its capital, the long s folds to an s.
def letter (c : Char) : Char → Bool := fun d => d == c || d == c.toUpper || c == 's' && d == 'ſ'

def literal (s : String) : Regex := s.toList.foldr (fun c r => seq (char (letter c)) r) empty

def anyOf (s : String) : Char → Bool := fun d => s.toList.any (letter · d)

def oneOf (s : String) : Regex := char (anyOf s)

def noneOf (s : String) : Regex := char fun d => !anyOf s d

-- The rules in order; all of them end in `$`, the second alone begins with `^`.
def rules : List SuffixRule := [
  ⟨false, group 1 (literal "quiz"), [1], "zes"⟩,
  ⟨true, group 1 (literal "ox"), [1], "en"⟩,
  ⟨false, seq (group 1 (oneOf "ml")) (literal "ouse"), [1], "ice"⟩,
  ⟨false, seq (group 1 (alt (literal "matr") (alt (literal "vert") (literal "ind"))))
    (group 2 (alt (literal "ix") (literal "ex"))), [1], "ices"⟩,
  ⟨false, group 1 (alt (literal "x") (alt (literal "ch") (alt (literal "ss") (literal "sh")))),
    [1], "es"⟩,
  ⟨false, seq (group 1 (alt (noneOf "aeiouy") (literal "qu"))) (literal "y"), [1], "ies"⟩,
  ⟨false, group 1 (literal "hive"), [1], "s"⟩,
  ⟨false, alt (seq (group 1 (noneOf "f")) (literal "fe")) (seq (group 2 (oneOf "lr")) (literal "f")),
    [1, 2], "ves"⟩,
  ⟨false, literal "sis", [], "ses"⟩,
  ⟨false, seq (group 1 (oneOf "ti")) (literal "um"), [1], "a"⟩,
  ⟨false, seq (group 1 (alt (literal "buffal") (literal "tomat"))) (literal "o"), [1], "oes"⟩,
  ⟨false, seq (group 1 (literal "bu")) (literal "s"), [1], "ses"⟩,
  ⟨false, group 1 (alt (literal "alias") (literal "status")), [1], "es"⟩,
  ⟨false, seq (group 1 (alt (literal "octop") (literal "vir"))) (literal "us"), [1], "i"⟩,
  ⟨false, seq (group 1 (alt (literal "ax") (literal "test"))) (literal "is"), [1], "es"⟩,
  ⟨false, literal "s", [], "s"⟩,
  ⟨false, empty, [], "s"⟩]

def capitalizeFirst (s : String) : String :=
  match s.toList with
  | c :: cs => String.ofList (c.toUpper :: cs)
  | [] => ""

def pluralize (u : Unicode) (word : String) : String :=
  if word.isEmpty then "" else
  let lower := String.ofList (u.toLowercase word.toList)
  if uncountable.contains lower then word else
  match irregular.lookup lower with
  | some plur => if word.toList.head?.any u.isUppercase then capitalizeFirst plur else plur
  | none => match rules.findSome? (·.rewrite word.toList) with
    | some plural => String.ofList plural
    | none => word

end Pluralize

def modelToTableName (u : Unicode) (modelName : String) : String :=
  underscored u (pluralize u modelName)

example : modelToTableName .ascii "MyEntity" = "my_entities" := by decide

end SuperqueryNode.Store

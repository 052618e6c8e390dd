import SuperqueryNode.Lib.Assoc
import SuperqueryNode.Store.Ddl
import SuperqueryNode.Store.Postgres

namespace SuperqueryNode.Store
open Ascii Regex

-- A capital begins a word after a small letter or a digit, and as the last of several capitals
-- that a small letter follows.
def beginsWord (prev c : Char) (next : Option Char) : Bool :=
  c.isUpper && (prev.isLower || prev.isDigit || prev.isUpper && next.any Char.isLower)

-- Two names side by side, letter case ignored. Where only one of them begins a word at a capital,
-- the other has an underscore before the same letter; `after` is what follows both.
def alike (after : Option Char) : Char → List Char → Char → List Char → Bool
  | _, [], _, [] => true
  | prev, c :: s, prev', d :: t =>
    let begins := beginsWord prev c (s.head?.or after)
    if begins = beginsWord prev' d (t.head?.or after) then
      c.toLower == d.toLower && alike after c s d t
    else if begins then
      d == '_' && match t with
        | [] => false
        | e :: t => c.toLower == e.toLower && alike after c s e t
    else
      c == '_' && match s with
        | [] => false
        | e :: s => e.toLower == d.toLower && alike after e s d t
  | _, _, _, _ => false

def beginnings (after : Option Char) : Char → List Char → Nat
  | _, [] => 0
  | prev, c :: s =>
    (if beginsWord prev c (s.head?.or after) then 1 else 0) + beginnings after c s

def spelled (after : Option Char) : Char → List Char → List Char
  | _, [] => []
  | prev, c :: s =>
    if beginsWord prev c (s.head?.or after) then '_' :: c.toLower :: spelled after c s
    else c.toLower :: spelled after c s

section Ascii
variable {c : Char}

theorem nameContinue_iff : nameContinue c = true ↔
    (c.isUpper = true ∨ c.isLower = true) ∨ c.isDigit = true ∨ c = '_' := by
  simp [nameContinue, Char.isAlphanum, isAlpha_eq, or_assoc]

theorem nameContinue_ascii (h : nameContinue c = true) : c.toNat < 128 := by
  rw [nameContinue_iff, isUpper_iff, isLower_iff, isDigit_iff] at h
  rcases h with h | h | rfl
  · omega
  · omega
  · decide

theorem nameContinue_of_start (h : nameStart c = true) : nameContinue c = true := by
  rw [nameContinue_iff]
  simpa [nameStart, isAlpha_eq, or_assoc, or_left_comm] using
    Or.inr (a := c.isDigit = true) h

theorem nameStart_not_digit (h : nameStart c = true) : c.isDigit = false := by
  rw [Bool.eq_false_iff, Ne, isDigit_iff]
  intro hdigit
  simp only [nameStart, isAlpha_eq, Bool.or_eq_true, isUpper_iff, isLower_iff, beq_iff_eq] at h
  rcases h with h | rfl
  · omega
  · revert hdigit
    decide

theorem nameStart_iff : nameStart c = true ↔ (c.isUpper = true ∨ c.isLower = true) ∨ c = '_' := by
  simp [nameStart, isAlpha_eq]

theorem nameStart_toLower (h : nameStart c = true) : nameStart c.toLower = true := by
  cases hc : c.isUpper with
  | false => rwa [toLower_of_not_upper hc]
  | true => exact nameStart_iff.mpr (.inl (.inr (isLower_toLower hc)))

theorem nameContinue_toLower (h : nameContinue c = true) : nameContinue c.toLower = true := by
  cases hc : c.isUpper with
  | false => rwa [toLower_of_not_upper hc]
  | true => exact nameContinue_iff.mpr (.inl (.inr (isLower_toLower hc)))

end Ascii

section Spelled
variable {after : Option Char}

theorem not_begins (c : Char) (next : Option Char) : beginsWord '_' c next = false :=
  Bool.and_false _

theorem spelled_eq (s : List Char) : ∀ prev,
    spelled none prev s = (insertBefore '_' beginsWord prev s).map Char.toLower := by
  induction s with
  | nil => exact fun _ => rfl
  | cons c s ih =>
    intro prev
    rw [spelled, insertBefore, Option.or_none, ih]
    split_ifs <;> rfl

theorem length_spelled (s : List Char) : ∀ prev,
    (spelled after prev s).length = s.length + beginnings after prev s := by
  induction s with
  | nil => exact fun _ => rfl
  | cons c s ih =>
    intro prev
    rw [spelled, beginnings]
    split_ifs <;> simp only [List.length_cons, ih] <;> omega

theorem spelled_small {s : List Char} (h : ∀ c ∈ s, c.isLower = true) : ∀ prev,
    spelled after prev s = s := by
  induction s with
  | nil => exact fun _ => rfl
  | cons c s ih =>
    obtain ⟨hc, hs⟩ := List.forall_mem_cons.mp h
    intro prev
    have hupper := not_upper_of_lower hc
    rw [spelled, beginsWord, hupper, Bool.false_and, if_neg Bool.false_ne_true, ih hs,
      toLower_of_not_upper hupper]

-- What small letters follow a name decides only whether its last capital begins a word.
theorem spelled_append {tail : List Char} (h : ∀ c ∈ tail, c.isLower = true) (s : List Char) :
    ∀ prev, spelled after prev (s ++ tail) = spelled (tail.head?.or after) prev s ++ tail := by
  induction s with
  | nil => exact spelled_small h
  | cons c s ih =>
    intro prev
    rw [List.cons_append, spelled, spelled, List.head?_append, Option.or_assoc, ih]
    split_ifs <;> rfl

theorem spelled_letter {c : Char} {s : List Char} :
    spelled after '_' (c :: s) = c.toLower :: spelled after c s := by
  rw [spelled, not_begins, if_neg Bool.false_ne_true]

theorem toLower_underscore {c : Char} : c.toLower = '_' ↔ c = '_' := toLower_eq_iff rfl

theorem alike_iff (s t : List Char) (prev prev' : Char) :
    alike after prev s prev' t = true ↔ spelled after prev s = spelled after prev' t := by
  fun_induction alike after prev s prev' t with
  | case1 => simp [spelled]
  | case2 prev c s prev' d t begins heq ih =>
    rw [Bool.and_eq_true_iff, beq_iff_eq, ih, spelled, spelled, ← heq]
    change _ ↔ (if begins = true then _ else _) = _
    cases begins <;> simp
  | case3 prev c s prev' d t begins hne hbegins ih =>
    have hnot : beginsWord prev' d (t.head?.or after) = false :=
      Bool.eq_false_iff.mpr fun h => hne (hbegins.trans h.symm)
    have hleft : spelled after prev (c :: s) = '_' :: c.toLower :: spelled after c s := if_pos hbegins
    have hright : spelled after prev' (d :: t) = d.toLower :: spelled after d t := by
      rw [spelled, hnot, if_neg Bool.false_ne_true]
    rw [hleft, hright, Bool.and_eq_true_iff, beq_iff_eq, List.cons.injEq, @eq_comm _ '_' d.toLower,
      toLower_underscore]
    refine and_congr_right ?_
    rintro rfl
    cases t with
    | nil => simp [spelled]
    | cons e t => simp [spelled_letter, ih]
  | case4 prev c s prev' d t begins hne hbegins ih =>
    have hbegins' : beginsWord prev' d (t.head?.or after) = true := by
      rw [Bool.not_eq_true] at hbegins
      exact Bool.eq_true_of_not_eq_false fun h => hne (hbegins.trans h.symm)
    have hright : spelled after prev' (d :: t) = '_' :: d.toLower :: spelled after d t :=
      if_pos hbegins'
    have hleft : spelled after prev (c :: s) = c.toLower :: spelled after c s := by
      rw [spelled, if_neg hbegins]
    rw [hleft, hright, Bool.and_eq_true_iff, beq_iff_eq, List.cons.injEq, toLower_underscore]
    refine and_congr_right ?_
    rintro rfl
    cases s with
    | nil => simp [spelled]
    | cons e s =>
      dsimp only at ih
      simp [spelled_letter, ih]
  | case5 s prev prev' t hnil hcons =>
    have hspelled (c : Char) (s : List Char) (prev : Char) : spelled after prev (c :: s) ≠ [] := by
      rw [spelled]
      split_ifs <;> exact List.cons_ne_nil _ _
    refine iff_of_false Bool.false_ne_true fun heq => ?_
    cases s with
    | nil => cases t with
      | nil => exact hnil rfl rfl
      | cons d t => exact hspelled d t _ heq.symm
    | cons c s => cases t with
      | nil => exact hspelled c s _ heq
      | cons d t => exact hcons c s d t rfl rfl

example : alike none '_' "blockHeight".toList '_' "block_height".toList = true := by decide +kernel

end Spelled

section Identifiers
variable {u : Unicode} {s : List Char}

theorem isName_iff : isName s = true ↔
    (∃ c cs, s = c :: cs ∧ nameStart c = true) ∧ ∀ c ∈ s, nameContinue c = true := by
  cases s with
  | nil => simp [isName]
  | cons c cs =>
    simp only [isName, Bool.and_eq_true, List.all_eq_true, List.mem_cons, forall_eq_or_imp]
    constructor
    · rintro ⟨hc, hcs⟩
      exact ⟨⟨c, cs, rfl, hc⟩, nameContinue_of_start hc, hcs⟩
    · rintro ⟨⟨d, ds, heq, hd⟩, -, hcs⟩
      cases heq
      exact ⟨hd, hcs⟩

theorem opens_ascii {prev : Char} (h : prev.toNat < 128) (c : Char) (next : Option Char) :
    opens u prev c next = beginsWord prev c next := by
  rw [opens, opensAcronym, opensWord, beginsWord, u.isDecimal_ascii prev h]
  cases c.isUpper <;> cases prev.isUpper <;> cases prev.isLower <;> cases prev.isDigit <;> simp

theorem underscored_toList {name : String} (h : isName name.toList = true) :
    (underscored u name).toList =
      (insertBefore '_' beginsWord '_' name.toList).map Char.toLower := by
  obtain ⟨-, hall⟩ := isName_iff.mp h
  have hopens : insertBefore '_' (opens u) '_' name.toList =
      insertBefore '_' beginsWord '_' name.toList := by
    apply insertBefore_congr
    intro p hp
    rcases List.mem_cons.mp hp with rfl | hp
    · exact opens_ascii (by decide)
    · exact opens_ascii (nameContinue_ascii (hall p hp))
  have hmem : ∀ c ∈ insertBefore '_' beginsWord '_' name.toList, nameContinue c = true := by
    intro c hc
    rcases mem_insertBefore hc with rfl | hc
    · decide
    · exact hall c hc
  have hhyphen : (insertBefore '_' beginsWord '_' name.toList).map
      (fun c => if c = '-' then '_' else c) =
        (insertBefore '_' beginsWord '_' name.toList).map id := by
    apply List.map_congr_left
    intro c hc
    rw [if_neg, id]
    rintro rfl
    cases hmem '-' hc
  rw [underscored_inserts, hopens, hhyphen, List.map_id, String.toList_ofList,
    u.toLowercase_ascii _ fun c hc => nameContinue_ascii (hmem c hc)]

theorem underscored_spelled {name : String} (h : isName name.toList = true) :
    (underscored u name).toList = spelled none '_' name.toList := by
  rw [underscored_toList h, spelled_eq]

theorem underscored_isName {name : String} (h : isName name.toList = true) :
    isName (underscored u name).toList = true := by
  rw [underscored_toList h]
  obtain ⟨⟨c, cs, hname, hc⟩, hall⟩ := isName_iff.mp h
  rw [isName_iff, hname, insertBefore]
  have hfirst : beginsWord '_' c cs.head? = false := Bool.and_false _
  rw [hfirst, if_neg Bool.false_ne_true, List.map_cons]
  refine ⟨⟨_, _, rfl, nameStart_toLower hc⟩, ?_⟩
  intro d hd
  rw [← List.map_cons, List.mem_map] at hd
  obtain ⟨e, he, rfl⟩ := hd
  apply nameContinue_toLower
  rcases List.mem_cons.mp he with rfl | he
  · exact nameContinue_of_start hc
  · rcases mem_insertBefore he with rfl | he
    · decide
    · exact hall e (hname ▸ List.mem_cons_of_mem c he)

theorem not_isEmpty {name : String} {c : Char} {cs : List Char} (h : name.toList = c :: cs) :
    name.isEmpty = false := by
  rw [Bool.eq_false_iff, Ne, String.isEmpty_iff]
  rintro rfl
  cases h

theorem validateIdent_name {name : String} (h : isName name.toList = true) :
    validateIdent name = .ok () ↔ name.toList.length ≤ 63 := by
  obtain ⟨⟨c, cs, hname, hc⟩, hall⟩ := isName_iff.mp h
  have hbytes : name.utf8ByteSize = name.toList.length := by
    have := utf8ByteSize_ascii name.toList fun c hc => nameContinue_ascii (hall c hc)
    rwa [String.ofList_toList] at this
  have hempty := not_isEmpty hname
  have hchars : name.toList.all (fun c => c.isAlphanum || c == '_') = true :=
    List.all_eq_true.mpr hall
  have hhead : name.toList.head?.any Char.isDigit = false := by
    rw [hname]
    exact nameStart_not_digit hc
  rw [validateIdent, hempty, hchars, hhead, hbytes]
  split_ifs with hle <;> simpa using hle

end Identifiers

section Plurals

def letters (s : String) : List (Char → Bool) := s.toList.map letter

def endings : List Ending := [
  ⟨false, letters "quiz", [], "zes"⟩,
  ⟨true, letters "ox", [], "en"⟩,
  ⟨false, [anyOf "ml"], letters "ouse", "ice"⟩,
  ⟨false, letters "matr", letters "ix", "ices"⟩,
  ⟨false, letters "matr", letters "ex", "ices"⟩,
  ⟨false, letters "vert", letters "ix", "ices"⟩,
  ⟨false, letters "vert", letters "ex", "ices"⟩,
  ⟨false, letters "ind", letters "ix", "ices"⟩,
  ⟨false, letters "ind", letters "ex", "ices"⟩,
  ⟨false, letters "ch", [], "es"⟩,
  ⟨false, letters "ss", [], "es"⟩,
  ⟨false, letters "sh", [], "es"⟩,
  ⟨false, letters "x", [], "es"⟩,
  ⟨false, letters "qu", letters "y", "ies"⟩,
  ⟨false, [fun d => !anyOf "aeiouy" d], letters "y", "ies"⟩,
  ⟨false, letters "hive", [], "s"⟩,
  ⟨false, [fun d => !anyOf "f" d], letters "fe", "ves"⟩,
  ⟨false, [anyOf "lr"], letters "f", "ves"⟩,
  ⟨false, [], letters "sis", "ses"⟩,
  ⟨false, [anyOf "ti"], letters "um", "a"⟩,
  ⟨false, letters "buffal", letters "o", "oes"⟩,
  ⟨false, letters "tomat", letters "o", "oes"⟩,
  ⟨false, letters "bu", letters "s", "ses"⟩,
  ⟨false, letters "status", [], "es"⟩,
  ⟨false, letters "alias", [], "es"⟩,
  ⟨false, letters "octop", letters "us", "i"⟩,
  ⟨false, letters "vir", letters "us", "i"⟩,
  ⟨false, letters "test", letters "is", "es"⟩,
  ⟨false, letters "ax", letters "is", "es"⟩,
  ⟨false, [], letters "s", "s"⟩,
  ⟨false, [], [], "s"⟩]

theorem rules_regular : ∀ r ∈ rules, r.regular = true := by decide

theorem rules_endings : rules.flatMap SuffixRule.endings = endings := by
  rfl

theorem rules_rewrite (s : List Char) :
    rules.findSome? (·.rewrite s) = endings.findSome? (·.inflect s) := by
  rw [← rules_endings, FirstMatch.findSome_flatMap]
  exact FirstMatch.findSome_congr fun r hr => SuffixRule.rewrite_endings (rules_regular r hr) s

-- How many letters the plural of a name in small letters drops and what it adds for them; the
-- name comes from its last letter on.
def inflection (back : List Char) : Nat × String :=
  let ends (letters : String) : Bool := letters.toList.reverse.isPrefixOf back
  match back.head? with
  | some 's' =>
    if ends "ss" then (0, "es")
    else if ends "sis" then (3, "ses")
    else if ends "bus" then (1, "ses")
    else if ends "status" || ends "alias" then (0, "es")
    else if ends "octopus" || ends "virus" then (2, "i")
    else if ends "testis" || ends "axis" then (2, "es")
    else (1, "s")
  | some 'x' =>
    if back = ['x', 'o'] then (0, "en")
    else if ends "matrix" || ends "matrex" then (2, "ices")
    else if ends "vertix" || ends "vertex" then (2, "ices")
    else if ends "indix" || ends "index" then (2, "ices")
    else (0, "es")
  | some 'y' =>
    if ends "quy" then (1, "ies")
    else if back = ['y'] || ends "ay" || ends "ey" || ends "iy" || ends "oy" || ends "uy" ||
      ends "yy" then (0, "s")
    else (1, "ies")
  | some 'e' =>
    if ends "mouse" || ends "louse" then (4, "ice")
    else if back = ['e', 'f'] || ends "ffe" then (0, "s")
    else if ends "fe" then (2, "ves")
    else (0, "s")
  | some 'h' => if ends "ch" || ends "sh" then (0, "es") else (0, "s")
  | some 'f' => if ends "lf" || ends "rf" then (1, "ves") else (0, "s")
  | some 'm' => if ends "tum" || ends "ium" then (2, "a") else (0, "s")
  | some 'o' => if ends "buffalo" || ends "tomato" then (1, "oes") else (0, "s")
  | some 'z' => if ends "quiz" then (0, "zes") else (0, "s")
  | _ => (0, "s")

structure Plural where
  stem : List Char
  ending : List Char

def plural (name : List Char) : Plural :=
  let small := name.map Char.toLower
  if uncountable.contains (String.ofList small) then ⟨name, []⟩
  else match irregular.lookup (String.ofList small) with
    | some plur => ⟨[], plur.toList⟩
    | none =>
      let change := inflection small.reverse
      ⟨name.take (name.length - change.1), change.2.toList⟩

-- Of two endings one ends in the other; what the longer has before it counts to its name.
def onePlural (a b : List Char) : Bool :=
  let p := plural a
  let q := plural b
  if q.ending.isSuffixOf p.ending then
    alike q.ending.head? '_' (p.stem ++ p.ending.take (p.ending.length - q.ending.length))
      '_' q.stem
  else p.ending.isSuffixOf q.ending &&
    alike p.ending.head? '_' p.stem
      '_' (q.stem ++ q.ending.take (q.ending.length - p.ending.length))

def pluralLength (name : List Char) : Nat :=
  let p := plural name
  p.stem.length + beginnings p.ending.head? '_' p.stem + p.ending.length

def tail (e : Ending) (back : List Char) : Bool :=
  fits (e.stem ++ e.dropped).reverse (back.take e.length) && (!e.whole || back.length == e.length)

def exchange (back : List Char) (es : List Ending) : Option (Nat × String) :=
  (es.find? (tail · back)).map fun e => (e.dropped.length, e.added)

theorem exchange_cons {back : List Char} {e : Ending} {es : List Ending} : exchange back (e :: es) =
    if tail e back then some (e.dropped.length, e.added) else exchange back es := by
  rw [exchange, List.find?_cons]
  cases tail e back <;> rfl

theorem fits_iff {classes : List (Char → Bool)} {s : List Char} :
    fits classes s = true ↔ List.Forall₂ (fun accepts c => accepts c = true) classes s := by
  induction classes generalizing s with
  | nil => cases s <;> simp [fits]
  | cons accepts classes ih => cases s <;> simp [fits, ih]

theorem inflect_tail (e : Ending) (s : List Char) : e.inflect s =
    if tail e s.reverse then some (s.take (s.length - e.dropped.length) ++ e.added.toList)
    else none := by
  have hfits : fits (e.stem ++ e.dropped).reverse (s.reverse.take e.length) =
      fits (e.stem ++ e.dropped) (s.drop (s.length - e.length)) := by
    rw [Bool.eq_iff_iff, fits_iff, fits_iff, List.take_reverse, List.forall₂_reverse_iff]
  rw [tail, hfits, List.length_reverse, Ending.inflect]

theorem findSome_inflect (s : List Char) (es : List Ending) : es.findSome? (·.inflect s) =
    (exchange s.reverse es).map fun change => s.take (s.length - change.1) ++ change.2.toList := by
  induction es with
  | nil => rfl
  | cons e es ih =>
    rw [List.findSome?_cons, inflect_tail, exchange_cons, ih]
    cases tail e s.reverse <;> rfl

theorem letter_small {c d : Char} (hc : c.isLower = true) (hd : d.toNat < 128) :
    letter c d = (d.toLower == c) := by
  have hlong : (d == 'ſ') = false := by
    rw [beq_eq_false_iff_ne]
    rintro rfl
    revert hd
    decide
  have hc' := isLower_iff.mp hc
  have hupper : d = c.toUpper ↔ d.toNat = c.toNat - 32 := by
    rw [← toUpper_toNat hc, Char.toNat_inj]
  rw [Bool.eq_iff_iff, letter, hlong, Bool.and_false, Bool.or_false, Bool.or_eq_true, beq_iff_eq,
    beq_iff_eq, beq_iff_eq, hupper, ← Char.toNat_inj, ← Char.toNat_inj]
  cases hd' : d.isUpper with
  | false =>
    rw [Bool.eq_false_iff, Ne, isUpper_iff] at hd'
    rw [toLower_of_not_upper (by rwa [Bool.eq_false_iff, Ne, isUpper_iff])]
    omega
  | true =>
    have := isUpper_iff.mp hd'
    rw [toLower_toNat hd']
    omega

def endsIn (w : String) (back : List Char) : Bool := w.toList.reverse.isPrefixOf back

section Tails
variable {back : List Char} {w d added : String}

theorem fits_letters {w : List Char} {rest : List (Char → Bool)} (hw : ∀ c ∈ w, c.isLower = true)
    (h : ∀ c ∈ back, c.toNat < 128) :
    fits (w.map letter ++ rest) (back.take (w.length + rest.length)) =
      (w.isPrefixOf (back.map Char.toLower) &&
        fits rest ((back.drop w.length).take rest.length)) := by
  induction w generalizing back with
  | nil => simp
  | cons c w ih =>
    rw [List.forall_mem_cons] at hw
    cases back with
    | nil => simp [fits]
    | cons b back =>
      rw [List.forall_mem_cons] at h
      have hlength : (c :: w).length + rest.length = w.length + rest.length + 1 := by
        rw [List.length_cons]
        omega
      rw [hlength]
      simp only [List.map_cons, List.cons_append, List.take_succ_cons, fits, List.length_cons,
        List.drop_succ_cons, List.isPrefixOf, ih hw.2 h.2, letter_small hw.1 h.1, Bool.and_assoc]
      rw [BEq.comm]

theorem tail_letters {e : Ending} {p : List (Char → Bool)}
    (he : e.stem ++ e.dropped = p ++ letters w) (hw : w.toList.all Char.isLower = true)
    (h : ∀ c ∈ back, c.toNat < 128) : tail e back =
      (endsIn w (back.map Char.toLower) &&
        fits p.reverse ((back.drop w.toList.length).take p.length) &&
        (!e.whole || back.length == e.length)) := by
  have hlower := List.all_eq_true.mp hw
  have hlength : e.length = w.toList.reverse.length + p.reverse.length := by
    have := congrArg List.length he
    simp only [List.length_append, letters, List.length_map] at this
    rw [Ending.length, this, List.length_reverse, List.length_reverse, Nat.add_comm]
  have hclasses : (e.stem ++ e.dropped).reverse = w.toList.reverse.map letter ++ p.reverse := by
    rw [he, List.reverse_append, letters, List.map_reverse]
  rw [tail, hclasses, hlength, fits_letters (fun c hc => hlower c (List.mem_reverse.mp hc)) h, endsIn,
    List.length_reverse, List.length_reverse]

theorem tail_word (hw : (w ++ d).toList.all Char.isLower = true) (h : ∀ c ∈ back, c.toNat < 128) :
    tail ⟨false, letters w, letters d, added⟩ back = endsIn (w ++ d) (back.map Char.toLower) := by
  rw [tail_letters (w := w ++ d) (p := []) (by simp [letters]) hw h]
  simp [fits]

theorem tail_stem (hw : w.toList.all Char.isLower = true) (h : ∀ c ∈ back, c.toNat < 128) :
    tail ⟨false, letters w, [], added⟩ back = endsIn w (back.map Char.toLower) := by
  rw [tail_letters (w := w) (p := []) (by simp) hw h]
  simp [fits]

theorem tail_whole (hw : w.toList.all Char.isLower = true) (h : ∀ c ∈ back, c.toNat < 128) :
    tail ⟨true, letters w, [], added⟩ back = (back.map Char.toLower == w.toList.reverse) := by
  rw [tail_letters (w := w) (p := []) (by simp) hw h, Bool.eq_iff_iff]
  simp only [fits, Bool.and_eq_true, endsIn, List.isPrefixOf_iff_prefix, beq_iff_eq, Ending.length,
    letters, List.length_map, List.length_nil, Nat.add_zero, Bool.not_true, Bool.false_or,
    List.reverse_nil, List.take_zero, and_true]
  constructor
  · rintro ⟨hfront, hlength⟩
    exact (hfront.eq_of_length (by simp [hlength])).symm
  · intro heq
    have hlength := congrArg List.length heq
    rw [List.length_map, List.length_reverse] at hlength
    exact ⟨heq ▸ List.prefix_rfl, hlength⟩

theorem tail_dropped (hw : d.toList.all Char.isLower = true) (h : ∀ c ∈ back, c.toNat < 128) :
    tail ⟨false, [], letters d, added⟩ back = endsIn d (back.map Char.toLower) := by
  rw [tail_letters (w := d) (p := []) (by simp) hw h]
  simp [fits]

theorem tail_class {accepts small : Char → Bool}
    (hsmall : ∀ c : Char, c.toNat < 128 → accepts c = small c.toLower)
    (hw : d.toList.all Char.isLower = true) (h : ∀ c ∈ back, c.toNat < 128) :
    tail ⟨false, [accepts], letters d, added⟩ back = (endsIn d (back.map Char.toLower) &&
      ((back.map Char.toLower).drop d.toList.length).head?.any small) := by
  rw [tail_letters (w := d) (p := [accepts]) rfl hw h, ← List.map_drop]
  cases hrest : back.drop d.toList.length with
  | nil => simp [fits]
  | cons c rest =>
    have hc : c ∈ back := List.mem_of_mem_drop (hrest ▸ List.mem_cons_self)
    simp [fits, hsmall c (h c hc)]

theorem anyOf_small {m : String} (hm : m.toList.all Char.isLower = true) (c : Char)
    (hc : c.toNat < 128) : anyOf m c = m.toList.contains c.toLower := by
  have hlower := List.all_eq_true.mp hm
  rw [Bool.eq_iff_iff, anyOf, List.any_eq_true, List.contains_iff_mem]
  constructor
  · rintro ⟨d, hd, hletter⟩
    rw [letter_small (hlower d hd) hc, beq_iff_eq] at hletter
    rwa [hletter]
  · intro hmem
    exact ⟨_, hmem, by rw [letter_small (hlower _ hmem) hc, beq_self_eq_true]⟩

theorem tail_anyOf {m : String} (hm : m.toList.all Char.isLower = true)
    (hw : d.toList.all Char.isLower = true) (h : ∀ c ∈ back, c.toNat < 128) :
    tail ⟨false, [anyOf m], letters d, added⟩ back = (endsIn d (back.map Char.toLower) &&
      ((back.map Char.toLower).drop d.toList.length).head?.any (m.toList.contains ·)) :=
  tail_class (anyOf_small hm) hw h

theorem tail_noneOf {m : String} (hm : m.toList.all Char.isLower = true)
    (hw : d.toList.all Char.isLower = true) (h : ∀ c ∈ back, c.toNat < 128) :
    tail ⟨false, [fun c => !anyOf m c], letters d, added⟩ back =
      (endsIn d (back.map Char.toLower) &&
        ((back.map Char.toLower).drop d.toList.length).head?.any (!m.toList.contains ·)) :=
  tail_class (fun c hc => by rw [anyOf_small hm c hc]) hw h

theorem tail_last : tail ⟨false, [], [], added⟩ back = true := by simp [tail, fits, Ending.length]

end Tails

theorem exchange_endings (a : Char) (back : List Char) (h : ∀ c ∈ a :: back, c.toNat < 128) :
    exchange (a :: back) endings = some (inflection ((a :: back).map Char.toLower)) := by
  simp only [endings, exchange_cons, tail_last, if_true]
  rw [tail_whole (by decide) h]
  repeat rw [tail_stem (by decide) h]
  repeat rw [tail_word (by decide) h]
  repeat rw [tail_dropped (by decide) h]
  repeat rw [tail_anyOf (by decide) (by decide) h]
  repeat rw [tail_noneOf (by decide) (by decide) h]
  rw [List.map_cons]
  generalize a.toLower = x
  generalize back.map Char.toLower = xs
  by_cases hword : x ∈ ['s', 'x', 'h', 'o', 'z']
  · simp only [List.mem_cons, List.not_mem_nil, or_false] at hword
    rcases hword with rfl | rfl | rfl | rfl | rfl <;>
      simp [endsIn, inflection, letters, apply_ite some, ite_or]
  -- Under these the rules name a class of letters, and the plural the letters of the class.
  by_cases hclass : x ∈ ['f', 'm', 'y', 'e']
  · simp only [List.mem_cons, List.not_mem_nil, or_false] at hclass
    rcases hclass with rfl | rfl | rfl | rfl
    · cases xs <;> simp [endsIn, inflection, letters, apply_ite some, ite_or]
      grind
    · rcases xs with _ | ⟨b, _ | ⟨c, xs⟩⟩ <;>
        simp [endsIn, inflection, letters, apply_ite some, ite_or]
      grind
    · cases xs <;> simp [endsIn, inflection, letters, apply_ite some, ite_or]
      grind
    · rcases xs with _ | ⟨b, _ | ⟨c, _ | ⟨d, _ | ⟨e, xs⟩⟩⟩⟩ <;>
        simp [endsIn, inflection, letters, apply_ite some, ite_or]
      all_goals grind
  · have hlast {c : Char} (hc : c ∈ ['s', 'x', 'h', 'o', 'z'] ∨ c ∈ ['f', 'm', 'y', 'e']) :
        c ≠ x := by
      rintro rfl
      exact hc.elim hword hclass
    simp only [List.mem_cons, List.not_mem_nil, or_false, not_or] at hword hclass
    simp [endsIn, inflection, hword, hclass, hlast]

theorem exchanged {s : List Char} (h : isName s = true) :
    exchange s.reverse endings = some (inflection (s.map Char.toLower).reverse) := by
  obtain ⟨⟨c, cs, hs, -⟩, hall⟩ := isName_iff.mp h
  obtain ⟨a, back, hback⟩ : ∃ a back, s.reverse = a :: back :=
    List.exists_cons_of_ne_nil (by simp [hs])
  have hascii : ∀ c ∈ a :: back, c.toNat < 128 := by
    intro c hc
    exact nameContinue_ascii (hall c (List.mem_reverse.mp (hback ▸ hc)))
  rw [hback, exchange_endings a back hascii, ← hback, List.map_reverse]

theorem inflect_isName {e : Ending} {s plural : List Char} (hs : isName s = true)
    (hadded : isName e.added.toList = true) (h : e.inflect s = some plural) :
    isName plural = true := by
  rw [Ending.inflect] at h
  split_ifs at h
  cases h
  obtain ⟨⟨c, cs, rfl, hc⟩, hall⟩ := isName_iff.mp hs
  obtain ⟨haddedStart, haddedAll⟩ := isName_iff.mp hadded
  rw [isName_iff]
  constructor
  · cases (c :: cs).length - e.dropped.length with
    | zero => exact haddedStart
    | succ n => exact ⟨c, _, rfl, hc⟩
  · intro d hd
    rcases List.mem_append.mp hd with hd | hd
    · exact hall d (List.mem_of_mem_take hd)
    · exact haddedAll d hd

theorem endings_isName : ∀ e ∈ endings, isName e.added.toList = true := by decide

theorem endings_small : ∀ e ∈ endings, e.added.toList.all Char.isLower = true := by decide

theorem inflection_small {s : List Char} (h : isName s = true) :
    ∀ c ∈ (inflection (s.map Char.toLower).reverse).2.toList, c.isLower = true := by
  obtain ⟨e, he, hchange⟩ := Option.map_eq_some_iff.mp (exchanged h)
  rw [← hchange]
  exact List.all_eq_true.mp (endings_small e (List.mem_of_find?_eq_some he))

theorem irregular_spelled : ∀ p ∈ irregular, isName p.2.toList = true ∧
    isName (capitalizeFirst p.2).toList = true ∧ p.2.toList.all Char.isLower = true ∧
    spelled none '_' (capitalizeFirst p.2).toList = spelled none '_' p.2.toList := by decide

theorem plural_small {s : List Char} (h : isName s = true) :
    ∀ c ∈ (plural s).ending, c.isLower = true := by
  rw [plural]
  generalize String.ofList (s.map Char.toLower) = small
  dsimp only
  split_ifs
  · simp
  · cases hirregular : irregular.lookup small with
    | some plur =>
      obtain ⟨-, -, hsmall, -⟩ :=
        irregular_spelled (small, plur) (Assoc.mem_of_lookup hirregular)
      exact List.all_eq_true.mp hsmall
    | none => exact inflection_small h

theorem pluralize_plural {u : Unicode} {name : String} (h : isName name.toList = true) :
    isName (pluralize u name).toList = true ∧ spelled none '_' (pluralize u name).toList =
      spelled none '_' ((plural name.toList).stem ++ (plural name.toList).ending) := by
  obtain ⟨⟨c, cs, hname, -⟩, hall⟩ := isName_iff.mp h
  have hempty := not_isEmpty hname
  have hlower : u.toLowercase name.toList = name.toList.map Char.toLower :=
    u.toLowercase_ascii _ fun c hc => nameContinue_ascii (hall c hc)
  have hinflected := findSome_inflect name.toList endings
  rw [exchanged h, Option.map_some] at hinflected
  rw [pluralize, hempty, if_neg Bool.false_ne_true, hlower, plural]
  generalize String.ofList (name.toList.map Char.toLower) = lower
  dsimp only
  cases huncountable : uncountable.contains lower with
  | true =>
    simp only [if_true, List.append_nil, and_true]
    exact h
  | false =>
    simp only [Bool.false_eq_true, if_false]
    cases hirregular : irregular.lookup lower with
    | some plur =>
      obtain ⟨hplain, hcapital, -, hspelled⟩ :=
        irregular_spelled (lower, plur) (Assoc.mem_of_lookup hirregular)
      dsimp only
      split_ifs
      · exact ⟨hcapital, hspelled⟩
      · exact ⟨hplain, rfl⟩
    | none =>
      dsimp only
      obtain ⟨e, he, hinflect⟩ := List.exists_of_findSome?_eq_some hinflected
      rw [rules_rewrite, hinflected, String.toList_ofList]
      exact ⟨inflect_isName h (endings_isName e he) hinflect, rfl⟩

theorem modelToTableName_spelled {u : Unicode} {name : String} (h : isName name.toList = true) :
    isName (modelToTableName u name).toList = true ∧ (modelToTableName u name).toList =
      spelled (plural name.toList).ending.head? '_' (plural name.toList).stem ++
        (plural name.toList).ending := by
  obtain ⟨hplural, hspelled⟩ := pluralize_plural (u := u) h
  refine ⟨underscored_isName hplural, ?_⟩
  rw [modelToTableName, underscored_spelled hplural, hspelled, spelled_append (plural_small h),
    Option.or_none]

theorem spelled_longer {name more tail : List Char} (h : ∀ c ∈ more, c.isLower = true) :
    spelled (more ++ tail).head? '_' name ++ (more ++ tail) =
      spelled tail.head? '_' (name ++ more) ++ tail := by
  rw [spelled_append h, List.head?_append, List.append_assoc]

theorem onePlural_iff {a b : List Char} (ha : isName a = true) (hb : isName b = true) :
    onePlural a b = true ↔
      spelled (plural a).ending.head? '_' (plural a).stem ++ (plural a).ending =
        spelled (plural b).ending.head? '_' (plural b).stem ++ (plural b).ending := by
  have hsmall := plural_small ha
  have hsmall' := plural_small hb
  rw [onePlural]
  generalize plural a = p at *
  generalize plural b = q at *
  obtain ⟨p, g⟩ := p
  obtain ⟨q, h⟩ := q
  dsimp only at *
  split_ifs with hend
  · obtain ⟨more, rfl⟩ := List.isSuffixOf_iff_suffix.mp hend
    have hmore : (more ++ h).take ((more ++ h).length - h.length) = more := by simp
    rw [hmore, alike_iff, spelled_longer (List.forall_mem_append.mp hsmall).1,
      List.append_cancel_right_eq]
  · rw [Bool.and_eq_true_iff, List.isSuffixOf_iff_suffix]
    rw [List.isSuffixOf_iff_suffix] at hend
    constructor
    · rintro ⟨⟨more, rfl⟩, halike⟩
      have hmore : (more ++ g).take ((more ++ g).length - g.length) = more := by simp
      rw [hmore, alike_iff] at halike
      rw [halike, spelled_longer (List.forall_mem_append.mp hsmall').1]
    · intro heq
      obtain ⟨more, -, hg⟩ | ⟨more, hq, rfl⟩ := List.append_eq_append_iff.mp heq
      · exact absurd ⟨more, hg.symm⟩ hend
      · refine ⟨⟨more, rfl⟩, ?_⟩
        have hmore : (more ++ g).take ((more ++ g).length - g.length) = more := by simp
        rw [spelled_longer (List.forall_mem_append.mp hsmall').1,
          List.append_cancel_right_eq] at heq
        rwa [hmore, alike_iff]

example : onePlural "Axe".toList "Axis".toList = true := by decide +kernel

end Plurals

end SuperqueryNode.Store

import SuperqueryNode.Lib.JsonNumeral

namespace Json

theorem induction {motive : Json → Prop} (null : motive null) (bool : ∀ b, motive (bool b))
    (number : ∀ n, motive (number n)) (string : ∀ s, motive (string s))
    (array : ∀ items, (∀ v ∈ items, motive v) → motive (array items))
    (object : ∀ fields, (∀ p ∈ fields, motive p.2) → motive (object fields)) (v : Json) :
    motive v :=
  @Json.rec motive (fun items => ∀ v ∈ items, motive v) (fun fields => ∀ p ∈ fields, motive p.2)
    (fun p => motive p.2) null bool number string array object
    (fun _ hv => absurd hv List.not_mem_nil)
    (fun _ _ hv hitems => List.forall_mem_cons.mpr ⟨hv, hitems⟩)
    (fun _ hp => absurd hp List.not_mem_nil)
    (fun _ _ hp hfields => List.forall_mem_cons.mpr ⟨hp, hfields⟩) (fun _ _ hv => hv) v

-- The values a program can hold: numbers of 64 bits, and one field for each key.
inductive WellFormed : Json → Prop
  | null : WellFormed null
  | bool (b : Bool) : WellFormed (bool b)
  | number {n : JsonNumber} : JsonText.Valid n → WellFormed (number n)
  | string (s : String) : WellFormed (string s)
  | array {items : List Json} : (∀ v ∈ items, WellFormed v) → WellFormed (array items)
  | object {fields : List (String × Json)} : (fields.map (·.1)).Nodup →
      (∀ p ∈ fields, WellFormed p.2) → WellFormed (object fields)

mutual

def strings : Json → List String
  | string s => [s]
  | array items => stringsOfItems items
  | object fields => stringsOfFields fields
  | _ => []

def stringsOfItems : List Json → List String
  | [] => []
  | v :: items => strings v ++ stringsOfItems items

def stringsOfFields : List (String × Json) → List String
  | [] => []
  | (k, v) :: fields => k :: strings v ++ stringsOfFields fields

end

end Json

namespace JsonText
open Json Radix

inductive Token where
  | beginArray
  | endArray
  | beginObject
  | endObject
  | comma
  | colon
  | null
  | bool (b : Bool)
  | number (n : JsonNumber)
  | string (s : String)
deriving DecidableEq, Repr

mutual

def tokens : Json → List Token
  | .null => [.null]
  | .bool b => [.bool b]
  | .number n => [.number n]
  | .string s => [.string s]
  | .array items => .beginArray :: itemTokens items
  | .object fields => .beginObject :: fieldTokens fields

def itemTokens : List Json → List Token
  | [] => [.endArray]
  | v :: items => tokens v ++ moreItems items

def moreItems : List Json → List Token
  | [] => [.endArray]
  | v :: items => .comma :: (tokens v ++ moreItems items)

def fieldTokens : List (String × Json) → List Token
  | [] => [.endObject]
  | (k, v) :: fields => .string k :: .colon :: (tokens v ++ moreFields fields)

def moreFields : List (String × Json) → List Token
  | [] => [.endObject]
  | (k, v) :: fields => .comma :: .string k :: .colon :: (tokens v ++ moreFields fields)

end

-- serde's escapes: a letter for some characters, a code for the other control characters.
def escapeLetter : Char → Option Char
  | '"' => some '"'
  | '\\' => some '\\'
  | '\x08' => some 'b'
  | '\t' => some 't'
  | '\n' => some 'n'
  | '\x0c' => some 'f'
  | '\r' => some 'r'
  | _ => none

def escape (c : Char) : List Char :=
  match escapeLetter c with
  | some letter => ['\\', letter]
  | none =>
    if c.toNat < 32 then
      ['\\', 'u', '0', '0', Nat.digitChar (c.toNat / 16), Nat.digitChar (c.toNat % 16)]
    else [c]

def quote (s : String) : List Char := '"' :: (s.toList.flatMap escape ++ ['"'])

def nullText : List Char := ['n', 'u', 'l', 'l']

def trueText : List Char := ['t', 'r', 'u', 'e']

def falseText : List Char := ['f', 'a', 'l', 's', 'e']

def Token.text (floats : FloatText) : Token → List Char
  | beginArray => ['[']
  | endArray => [']']
  | beginObject => ['{']
  | endObject => ['}']
  | comma => [',']
  | colon => [':']
  | null => nullText
  | bool b => if b then trueText else falseText
  | number n => numberText floats n
  | string s => quote s

def texts (floats : FloatText) (ts : List Token) : List Char := ts.flatMap (Token.text floats)

def print (floats : FloatText) (v : Json) : List Char := texts floats (tokens v)

section Lexer
variable (floats : FloatText)

def letterMeaning : Char → Option Char
  | '"' => some '"'
  | '\\' => some '\\'
  | '/' => some '/'
  | 'b' => some '\x08'
  | 'f' => some '\x0c'
  | 'n' => some '\n'
  | 'r' => some '\r'
  | 't' => some '\t'
  | _ => none

def isBlank (c : Char) : Bool := c ∈ [' ', '\t', '\n', '\r']

def punctuation : Char → Option Token
  | '[' => some .beginArray
  | ']' => some .endArray
  | '{' => some .beginObject
  | '}' => some .endObject
  | ',' => some .comma
  | ':' => some .colon
  | _ => none

def isWord (c : Char) : Bool := c.isAlphanum || c ∈ ['+', '-', '.']

def word (text : List Char) : Option Token :=
  if text = nullText then some .null
  else if text = trueText then some (.bool true)
  else if text = falseText then some (.bool false)
  else (readNumber floats text).map .number

-- Where the lexer stands: between tokens, in a word, or in a string. Of an escape it keeps how
-- many digits are left and their value, and a first surrogate that waits for its second.
inductive Mode where
  | between
  | word (read : List Char)
  | text (read : List Char)
  | escape (read : List Char) (first : Option Nat)
  | code (read : List Char) (first : Option Nat) (left value : Nat)
  | second (read : List Char) (first : Nat)
deriving DecidableEq, Repr

def begin (c : Char) : Option (List Token × Mode) :=
  if isBlank c then some ([], .between)
  else if c = '"' then some ([], .text [])
  else if isWord c then some ([], .word [c])
  else (punctuation c).map fun token => ([token], .between)

def unit (read : List Char) (first : Option Nat) (n : Nat) : Option Mode :=
  match first with
  | none =>
    if 0xd800 ≤ n ∧ n < 0xdc00 then some (.second read n)
    else if 0xdc00 ≤ n ∧ n < 0xe000 then none
    else some (.text (read ++ [Char.ofNat n]))
  | some m =>
    if 0xdc00 ≤ n ∧ n < 0xe000 then
      some (.text (read ++ [Char.ofNat (0x10000 + (m - 0xd800) * 0x400 + (n - 0xdc00))]))
    else none

def digit (read : List Char) (first : Option Nat) (left value : Nat) : Option Mode :=
  match left with
  | 0 => unit read first value
  | left + 1 => some (.code read first left value)

def next : Mode → Char → Option (List Token × Mode)
  | .between, c => begin c
  | .word read, c =>
    if isWord c then some ([], .word (read ++ [c]))
    else (word floats read).bind fun token => (begin c).map fun p => (token :: p.1, p.2)
  | .text read, c =>
    if c = '"' then some ([.string (String.ofList read)], .between)
    else if c = '\\' then some ([], .escape read none)
    else if c.toNat < 32 then none
    else some ([], .text (read ++ [c]))
  | .escape read first, c =>
    if c = 'u' then some ([], .code read first 3 0)
    else if first.isSome then none
    else (letterMeaning c).map fun meaning => ([], .text (read ++ [meaning]))
  | .code read first left value, c =>
    (toDigit 16 c).bind fun d => (digit read first left (16 * value + d)).map ([], ·)
  | .second read first, c => if c = '\\' then some ([], .escape read (some first)) else none

def finish : Mode → Option (List Token)
  | .between => some []
  | .word read => (word floats read).map ([·])
  | _ => none

def lex : Mode → List Char → Option (List Token)
  | mode, [] => finish floats mode
  | mode, c :: text =>
    (next floats mode c).bind fun p => (lex p.2 text).map (p.1 ++ ·)

end Lexer

section Words
variable {floats : FloatText} {c : Char} {token : Token} {read text rest : List Char}

theorem lex_silent {mode mode' : Mode} (h : next floats mode c = some ([], mode'))
    (rest : List Char) : lex floats mode (c :: rest) = lex floats mode' rest := by
  rw [lex, h, Option.bind_some]
  cases lex floats mode' rest <;> rfl

def Ends (rest : List Char) : Prop := ∀ c ∈ rest.head?, isWord c = false

theorem begin_word (h : isWord c = true) : begin c = some ([], .word [c]) := by
  have hblank : isBlank c = false := by
    by_contra hb
    simp only [isBlank, List.mem_cons, List.not_mem_nil, or_false, Bool.not_eq_false,
      decide_eq_true_eq] at hb
    rcases hb with rfl | rfl | rfl | rfl <;> exact absurd h (by decide)
  have hquote : c ≠ '"' := by
    rintro rfl
    exact absurd h (by decide)
  rw [begin, hblank, if_neg Bool.false_ne_true, if_neg hquote, if_pos h]

theorem lex_word (h : ∀ c ∈ text, isWord c = true) :
    lex floats (.word read) (text ++ rest) = lex floats (.word (read ++ text)) rest := by
  induction text generalizing read with
  | nil => rw [List.nil_append, List.append_nil]
  | cons c text ih =>
    obtain ⟨hc, htext⟩ := List.forall_mem_cons.mp h
    rw [List.cons_append, lex_silent (by rw [next, if_pos hc]), ih htext, List.append_assoc]
    rfl

theorem lex_wordEnd (h : Ends rest) (hread : word floats read = some token) :
    lex floats (.word read) rest = (lex floats .between rest).map (token :: ·) := by
  cases rest with
  | nil => simp [lex, finish, hread]
  | cons c rest =>
    have hc : isWord c = false := h c rfl
    rw [lex, lex, next, next, hc, if_neg Bool.false_ne_true, hread]
    cases begin c with
    | none => rfl
    | some p =>
      simp only [Option.bind_some, Option.map_some, Option.map_map]
      rfl

end Words

section Strings
variable {floats : FloatText} {c : Char} {read rest : List Char}

theorem letterMeaning_of {letter : Char} (h : escapeLetter c = some letter) :
    letterMeaning letter = some c ∧ letter ≠ 'u' := by
  unfold escapeLetter at h
  split at h <;> cases h <;> decide

theorem escapeLetter_none (h : escapeLetter c = none) : c ≠ '"' ∧ c ≠ '\\' := by
  constructor <;> rintro rfl <;> cases h

theorem lex_code (h : c.toNat < 32) (rest : List Char) :
    lex floats (.text read) (['\\', 'u', '0', '0', Nat.digitChar (c.toNat / 16),
      Nat.digitChar (c.toNat % 16)] ++ rest) = lex floats (.text (read ++ [c])) rest := by
  have hhigh : toDigit 16 (Nat.digitChar (c.toNat / 16)) = some (c.toNat / 16) :=
    toDigit_digitChar Nat.le.refl (by omega)
  have hlow : toDigit 16 (Nat.digitChar (c.toNat % 16)) = some (c.toNat % 16) :=
    toDigit_digitChar Nat.le.refl (by omega)
  have hfirst : next floats (.code read none 1 0) (Nat.digitChar (c.toNat / 16)) =
      some ([], .code read none 0 (c.toNat / 16)) := by
    rw [next, hhigh, Option.bind_some, Nat.mul_zero, Nat.zero_add]
    rfl
  have hsecond : next floats (.code read none 0 (c.toNat / 16)) (Nat.digitChar (c.toNat % 16)) =
      some ([], .text (read ++ [c])) := by
    rw [next, hlow, Option.bind_some, Nat.div_add_mod, digit, unit, if_neg (by omega),
      if_neg (by omega), Char.ofNat_toNat]
    rfl
  have hslash : next floats (.text read) '\\' = some ([], .escape read none) := rfl
  have hu : next floats (.escape read none) 'u' = some ([], .code read none 3 0) := rfl
  have hzero (left : Nat) : next floats (.code read none (left + 1) 0) '0' =
      some ([], .code read none left 0) := rfl
  simp only [List.cons_append, List.nil_append]
  rw [lex_silent hslash, lex_silent hu, lex_silent (hzero 2), lex_silent (hzero 1),
    lex_silent hfirst, lex_silent hsecond]

theorem lex_escape (c : Char) (rest : List Char) : lex floats (.text read) (escape c ++ rest) =
    lex floats (.text (read ++ [c])) rest := by
  rw [escape]
  cases hletter : escapeLetter c with
  | some letter =>
    obtain ⟨hmeaning, hu⟩ := letterMeaning_of hletter
    have hslash : next floats (.text read) '\\' = some ([], .escape read none) := rfl
    have hescape : next floats (.escape read none) letter = some ([], .text (read ++ [c])) := by
      rw [next, if_neg hu, hmeaning]
      rfl
    exact (lex_silent hslash _).trans (lex_silent hescape rest)
  | none =>
    obtain ⟨hquote, hslash⟩ := escapeLetter_none hletter
    split_ifs with hcontrol
    · exact lex_code hcontrol rest
    · exact lex_silent (by rw [next, if_neg hquote, if_neg hslash, if_neg hcontrol]) rest

theorem lex_quoted (s : List Char) : lex floats (.text read) (s.flatMap escape ++ '"' :: rest) =
    (lex floats .between rest).map (.string (String.ofList (read ++ s)) :: ·) := by
  induction s generalizing read with
  | nil => rw [List.append_nil]; rfl
  | cons c s ih =>
    rw [List.flatMap_cons, List.append_assoc, lex_escape, ih, List.append_assoc]
    rfl

end Strings

section Lexemes
variable {floats : FloatText} {token : Token} {text text' : List Char} {ts ts' : List Token}

def Lexes (floats : FloatText) (text : List Char) (ts : List Token) : Prop :=
  ∀ rest, Ends rest → lex floats .between (text ++ rest) =
    (lex floats .between rest).map (ts ++ ·)

def Delimits (text : List Char) : Prop := ∃ c rest, text = c :: rest ∧ isWord c = false

theorem ends_append (h : Delimits text) (rest : List Char) : Ends (text ++ rest) := by
  obtain ⟨c, text, rfl, hc⟩ := h
  rintro _ ⟨⟩
  exact hc

theorem lexes_append (h : Lexes floats text ts) (h' : Lexes floats text' ts')
    (hdelimits : Delimits text') : Lexes floats (text ++ text') (ts ++ ts') := by
  intro rest hrest
  rw [List.append_assoc, h _ (ends_append hdelimits rest), h' rest hrest, Option.map_map]
  simp only [Function.comp_def, List.append_assoc]

theorem lexes_punctuation {c : Char} (hc : begin c = some ([token], .between))
    (h : Lexes floats text ts) : Lexes floats (c :: text) (token :: ts) := by
  intro rest hrest
  rw [List.cons_append, lex, next, hc, Option.bind_some, h rest hrest, Option.map_map]
  rfl

theorem lexes_nil : Lexes floats [] [] := by
  intro rest _
  rw [List.nil_append]
  cases lex floats .between rest <;> rfl

theorem lexes_word (hne : text ≠ []) (hword : ∀ c ∈ text, isWord c = true)
    (htoken : word floats text = some token) : Lexes floats text [token] := by
  intro rest hrest
  obtain ⟨c, text, rfl⟩ := List.exists_cons_of_ne_nil hne
  obtain ⟨hc, htext⟩ := List.forall_mem_cons.mp hword
  rw [List.cons_append, lex_silent (by rw [next, begin_word hc]), lex_word htext,
    List.singleton_append, lex_wordEnd hrest htoken]
  rfl

theorem lexes_string (s : String) (h : Lexes floats text ts) :
    Lexes floats (quote s ++ text) (.string s :: ts) := by
  intro rest hrest
  have hopen : next floats .between '"' = some ([], .text []) := rfl
  rw [quote, List.cons_append, List.cons_append, List.append_assoc, List.append_assoc,
    lex_silent hopen, List.singleton_append, lex_quoted, List.nil_append, String.ofList_toList,
    h rest hrest, Option.map_map]
  rfl

theorem isWord_number {c : Char} (h : c ∈ numberChars) : isWord c = true := by
  have hall : ∀ c ∈ numberChars, isWord c = true := List.all_eq_true.mp rfl
  exact hall c h

theorem word_number {n : JsonNumber} (h : Valid n) :
    word floats (numberText floats n) = some (.number n) := by
  have hletters : 'n' ∉ numberChars ∧ 't' ∉ numberChars ∧ 'f' ∉ numberChars := by decide
  have hne (s : List Char) (c : Char) (hs : c ∈ s) (hc : c ∉ numberChars) :
      numberText floats n ≠ s := fun heq =>
    hc ((numberText_chars n h).2 c (heq ▸ hs))
  rw [word, if_neg (hne _ 'n' (by decide) hletters.1), if_neg (hne _ 't' (by decide) hletters.2.1),
    if_neg (hne _ 'f' (by decide) hletters.2.2), readNumber_text n h]
  rfl

end Lexemes

section Printed
variable {floats : FloatText} {token : Token} {ts ts' : List Token} {c : Char}

def Printed (floats : FloatText) (ts : List Token) : Prop := Lexes floats (texts floats ts) ts

theorem printed_append (h : Printed floats ts) (h' : Printed floats ts')
    (hdelimits : Delimits (texts floats ts')) : Printed floats (ts ++ ts') := by
  rw [Printed, texts, List.flatMap_append]
  exact lexes_append h h' hdelimits

theorem printed_punctuation (htext : token.text floats = [c])
    (hc : begin c = some ([token], .between)) (h : Printed floats ts) :
    Printed floats (token :: ts) := by
  rw [Printed, texts, List.flatMap_cons, htext]
  exact lexes_punctuation hc h

theorem printed_string (s : String) (h : Printed floats ts) : Printed floats (.string s :: ts) :=
  lexes_string s h

theorem delimits_punctuation (htext : token.text floats = [c]) (hc : isWord c = false)
    (ts : List Token) : Delimits (texts floats (token :: ts)) :=
  ⟨c, texts floats ts, by rw [texts, List.flatMap_cons, htext]; rfl, hc⟩

theorem printed_moreItems {items : List Json} (h : ∀ v ∈ items, Printed floats (tokens v)) :
    Printed floats (moreItems items) ∧ Delimits (texts floats (moreItems items)) := by
  induction items with
  | nil =>
    rw [moreItems]
    exact ⟨printed_punctuation rfl rfl lexes_nil, delimits_punctuation rfl rfl []⟩
  | cons v items ih =>
    obtain ⟨hv, hitems⟩ := List.forall_mem_cons.mp h
    obtain ⟨hmore, hdelimits⟩ := ih hitems
    rw [moreItems]
    exact ⟨printed_punctuation rfl rfl (printed_append hv hmore hdelimits),
      delimits_punctuation rfl rfl _⟩

theorem printed_array {items : List Json} (h : ∀ v ∈ items, Printed floats (tokens v)) :
    Printed floats (tokens (.array items)) := by
  rw [tokens]
  refine printed_punctuation rfl rfl ?_
  cases items with
  | nil =>
    rw [itemTokens]
    exact printed_punctuation rfl rfl lexes_nil
  | cons v items =>
    obtain ⟨hv, hitems⟩ := List.forall_mem_cons.mp h
    obtain ⟨hmore, hdelimits⟩ := printed_moreItems hitems
    rw [itemTokens]
    exact printed_append hv hmore hdelimits

theorem printed_field (key : String) {v : Json} (h : Printed floats (tokens v))
    (hts : Printed floats ts) (hdelimits : Delimits (texts floats ts)) :
    Printed floats (.string key :: .colon :: (tokens v ++ ts)) :=
  printed_string key (printed_punctuation rfl rfl (printed_append h hts hdelimits))

theorem printed_moreFields {fields : List (String × Json)}
    (h : ∀ p ∈ fields, Printed floats (tokens p.2)) :
    Printed floats (moreFields fields) ∧ Delimits (texts floats (moreFields fields)) := by
  induction fields with
  | nil =>
    rw [moreFields]
    exact ⟨printed_punctuation rfl rfl lexes_nil, delimits_punctuation rfl rfl []⟩
  | cons p fields ih =>
    obtain ⟨hp, hfields⟩ := List.forall_mem_cons.mp h
    obtain ⟨hmore, hdelimits⟩ := ih hfields
    rw [moreFields]
    exact ⟨printed_punctuation rfl rfl (printed_field p.1 hp hmore hdelimits),
      delimits_punctuation rfl rfl _⟩

theorem printed_object {fields : List (String × Json)}
    (h : ∀ p ∈ fields, Printed floats (tokens p.2)) :
    Printed floats (tokens (.object fields)) := by
  rw [tokens]
  refine printed_punctuation rfl rfl ?_
  cases fields with
  | nil =>
    rw [fieldTokens]
    exact printed_punctuation rfl rfl lexes_nil
  | cons p fields =>
    obtain ⟨hp, hfields⟩ := List.forall_mem_cons.mp h
    obtain ⟨hmore, hdelimits⟩ := printed_moreFields hfields
    rw [fieldTokens]
    exact printed_field p.1 hp hmore hdelimits

theorem printed_word (text : List Char) (htext : token.text floats = text) (hne : text ≠ [])
    (hword : text.all isWord = true) (htoken : word floats text = some token) :
    Printed floats [token] := by
  rw [Printed, texts, List.flatMap_singleton, htext]
  exact lexes_word hne (List.all_eq_true.mp hword) htoken

theorem printed {v : Json} (hv : v.WellFormed) : Printed floats (tokens v) := by
  induction v using Json.induction with
  | null => exact printed_word nullText rfl (by decide) rfl rfl
  | bool b =>
    cases b with
    | false => exact printed_word falseText rfl (by decide) rfl rfl
    | true => exact printed_word trueText rfl (by decide) rfl rfl
  | number n =>
    cases hv with
    | number hn =>
      obtain ⟨hne, hchars⟩ := numberText_chars n hn
      have hword := List.all_eq_true.mpr fun c hc => isWord_number (hchars c hc)
      exact printed_word _ rfl hne hword (word_number hn)
  | string s => exact printed_string s lexes_nil
  | array items ih =>
    cases hv with
    | array hitems => exact printed_array fun v hv => ih v hv (hitems v hv)
  | object fields ih =>
    cases hv with
    | object _ hfields => exact printed_object fun p hp => ih p hp (hfields p hp)

end Printed

section Length
variable {floats : FloatText} {mode mode' : Mode} {c : Char} {token : Token} {ts : List Token}
  {s : String} {text : List Char}

-- How much of a string that is being read has been seen, its quote included.
def Mode.pending : Mode → Nat
  | .between => 0
  | .word _ => 0
  | .text read => read.length + 1
  | .escape read _ => read.length + 1
  | .code read _ _ _ => read.length + 1
  | .second read _ => read.length + 1

def Short (n : Nat) (ts : List Token) : Prop := ∀ s, .string s ∈ ts → s.length + 2 ≤ n

theorem short_nil (n : Nat) : Short n [] := fun _ hs => absurd hs List.not_mem_nil

theorem short_cons {n : Nat} (h : ∀ s, token ≠ .string s) (hts : Short n ts) :
    Short n (token :: ts) := by
  intro s hs
  rcases List.mem_cons.mp hs with heq | hs
  · exact absurd heq.symm (h s)
  · exact hts s hs

theorem word_ne_string {read : List Char} (h : word floats read = some token) (s : String) :
    token ≠ .string s := by
  rintro rfl
  rw [word] at h
  split_ifs at h
  · cases h
  · cases h
  · cases h
  · obtain ⟨n, -, hn⟩ := Option.map_eq_some_iff.mp h
    cases hn

theorem punctuation_ne_string (h : punctuation c = some token) (s : String) :
    token ≠ .string s := by
  rintro rfl
  unfold punctuation at h
  split at h <;> cases h

theorem begin_short (h : begin c = some (ts, mode)) : mode.pending ≤ 1 ∧ ∀ n, Short n ts := by
  rw [begin] at h
  split_ifs at h
  · cases h
    exact ⟨Nat.zero_le _, short_nil⟩
  · cases h
    exact ⟨Nat.le_refl _, short_nil⟩
  · cases h
    exact ⟨Nat.zero_le _, short_nil⟩
  · obtain ⟨token, htoken, h⟩ := Option.map_eq_some_iff.mp h
    cases h
    exact ⟨Nat.zero_le _, fun n => short_cons (punctuation_ne_string htoken) (short_nil n)⟩

theorem unit_pending {read : List Char} {first : Option Nat} {n : Nat}
    (h : unit read first n = some mode) : mode.pending ≤ read.length + 2 := by
  unfold unit at h
  split at h
  all_goals split_ifs at h
  all_goals cases h
  all_goals simp [Mode.pending]

theorem next_short (h : next floats mode c = some (ts, mode')) :
    mode'.pending ≤ mode.pending + 1 ∧ Short (mode.pending + 1) ts := by
  cases mode with
  | between =>
    obtain ⟨hpending, hshort⟩ := begin_short h
    exact ⟨hpending, hshort _⟩
  | word read =>
    rw [next] at h
    split_ifs at h
    · cases h
      exact ⟨Nat.zero_le _, short_nil _⟩
    · obtain ⟨token, htoken, h⟩ := Option.bind_eq_some_iff.mp h
      obtain ⟨p, hp, h⟩ := Option.map_eq_some_iff.mp h
      cases h
      obtain ⟨hpending, hshort⟩ := begin_short hp
      exact ⟨hpending, short_cons (word_ne_string htoken) (hshort _)⟩
  | text read =>
    rw [next] at h
    split_ifs at h
    · cases h
      refine ⟨Nat.zero_le _, fun s hs => ?_⟩
      cases List.mem_singleton.mp hs
      simp [Mode.pending]
    · cases h
      exact ⟨Nat.le_succ _, short_nil _⟩
    · cases h
      exact ⟨by simp [Mode.pending], short_nil _⟩
  | escape read first =>
    rw [next] at h
    split_ifs at h
    · cases h
      exact ⟨Nat.le_succ _, short_nil _⟩
    · obtain ⟨meaning, -, h⟩ := Option.map_eq_some_iff.mp h
      cases h
      exact ⟨by simp [Mode.pending], short_nil _⟩
  | code read first left value =>
    rw [next] at h
    obtain ⟨d, -, h⟩ := Option.bind_eq_some_iff.mp h
    obtain ⟨after, hafter, h⟩ := Option.map_eq_some_iff.mp h
    cases h
    refine ⟨?_, short_nil _⟩
    cases left with
    | zero => exact unit_pending hafter
    | succ left =>
      cases hafter
      exact Nat.le_succ _
  | second read first =>
    rw [next] at h
    split_ifs at h
    cases h
    exact ⟨Nat.le_succ _, short_nil _⟩

theorem lex_short (h : lex floats mode text = some ts) :
    Short (mode.pending + text.length) ts := by
  induction text generalizing mode ts with
  | nil =>
    cases mode with
    | between =>
      cases h
      exact short_nil _
    | word read =>
      obtain ⟨token, htoken, rfl⟩ := Option.map_eq_some_iff.mp h
      exact short_cons (word_ne_string htoken) (short_nil _)
    | _ => cases h
  | cons c text ih =>
    rw [lex] at h
    obtain ⟨⟨now, mode'⟩, hnext, h⟩ := Option.bind_eq_some_iff.mp h
    obtain ⟨later, hlater, rfl⟩ := Option.map_eq_some_iff.mp h
    obtain ⟨hpending, hnow⟩ := next_short hnext
    intro s hs
    rw [List.length_cons]
    rcases List.mem_append.mp hs with hs | hs
    · have := hnow s hs
      omega
    · have := ih hlater s hs
      simp only at hpending this
      omega

end Length

end JsonText

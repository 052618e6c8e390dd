import Mathlib.Data.List.Basic

namespace Conninfo

abbrev Entry := List Char × List Char

inductive State where
  | between (read : List Entry)
  | keyword (read : List Entry) (key : List Char)
  | afterKeyword (read : List Entry) (key : List Char)
  | afterEquals (read : List Entry) (key : List Char)
  | bare (read : List Entry) (key value : List Char)
  | bareEscape (read : List Entry) (key value : List Char)
  | quoted (read : List Entry) (key value : List Char)
  | quotedEscape (read : List Entry) (key value : List Char)
  | failed
deriving DecidableEq, Repr

def isSpace (c : Char) : Bool := c = ' ' || decide (9 ≤ c.toNat ∧ c.toNat ≤ 13)

def step : State → Char → State
  | .between read, c =>
    if isSpace c then .between read
    else if c = '=' then .afterEquals read []
    else .keyword read [c]
  | .keyword read key, c =>
    if c = '=' then .afterEquals read key
    else if isSpace c then .afterKeyword read key
    else .keyword read (key ++ [c])
  | .afterKeyword read key, c =>
    if isSpace c then .afterKeyword read key
    else if c = '=' then .afterEquals read key
    else .failed
  | .afterEquals read key, c =>
    if isSpace c then .afterEquals read key
    else if c = '\'' then .quoted read key []
    else if c = '\\' then .bareEscape read key []
    else .bare read key [c]
  | .bare read key value, c =>
    if isSpace c then .between (read ++ [(key, value)])
    else if c = '\\' then .bareEscape read key value
    else .bare read key (value ++ [c])
  | .bareEscape read key value, c => .bare read key (value ++ [c])
  | .quoted read key value, c =>
    if c = '\\' then .quotedEscape read key value
    else if c = '\'' then .between (read ++ [(key, value)])
    else .quoted read key (value ++ [c])
  | .quotedEscape read key value, c => .quoted read key (value ++ [c])
  | .failed, _ => .failed

-- A text may end in a value outside quotes, but not inside quotes or before an equals sign.
def finish : State → Option (List Entry)
  | .between read => some read
  | .afterEquals read key => some (read ++ [(key, [])])
  | .bare read key value => some (read ++ [(key, value)])
  | .bareEscape read key value => some (read ++ [(key, value)])
  | _ => none

def parse (s : List Char) : Option (List Entry) := finish (s.foldl step (.between []))

def entries (s : String) : Option (List (String × String)) :=
  (parse s.toList).map fun read => read.map fun e => (String.ofList e.1, String.ofList e.2)

def escapeChar (c : Char) : List Char := if c = '\\' ∨ c = '\'' then ['\\', c] else [c]

def escape (value : List Char) : List Char := value.flatMap escapeChar

def quotedEntry (key value : List Char) : List Char :=
  key ++ ['='] ++ ('\'' :: escape value ++ ['\''])

def bareEntry (key value : List Char) : List Char := key ++ ['='] ++ (value ++ [' '])

def Plain (text : List Char) : Prop :=
  ∀ c ∈ text, isSpace c = false ∧ c ≠ '=' ∧ c ≠ '\\' ∧ c ≠ '\''

instance (text : List Char) : Decidable (Plain text) := List.decidableBAll _ text

section Reading
variable {read : List Entry} {key value text : List Char} {c : Char}

theorem read_keyword (h : Plain text) :
    text.foldl step (.keyword read key) = .keyword read (key ++ text) := by
  induction text generalizing key with
  | nil => rw [List.foldl_nil, List.append_nil]
  | cons c text ih =>
    obtain ⟨⟨hspace, hequals, _⟩, htext⟩ := List.forall_mem_cons.mp h
    rw [List.foldl_cons, step, if_neg hequals, hspace, if_neg Bool.false_ne_true, ih htext,
      List.append_assoc]
    rfl

theorem read_bare (h : Plain text) :
    text.foldl step (.bare read key value) = .bare read key (value ++ text) := by
  induction text generalizing value with
  | nil => rw [List.foldl_nil, List.append_nil]
  | cons c text ih =>
    obtain ⟨⟨hspace, _, hescape, _⟩, htext⟩ := List.forall_mem_cons.mp h
    rw [List.foldl_cons, step, hspace, if_neg Bool.false_ne_true, if_neg hescape, ih htext,
      List.append_assoc]
    rfl

theorem read_escapeChar (c : Char) :
    (escapeChar c).foldl step (.quoted read key value) = .quoted read key (value ++ [c]) := by
  rw [escapeChar]
  split_ifs with h
  · rfl
  · obtain ⟨hescape, hquote⟩ := not_or.mp h
    rw [List.foldl_cons, step, if_neg hescape, if_neg hquote]
    rfl

theorem read_escape (text : List Char) :
    (escape text).foldl step (.quoted read key value) = .quoted read key (value ++ text) := by
  induction text generalizing value with
  | nil => rw [escape, List.flatMap_nil, List.foldl_nil, List.append_nil]
  | cons c text ih =>
    rw [escape, List.flatMap_cons, List.foldl_append, read_escapeChar]
    exact ih.trans (by rw [List.append_assoc]; rfl)

theorem read_key (hkey : key ≠ []) (h : Plain key) :
    (key ++ ['=']).foldl step (.between read) = .afterEquals read key := by
  obtain ⟨c, key, rfl⟩ := List.exists_cons_of_ne_nil hkey
  obtain ⟨⟨hspace, hequals, _⟩, htext⟩ := List.forall_mem_cons.mp h
  have hread : (c :: key).foldl step (.between read) = .keyword read ([c] ++ key) := by
    rw [List.foldl_cons, step, hspace, if_neg Bool.false_ne_true, if_neg hequals,
      read_keyword htext]
  rw [List.foldl_append, hread]
  rfl

theorem read_quoted (hkey : key ≠ []) (h : Plain key) (value : List Char) :
    (quotedEntry key value).foldl step (.between read) = .between (read ++ [(key, value)]) := by
  rw [quotedEntry, List.foldl_append, read_key hkey h, List.cons_append, List.foldl_cons]
  change (escape value ++ ['\'']).foldl step (.quoted read key []) = _
  rw [List.foldl_append, read_escape]
  rfl

theorem read_unquoted (hkey : key ≠ []) (h : Plain key) (hvalue : value ≠ [])
    (hplain : Plain value) :
    (bareEntry key value).foldl step (.between read) = .between (read ++ [(key, value)]) := by
  obtain ⟨c, value, rfl⟩ := List.exists_cons_of_ne_nil hvalue
  obtain ⟨⟨hspace, _, hescape, hquote⟩, htext⟩ := List.forall_mem_cons.mp hplain
  rw [bareEntry, List.foldl_append, read_key hkey h, List.cons_append, List.foldl_cons, step, hspace,
    if_neg Bool.false_ne_true, if_neg hquote, if_neg hescape, List.foldl_append, read_bare htext]
  rfl

theorem read_blank (rest : List Char) :
    (' ' :: rest).foldl step (.between read) = rest.foldl step (.between read) := rfl

end Reading

end Conninfo

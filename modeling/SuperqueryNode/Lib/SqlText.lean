import SuperqueryNode.Lib.Sql

namespace Sql

-- SQL text apart from its quoted identifiers, which count as one token each.
inductive Token where
  | char (c : Char)
  | ident (name : String)
deriving DecidableEq, Repr

inductive Scan where
  | text
  | name (read : List Char)
  | quote (read : List Char)

def close (name : List Char) : Option Token :=
  if name.isEmpty then none else some (.ident (String.ofList (clip identifierBytes name)))

def scan : Scan → List Char → Option (List Token)
  | .text, [] => some []
  | .name _, [] => none
  | .quote read, [] => (close read).map fun token => [token]
  | .text, c :: s =>
    if c = '"' then scan (.name []) s
    else if c = '\x00' then none
    else (scan .text s).map (.char c :: ·)
  | .name read, c :: s =>
    if c = '"' then scan (.quote read) s
    else if c = '\x00' then none
    else scan (.name (read ++ [c])) s
  | .quote read, c :: s =>
    if c = '"' then scan (.name (read ++ ['"'])) s
    else if c = '\x00' then none
    else (close read).bind fun token => (scan .text s).map fun tokens => token :: .char c :: tokens

def Plain (text : List Char) : Prop := ∀ c ∈ text, c ≠ '"' ∧ c ≠ '\x00'

instance (text : List Char) : Decidable (Plain text) := List.decidableBAll _ text

def chars (text : List Char) : List Token := text.map .char

def Scans (text : List Char) (tokens : List Token) : Prop :=
  ∀ rest, rest.head? ≠ some '"' → scan .text (text ++ rest) = (scan .text rest).map (tokens ++ ·)

section Scanning
variable {text text' : List Char} {tokens tokens' : List Token} {name : String}

theorem scan_plain (h : Plain text) (rest : List Char) :
    scan .text (text ++ rest) = (scan .text rest).map (chars text ++ ·) := by
  induction text with
  | nil => simp [chars]
  | cons c text ih =>
    obtain ⟨hc, htext⟩ := List.forall_mem_cons.mp h
    rw [List.cons_append, scan, if_neg hc.1, if_neg hc.2, ih htext, Option.map_map]
    rfl

theorem scan_quote (read : List Char) {rest : List Char} (h : rest.head? ≠ some '"') :
    scan (.quote read) rest =
      (close read).bind fun token => (scan .text rest).map (token :: ·) := by
  cases rest with
  | nil => cases hclose : close read <;> simp [scan, hclose]
  | cons c s =>
    have hc : c ≠ '"' := fun hc => h (by rw [hc]; rfl)
    rw [scan, scan, if_neg hc, if_neg hc]
    split_ifs
    · cases close read <;> rfl
    · cases scan .text s <;> rfl

theorem scan_name {quoted unquoted : List Char} (hunquote : unquote quoted = some unquoted)
    (hnul : '\x00' ∉ quoted) {rest : List Char} (h : rest.head? ≠ some '"') (read : List Char) :
    scan (.name read) (quoted ++ '"' :: rest) =
      (close (read ++ unquoted)).bind fun token => (scan .text rest).map (token :: ·) := by
  induction quoted using unquote.induct generalizing unquoted read with
  | case1 =>
    cases hunquote
    rw [List.nil_append, scan, if_pos rfl, scan_quote read h, List.append_nil]
  | case2 => cases hunquote
  | case3 s ih =>
    rw [unquote, if_pos rfl] at hunquote
    obtain ⟨unquoted, hs, rfl⟩ := Option.map_eq_some_iff.mp hunquote
    have hnul : '\x00' ∉ s := fun hmem => hnul (List.mem_cons_of_mem _ (List.mem_cons_of_mem _ hmem))
    rw [List.cons_append, List.cons_append, scan, if_pos rfl, scan, if_pos rfl, ih hs hnul,
      List.append_assoc]
    rfl
  | case4 c s hc =>
    rw [unquote, if_neg hc] at hunquote
    cases hunquote
  | case5 c s hlast hpair ih =>
    have hc : c ≠ '"' := by
      rintro rfl
      cases s with
      | nil => exact hlast rfl rfl
      | cons c s => exact hpair c s rfl rfl
    rw [unquote] at hunquote
    · obtain ⟨unquoted, hs, rfl⟩ := Option.map_eq_some_iff.mp hunquote
      obtain ⟨hcnul, hnul⟩ := List.ne_and_not_mem_of_not_mem_cons hnul
      rw [List.cons_append, scan, if_neg hc, if_neg hcnul.symm, ih hs hnul, List.append_assoc]
      rfl
    · exact hlast
    · exact hpair

theorem unquote_ne_nil {quoted unquoted : List Char} (hne : quoted ≠ [])
    (h : unquote quoted = some unquoted) : unquoted ≠ [] := by
  rintro rfl
  fun_cases unquote quoted
  all_goals simp_all [unquote]

namespace Scans

theorem plain (h : Plain text) : Scans text (chars text) := fun rest _ => scan_plain h rest

theorem plain_append (h : Plain text) (h' : Scans text' tokens') :
    Scans (text ++ text') (chars text ++ tokens') := by
  intro rest hrest
  rw [List.append_assoc, scan_plain h, h' rest hrest, Option.map_map]
  simp [Function.comp_def]

theorem append (h : Scans text tokens) (h' : Scans text' tokens') (hstart : text'.head? ≠ some '"') :
    Scans (text ++ text') (tokens ++ tokens') := by
  intro rest hrest
  have hhead : (text' ++ rest).head? ≠ some '"' := by
    cases text' with
    | nil => exact hrest
    | cons c text' => exact hstart
  rw [List.append_assoc, h _ hhead, h' rest hrest, Option.map_map]
  simp [Function.comp_def]

theorem quoted {quoted : String} (h : readIdentifier quoted = some name) :
    Scans ('"' :: quoted.toList ++ ['"']) [.ident name] := by
  intro rest hrest
  rw [readIdentifier] at h
  split_ifs at h with hbad
  obtain ⟨unquoted, hunquote, rfl⟩ := Option.map_eq_some_iff.mp h
  obtain ⟨hempty, hnul⟩ : quoted ≠ "" ∧ '\x00' ∉ quoted.toList := by simpa using hbad
  have hclose : close unquoted = some (.ident (String.ofList (clip identifierBytes unquoted))) := by
    have hne := unquote_ne_nil (by simpa using hempty) hunquote
    rw [close, if_neg (by simpa using hne)]
  have hsplit : '"' :: quoted.toList ++ ['"'] ++ rest = '"' :: (quoted.toList ++ '"' :: rest) := by
    simp
  rw [hsplit, scan, if_pos rfl, scan_name hunquote hnul hrest, List.nil_append, hclose]
  rfl

theorem head_plain (h : Plain text) (hne : text ≠ []) : (text ++ text').head? ≠ some '"' := by
  obtain ⟨c, text, rfl⟩ := List.exists_cons_of_ne_nil hne
  exact fun heq => (h c List.mem_cons_self).1 (Option.some.inj heq)

theorem intercalate {A : Type} {render : A → List Char} {tokens : A → List Token} {items : List A}
    (hplain : Plain text) (hne : text ≠ []) (h : ∀ a ∈ items, Scans (render a) (tokens a)) :
    Scans (text.intercalate (items.map render)) ((chars text).intercalate (items.map tokens)) := by
  induction items with
  | nil => exact fun rest _ => by simp
  | cons a items ih =>
    obtain ⟨ha, hitems⟩ := List.forall_mem_cons.mp h
    cases items with
    | nil => simpa using ha
    | cons b items =>
      rw [List.map_cons, List.map_cons, List.map_cons, List.map_cons, List.intercalate_cons_cons,
        List.intercalate_cons_cons, List.append_assoc, List.append_assoc]
      exact ha.append (plain_append hplain (ih hitems)) (head_plain hplain hne)

end Scans
end Scanning
end Sql

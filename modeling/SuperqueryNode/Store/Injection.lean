import SuperqueryNode.Lib.SqlText
import SuperqueryNode.Store.Query

namespace SuperqueryNode.Store
open Sql Fallible

section Template

def verbatim (text : String) : List Token := chars text.toList

def named (name : String) : List Token := [.ident ((readIdentifier name).getD "")]

def Projection.template (p : Projection) : List Token :=
  if p.hex then verbatim "encode(" ++ (named p.column ++ (verbatim ", 'hex') AS " ++ named p.column))
  else named p.column ++ (verbatim "::text AS " ++ named p.column)

def Condition.template (idx : Nat) (c : Condition) : List Token :=
  named c.column ++ (verbatim " = " ++ verbatim (c.value.sql idx))

namespace Select

def whereTemplate (s : Select) : List Token :=
  if s.conditions.isEmpty then []
  else verbatim "WHERE " ++
    (verbatim " AND ").intercalate (s.conditions.zipIdx.map fun (c, i) => c.template (i + 1))

def pageText (s : Select) : String :=
  " " ++ s.direction.sql ++ " LIMIT " ++ toString s.limit ++ " OFFSET " ++ toString s.offset

-- The tokens the text is meant to have: keywords, parameters, and one identifier for each name.
def template (s : Select) : List Token :=
  verbatim "SELECT " ++ ((verbatim ", ").intercalate (s.projection.map Projection.template) ++
    (verbatim " FROM " ++ (named s.schema ++ (verbatim "." ++ (named s.table ++ (verbatim " " ++
      (s.whereTemplate ++ (verbatim " ORDER BY " ++ (named s.orderBy ++ verbatim s.pageText)))))))))

def columnNames (s : Select) : List String :=
  s.orderBy :: (s.projection.map (·.column) ++ s.conditions.map (·.column))

def names (s : Select) : List String := s.schema :: s.table :: s.columnNames

end Select

theorem plain_append {a b : List Char} : Plain (a ++ b) ↔ Plain a ∧ Plain b :=
  List.forall_mem_append

theorem plain_nat (n : Nat) : Plain n.repr.toList := by
  intro c hc
  rw [Nat.toList_repr] at hc
  have hdigit := Nat.isDigit_of_mem_toDigits (by omega) Nat.le.refl hc
  constructor <;> rintro rfl <;> cases hdigit

theorem plain_int (i : Int) : Plain (toString i).toList := by
  rw [Int.toString_eq_repr, Int.repr_eq_if]
  split_ifs
  · exact plain_nat _
  · rw [String.toList_append, plain_append]
    exact ⟨by decide, plain_nat _⟩

theorem plain_placeholder (p : Placeholder) (idx : Nat) : Plain (p.sql idx).toList := by
  cases p with
  | bare =>
    rw [Placeholder.sql, String.toList_append, plain_append]
    exact ⟨by decide, plain_nat idx⟩
  | cast target =>
    rw [Placeholder.sql, String.toList_append, String.toList_append, String.toList_append,
      plain_append, plain_append, plain_append]
    exact ⟨⟨⟨by decide, plain_nat idx⟩, by decide⟩, by cases target <;> decide⟩
  | decodeHex =>
    rw [Placeholder.sql, String.toList_append, String.toList_append, plain_append, plain_append]
    exact ⟨⟨by decide, plain_nat idx⟩, by decide⟩

theorem named_scans {name : String} (h : (readIdentifier name).isSome) :
    Scans (quoted name).toList (named name) := by
  obtain ⟨read, hread⟩ := Option.isSome_iff_exists.mp h
  have htext : (quoted name).toList = '"' :: name.toList ++ ['"'] := by
    rw [quoted, String.toList_append, String.toList_append]
    rfl
  rw [htext, named, hread]
  exact Scans.quoted hread

theorem projection_scans {p : Projection} (h : (readIdentifier p.column).isSome) :
    Scans p.sql.toList p.template := by
  rw [Projection.sql, Projection.template]
  split_ifs
  · rw [String.toList_append, String.toList_append, String.toList_append, List.append_assoc,
      List.append_assoc]
    exact .plain_append (by decide) ((named_scans h).append
      (.plain_append (by decide) (named_scans h)) (Scans.head_plain (by decide) (by decide)))
  · rw [String.toList_append, String.toList_append, List.append_assoc]
    exact (named_scans h).append (.plain_append (by decide) (named_scans h))
      (Scans.head_plain (by decide) (by decide))

theorem condition_scans {c : Condition} (h : (readIdentifier c.column).isSome) (idx : Nat) :
    Scans (c.sql idx).toList (c.template idx) := by
  rw [Condition.sql, Condition.template, String.toList_append, String.toList_append,
    List.append_assoc]
  exact (named_scans h).append (.plain_append (by decide) (.plain (plain_placeholder c.value idx)))
    (Scans.head_plain (by decide) (by decide))

theorem where_scans {s : Select} (h : ∀ c ∈ s.conditions, (readIdentifier c.column).isSome) :
    Scans s.whereClause.toList s.whereTemplate := by
  rw [Select.whereClause, Select.whereTemplate]
  split_ifs
  · exact fun rest _ => by simp
  · rw [String.toList_append, String.toList_intercalate, List.map_map]
    refine .plain_append (by decide) (.intercalate (by decide) (by decide) ?_)
    rintro ⟨c, i⟩ hc
    exact condition_scans (h c (List.fst_mem_of_mem_zipIdx hc)) (i + 1)

theorem pageText_plain (s : Select) : Plain s.pageText.toList := by
  simp only [Select.pageText, String.toList_append, plain_append]
  exact ⟨⟨⟨⟨⟨by decide, by cases s.direction <;> decide⟩, by decide⟩, plain_int s.limit⟩, by decide⟩,
    plain_int s.offset⟩

theorem sql_scans {s : Select} (h : ∀ n ∈ s.names, (readIdentifier n).isSome) :
    Scans s.sql.toList s.template := by
  have htext : s.sql.toList = "SELECT ".toList ++ ((", ".toList).intercalate (s.projection.map fun p =>
      p.sql.toList) ++ (" FROM ".toList ++ ((quoted s.schema).toList ++ (".".toList ++
        ((quoted s.table).toList ++ (" ".toList ++ (s.whereClause.toList ++ (" ORDER BY ".toList ++
          ((quoted s.orderBy).toList ++ s.pageText.toList))))))))) := by
    unfold Select.sql Select.pageText
    simp only [String.toList_append, String.toList_intercalate, List.map_map, List.append_assoc,
      Function.comp_def]
  simp only [Select.names, Select.columnNames, List.forall_mem_cons, List.forall_mem_append,
    List.forall_mem_map] at h
  obtain ⟨hschema, htable, horder, hprojection, hconditions⟩ := h
  rw [htext]
  unfold Select.template
  refine .plain_append (by decide) ((Scans.intercalate (by decide) (by decide) ?_).append
    (.plain_append (by decide) ((named_scans hschema).append (.plain_append (by decide)
      ((named_scans htable).append (.plain_append (by decide) ((where_scans hconditions).append
        (.plain_append (by decide) ((named_scans horder).append (.plain (pageText_plain s)) ?_))
        ?_)) ?_)) ?_)) ?_)
  · exact fun p hp => projection_scans (hprojection p hp)
  · unfold Select.pageText
    simp only [String.toList_append, List.append_assoc]
    exact Scans.head_plain (by decide) (by decide)
  all_goals exact Scans.head_plain (by decide) (by decide)

theorem scan_sql {s : Select} (h : ∀ n ∈ s.names, (readIdentifier n).isSome) :
    scan .text s.sql.toList = some s.template := by
  have hscan := sql_scans h [] (by simp)
  rw [List.append_nil] at hscan
  rw [hscan, scan, Option.map_some, List.append_nil]

end Template

section Injection
variable (u : Unicode) (display : Json → String)

def Sends (m : PlainModel) (filters : List (String × Json)) (opts : QueryOptions) (s : Select) :
    Prop :=
  ∃ params, ∀ query, m.getByFields u display query filters opts =
    (query s params).map fun rows => rows.map (m.rowToCanonical u)

structure FixedText (m : PlainModel) (s : Select) : Prop where
  schema : s.schema = m.schema
  table : s.table = m.table
  identifiers : ∀ n ∈ s.names, (readIdentifier n).isSome
  columns : ∀ n ∈ s.columnNames, ∃ f ∈ m.fields,
    readIdentifier n = readIdentifier (underscored u f.name)
  tokens : scan .text s.sql.toList = some s.template

def NoInjection (m : PlainModel) (filters : List (String × Json)) (opts : QueryOptions) : Prop :=
  (∃ e, ∀ query, m.getByFields u display query filters opts = .error e) ∨
  ∃ s, FixedText u m s ∧ ∀ filters' : List (String × Json),
    filters'.map Prod.fst = filters.map Prod.fst → Sends u display m filters' opts s

def KnownFields (m : PlainModel) (filters : List (String × Json)) : Prop :=
  ∀ filter ∈ filters, ∃ f ∈ m.fields, f.name = filter.1

structure QuotedNames (m : PlainModel) (opts : QueryOptions) : Prop where
  schema : (readIdentifier m.schema).isSome
  table : (readIdentifier m.table).isSome
  columns : ∀ f ∈ m.fields, (readIdentifier (underscored u f.name)).isSome
  order : ∃ f ∈ m.fields,
    readIdentifier (underscored u opts.orderBy) = readIdentifier (underscored u f.name)

variable {m : PlainModel} {filters : List (String × Json)} {opts : QueryOptions}

theorem parts_of_known (h : KnownFields m filters) :
    ∃ parts, filters.mapM (m.filterPart u display) = .ok parts := by
  simp only [mapM_eq_ok]
  refine exists_forall₂.mpr fun filter hfilter => ?_
  obtain ⟨f, hf, hname⟩ := h filter hfilter
  cases hfind : m.fields.find? (fun f => f.name == filter.1) with
  | none =>
    have := List.find?_eq_none.mp hfind f hf
    simp [hname] at this
  | some g => exact ⟨_, filterPart_ok.mpr ⟨g, hfind, rfl⟩⟩

theorem known_of_parts {parts : List (Condition × Option String)}
    (h : filters.mapM (m.filterPart u display) = .ok parts) : KnownFields m filters := by
  intro filter hfilter
  obtain ⟨part, -, hpart⟩ := exists_right (mapM_eq_ok.mp h) hfilter
  obtain ⟨f, hf, -⟩ := filterPart_ok.mp hpart
  exact ⟨f, List.mem_of_find?_eq_some hf, by simpa using List.find?_some hf⟩

def conditionFor (u : Unicode) (m : PlainModel) (name : String) : Option Condition :=
  (m.fields.find? fun f => f.name == name).map fun f =>
    ⟨underscored u name, PlainModel.placeholder f⟩

theorem conditions_of_names {parts : List (Condition × Option String)}
    (h : filters.mapM (m.filterPart u display) = .ok parts) :
    (parts.map (·.1)).map some = (filters.map Prod.fst).map (conditionFor u m) := by
  rw [List.map_map, List.map_map]
  refine map_eq_of_mapM h fun filter part hpart => ?_
  obtain ⟨f, hf, rfl⟩ := filterPart_ok.mp hpart
  rw [Function.comp_apply, Function.comp_apply, conditionFor, hf]
  rfl

theorem getByFields_sends {parts : List (Condition × Option String)}
    (h : filters.mapM (m.filterPart u display) = .ok parts) :
    Sends u display m filters opts (m.selectByFields u (parts.map (·.1)) opts) := by
  refine ⟨parts.map (·.2), fun query => ?_⟩
  rw [PlainModel.getByFields, h]
  change (query _ _ >>= fun rows => Except.ok _) = _
  cases query (m.selectByFields u (parts.map (·.1)) opts) (parts.map (·.2)) <;> rfl

theorem sends_unique {s s' : Select} (h : Sends u display m filters opts s)
    (h' : Sends u display m filters opts s') : s = s' := by
  obtain ⟨params, hsends⟩ := h
  obtain ⟨params', hsends'⟩ := h'
  by_contra hne
  have hquery := (hsends fun asked _ => if asked = s then .ok [] else .error (.pool "")).symm.trans
    (hsends' fun asked _ => if asked = s then .ok [] else .error (.pool ""))
  rw [if_pos rfl, if_neg (Ne.symm hne)] at hquery
  cases hquery

theorem quoted_of_noInjection (hknown : KnownFields m filters)
    (h : NoInjection u display m filters opts) : QuotedNames u m opts := by
  obtain ⟨parts, hparts⟩ := parts_of_known u display hknown
  rcases h with ⟨e, herror⟩ | ⟨s, hfixed, hsends⟩
  · obtain ⟨params, hquery⟩ : Sends u display m filters opts _ := getByFields_sends u display hparts
    have hok := (herror fun _ _ => .ok []).symm.trans (hquery fun _ _ => .ok [])
    cases hok
  · obtain rfl := sends_unique u display (hsends filters rfl) (getByFields_sends u display hparts)
    constructor
    case schema => exact hfixed.identifiers _ List.mem_cons_self
    case table => exact hfixed.identifiers _ (List.mem_cons_of_mem _ List.mem_cons_self)
    case columns =>
      intro f hf
      apply hfixed.identifiers
      have hcolumn : (f, underscored u f.name) ∈ m.sortedColumns u :=
        PlainModel.mem_sortedColumns.mpr ⟨hf, rfl⟩
      simp only [Select.names, Select.columnNames, List.mem_cons, List.mem_append, List.mem_map]
      exact .inr (.inr (.inr (.inl ⟨_, List.mem_map_of_mem hcolumn, rfl⟩)))
    case order => exact hfixed.columns _ List.mem_cons_self

theorem fixedText_of_quoted {parts : List (Condition × Option String)}
    (hparts : filters.mapM (m.filterPart u display) = .ok parts) (h : QuotedNames u m opts) :
    FixedText u m (m.selectByFields u (parts.map (·.1)) opts) := by
  have hcolumns : ∀ n ∈ (m.selectByFields u (parts.map (·.1)) opts).columnNames, ∃ f ∈ m.fields,
      readIdentifier n = readIdentifier (underscored u f.name) := by
    simp only [Select.columnNames, List.forall_mem_cons, List.forall_mem_append,
      List.forall_mem_map]
    refine ⟨h.order, ?_, ?_⟩
    · intro p hp
      obtain ⟨c, hc, rfl⟩ := List.mem_map.mp hp
      obtain ⟨hfield, hname⟩ := PlainModel.mem_sortedColumns.mp hc
      exact ⟨c.1, hfield, by rw [PlainModel.selectExpr, hname]⟩
    · intro c hc
      obtain ⟨part, hpart, rfl⟩ := List.mem_map.mp hc
      obtain ⟨filter, -, hfilter⟩ := exists_of_mem_mapM hparts hpart
      obtain ⟨f, hf, rfl⟩ := filterPart_ok.mp hfilter
      have hname : f.name = filter.1 := by simpa using List.find?_some hf
      exact ⟨f, List.mem_of_find?_eq_some hf, by rw [hname]⟩
  have hidentifiers : ∀ n ∈ (m.selectByFields u (parts.map (·.1)) opts).names,
      (readIdentifier n).isSome := by
    simp only [Select.names, List.forall_mem_cons]
    refine ⟨h.schema, h.table, fun n hn => ?_⟩
    obtain ⟨f, hf, hread⟩ := hcolumns n hn
    rw [hread]
    exact h.columns f hf
  exact ⟨rfl, rfl, hidentifiers, hcolumns, scan_sql hidentifiers⟩

theorem no_injection_iff (m : PlainModel) (filters : List (String × Json)) (opts : QueryOptions) :
    NoInjection u display m filters opts ↔ (KnownFields m filters → QuotedNames u m opts) := by
  constructor
  · exact fun h hknown => quoted_of_noInjection u display hknown h
  · intro h
    cases hparts : filters.mapM (m.filterPart u display) with
    | error e =>
      refine .inl ⟨e, fun query => ?_⟩
      rw [PlainModel.getByFields, hparts]
      rfl
    | ok parts =>
      have hquoted := h (known_of_parts u display hparts)
      refine .inr ⟨_, fixedText_of_quoted u display hparts hquoted, fun filters' hnames => ?_⟩
      have hknown' : KnownFields m filters' := by
        intro filter hfilter
        have hname := List.mem_map_of_mem (f := Prod.fst) hfilter
        rw [hnames] at hname
        obtain ⟨same, hsame, heq⟩ := List.mem_map.mp hname
        rw [← heq]
        exact known_of_parts u display hparts same hsame
      obtain ⟨parts', hparts'⟩ := parts_of_known u display hknown'
      have hsame : parts'.map (·.1) = parts.map (·.1) := by
        refine List.map_injective_iff.mpr (Option.some_injective _) ?_
        rw [conditions_of_names u display hparts', conditions_of_names u display hparts, hnames]
      rw [← hsame]
      exact getByFields_sends u display hparts'

end Injection

theorem order_by_injects : ¬∀ (m : PlainModel) (filters : List (String × Json)) (opts : QueryOptions),
    NoInjection .ascii (fun _ => "") m filters opts := by
  intro h
  have hknown : KnownFields ⟨"app", "transfers", transfer.fields⟩ [] := fun _ hf => (by cases hf)
  have hquoted := quoted_of_noInjection .ascii (fun _ => "") hknown
    (h ⟨"app", "transfers", transfer.fields⟩ [] ⟨"id\" DESC, \"amount", .asc, 100, 0⟩)
  obtain ⟨f, hf, hread⟩ := hquoted.order
  revert f
  decide

end SuperqueryNode.Store

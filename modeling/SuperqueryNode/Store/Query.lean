import SuperqueryNode.Lib.KeyedMap
import SuperqueryNode.Lib.SqlQuery
import SuperqueryNode.Store.Upsert

namespace SuperqueryNode.Store
open Sql Fallible

abbrev CanonicalRow := Std.ExtTreeMap String (Option String)

inductive OrderDir where
  | asc
  | desc
deriving DecidableEq, Repr

def OrderDir.sql : OrderDir → String
  | asc => "ASC"
  | desc => "DESC"

structure QueryOptions where
  orderBy : String
  orderDirection : OrderDir
  limit : Int
  offset : Int
deriving DecidableEq, Repr

def quoted (name : String) : String := "\"" ++ name ++ "\""

structure Projection where
  column : String
  hex : Bool
deriving DecidableEq, Repr

def Projection.sql (p : Projection) : String :=
  if p.hex then "encode(" ++ quoted p.column ++ ", 'hex') AS " ++ quoted p.column
  else quoted p.column ++ "::text AS " ++ quoted p.column

structure Condition where
  column : String
  value : Placeholder
deriving DecidableEq, Repr

def Condition.sql (idx : Nat) (c : Condition) : String := quoted c.column ++ " = " ++ c.value.sql idx

structure Select where
  projection : List Projection
  schema : String
  table : String
  conditions : List Condition
  orderBy : String
  direction : OrderDir
  limit : Int
  offset : Int
deriving DecidableEq, Repr

namespace Select

def whereClause (s : Select) : String :=
  if s.conditions.isEmpty then ""
  else "WHERE " ++ " AND ".intercalate (s.conditions.zipIdx.map fun (c, i) => c.sql (i + 1))

def sql (s : Select) : String :=
  "SELECT " ++ ", ".intercalate (s.projection.map Projection.sql) ++ " FROM " ++ quoted s.schema ++
    "." ++ quoted s.table ++ " " ++ s.whereClause ++ " ORDER BY " ++ quoted s.orderBy ++ " " ++
    s.direction.sql ++ " LIMIT " ++ toString s.limit ++ " OFFSET " ++ toString s.offset

end Select

namespace PlainModel

def selectExpr (field : EntityField) (col : String) : Projection :=
  ⟨col, field.baseType == "Bytes" && !field.isArray⟩

def filterPart (u : Unicode) (display : Json → String) (m : PlainModel) (filter : String × Json) :
    Except StoreError (Condition × Option String) := do
  let field ← okOr (m.fields.find? fun f => f.name == filter.1)
    (.unsupportedType ("unknown field " ++ filter.1))
  .ok (⟨underscored u filter.1, placeholder field⟩, encode display field filter.2)

def selectByFields (u : Unicode) (m : PlainModel) (conditions : List Condition)
    (opts : QueryOptions) : Select where
  projection := (m.sortedColumns u).map fun c => selectExpr c.1 c.2
  schema := m.schema
  table := m.table
  conditions := conditions
  orderBy := underscored u opts.orderBy
  direction := opts.orderDirection
  limit := opts.limit
  offset := opts.offset

def rowToCanonical (u : Unicode) (m : PlainModel) (row : List (Option String)) : CanonicalRow :=
  .ofList (((m.sortedColumns u).map (·.2)).zip row)

def getByFields (u : Unicode) (display : Json → String)
    (query : Select → List (Option String) → Except StoreError (List (List (Option String))))
    (m : PlainModel) (filters : List (String × Json)) (opts : QueryOptions) :
    Except StoreError (List CanonicalRow) := do
  let parts ← filters.mapM (m.filterPart u display)
  let rows ← query (m.selectByFields u (parts.map (·.1)) opts) (parts.map (·.2))
  .ok (rows.map (m.rowToCanonical u))

end PlainModel

namespace Reader
variable {V : Type} (reader : Reader V)

-- Comparing with NULL is neither true nor false.
def equals : Option V → Option V → Option Bool
  | some a, some b => some (reader.same a b)
  | _, _ => none

def ascending : Option String → Option String → Bool
  | some a, some b => reader.collates a b
  | _, none => true
  | none, some _ => false

def before : OrderDir → Option String → Option String → Bool
  | .asc, a, b => reader.ascending a b
  | .desc, a, b => reader.ascending b a

theorem equals_true {a b : Option V} :
    reader.equals a b = some true ↔ ∃ v w, a = some v ∧ b = some w ∧ reader.same v w = true := by
  cases a <;> cases b <;> simp [equals]

theorem ascending_total (a b : Option String) :
    reader.ascending a b = true ∨ reader.ascending b a = true := by
  cases a <;> cases b <;> simp [ascending, reader.collates_total]

theorem ascending_trans {a b c : Option String} (hab : reader.ascending a b = true)
    (hbc : reader.ascending b c = true) : reader.ascending a c = true := by
  cases a <;> cases b <;> cases c <;> simp_all [ascending]
  exact reader.collates_trans _ _ _ hab hbc

theorem ascending_antisymm {a b : Option String} (hab : reader.ascending a b = true)
    (hba : reader.ascending b a = true) : a = b := by
  cases a <;> cases b <;> simp_all [ascending]
  exact reader.collates_antisymm _ _ hab hba

theorem before_total (dir : OrderDir) (a b : Option String) :
    reader.before dir a b = true ∨ reader.before dir b a = true := by
  cases dir
  · exact reader.ascending_total a b
  · exact reader.ascending_total b a

theorem before_trans {dir : OrderDir} {a b c : Option String} (hab : reader.before dir a b = true)
    (hbc : reader.before dir b c = true) : reader.before dir a c = true := by
  cases dir
  · exact reader.ascending_trans hab hbc
  · exact reader.ascending_trans hbc hab

theorem before_antisymm {dir : OrderDir} {a b : Option String} (hab : reader.before dir a b = true)
    (hba : reader.before dir b a = true) : a = b := by
  cases dir
  · exact reader.ascending_antisymm hab hba
  · exact reader.ascending_antisymm hba hab

end Reader

namespace Select
variable {V : Type} (server : Server V) (reader : Reader V)

-- What PostgreSQL checks of the query before it reads a row; the order is by an output column.
structure WellFormed (s : Select) (t : CreateTable) : Prop where
  schema : s.schema = t.schema
  table : s.table = t.table
  columns : ∀ p ∈ s.projection, ∃ c ∈ t.columns,
    readIdentifier c.name = readIdentifier p.column ∧ (p.hex = true → c.type = .bytea)
  types : ∀ k ∈ s.conditions, ∃ c ∈ t.columns,
    readIdentifier c.name = readIdentifier k.column ∧ c.type = k.value.result
  order : (s.projection.map fun p => readIdentifier p.column).count (readIdentifier s.orderBy) = 1
  limit : 0 ≤ s.limit
  offset : 0 ≤ s.offset

def bind (now : Int) (conditions : List Condition) (params : List (Option String)) :
    Except StoreError (List (Option V)) :=
  (conditions.zip params).mapM fun p => Upsert.bindParam server now p.1.value p.2

def holds (conditions : List Condition) (values : List (Option V)) (row : Row V) : Option Bool :=
  ((conditions.zip values).map fun p =>
    reader.equals ((readIdentifier p.1.column).bind row) p.2).foldr and3 (some true)

def selects (conditions : List Condition) (values : List (Option V)) (row : Row V) : Bool :=
  holds reader conditions values row == some true

def output (s : Select) (row : Row V) : List (Option String) :=
  s.projection.map fun p =>
    ((readIdentifier p.column).bind row).map (if p.hex then reader.hex else reader.text)

def sortText (s : Select) (out : List (Option String)) : Option String :=
  (((s.projection.map fun p => readIdentifier p.column).zip out).lookup
    (readIdentifier s.orderBy)).join

def before (s : Select) (a b : List (Option String)) : Prop :=
  reader.before s.direction (s.sortText a) (s.sortText b) = true

def outputs (s : Select) (values : List (Option V)) (rows : Multiset (Row V)) :
    Multiset (List (Option String)) :=
  (rows.filter (selects reader s.conditions values · = true)).map (s.output reader)

instance (s : Select) : Std.Total (s.before reader) where
  total _ _ := reader.before_total _ _ _

instance (s : Select) : IsTrans (List (Option String)) (s.before reader) where
  trans _ _ _ := reader.before_trans

end Select

-- A database with these rows in the table, asked at one moment. Rows that tie come in any order,
-- query by query, and a parameter that cannot be cast is an error.
structure Database {V : Type} (server : Server V) (reader : Reader V) (t : CreateTable)
    (rows : Multiset (Row V)) (now : Int) where
  query : Select → List (Option String) → Except StoreError (List (List (Option String)))
  answers : ∀ s params values, s.WellFormed t →
    Select.bind server now s.conditions params = .ok values →
    ∃ answer, query s params = .ok answer ∧
      Answers (s.before reader) (s.outputs reader values rows) s.limit.toNat s.offset.toNat answer
  refuses : ∀ s params e, Select.bind server now s.conditions params = .error e →
    ∃ e', query s params = .error e'

section Databases
variable {V : Type} {server : Server V} {reader : Reader V} {t : CreateTable}
  {rows : Multiset (Row V)} {now : Int}

theorem exists_database {s : Select} {params : List (Option String)} {values : List (Option V)}
    {answer : List (List (Option String))}
    (hbind : Select.bind server now s.conditions params = .ok values)
    (hanswer : Answers (s.before reader) (s.outputs reader values rows) s.limit.toNat s.offset.toNat
      answer) :
    ∃ db : Database server reader t rows now, db.query s params = .ok answer := by
  classical
  have hreply : ∀ s' params', ∃ reply : Except StoreError (List (List (Option String))),
      (s' = s → params' = params → reply = .ok answer) ∧
      (∀ values', Select.bind server now s'.conditions params' = .ok values' → ∃ answer',
        reply = .ok answer' ∧ Answers (s'.before reader) (s'.outputs reader values' rows)
          s'.limit.toNat s'.offset.toNat answer') ∧
      ∀ e, Select.bind server now s'.conditions params' = .error e → ∃ e', reply = .error e' := by
    intro s' params'
    by_cases hsame : s' = s ∧ params' = params
    · obtain ⟨rfl, rfl⟩ := hsame
      refine ⟨.ok answer, fun _ _ => rfl, fun values' hbind' => ?_, fun e he => ?_⟩
      · rw [hbind] at hbind'
        cases hbind'
        exact ⟨answer, rfl, hanswer⟩
      · rw [hbind] at he
        cases he
    · cases hbind' : Select.bind server now s'.conditions params' with
      | error e =>
        exact ⟨.error e, fun hs hp => absurd ⟨hs, hp⟩ hsame, fun _ h => (by cases h),
          fun _ _ => ⟨e, rfl⟩⟩
      | ok values' =>
        obtain ⟨order, horder⟩ := exists_arranged (s'.before reader)
          (s'.outputs reader values' rows)
        refine ⟨.ok (page s'.limit.toNat s'.offset.toNat order),
          fun hs hp => absurd ⟨hs, hp⟩ hsame, fun _ h => ?_, fun _ h => (by cases h)⟩
        cases h
        exact ⟨_, rfl, order, horder, rfl⟩
  choose query hsame hanswers hrefuses using hreply
  exact ⟨⟨query, fun s' params' values' _ hbind' => hanswers s' params' values' hbind', hrefuses⟩,
    hsame s params rfl rfl⟩

theorem database_nonempty (server : Server V) (reader : Reader V) (t : CreateTable)
    (rows : Multiset (Row V)) (now : Int) : Nonempty (Database server reader t rows now) := by
  let s : Select := ⟨[], "", "", [], "", .asc, 0, 0⟩
  have hbind : Select.bind server now s.conditions [] = .ok [] := rfl
  obtain ⟨order, horder⟩ := exists_arranged (s.before reader) (s.outputs reader [] rows)
  obtain ⟨db, -⟩ := exists_database (t := t) hbind ⟨order, horder, rfl⟩
  exact ⟨db⟩

end Databases

section ByFields
variable {V : Type} {u : Unicode} {display : Json → String} {reader : Reader V}
  {model : EntityModel} {schema : String} {t : CreateTable} {opts : QueryOptions}

def cellText (u : Unicode) (reader : Reader V) (f : EntityField) (row : Row V) : Option String :=
  ((readIdentifier (underscored u f.name)).bind row).map
    (if f.baseType == "Bytes" && !f.isArray then reader.hex else reader.text)

def canonicalRow (u : Unicode) (reader : Reader V) (m : PlainModel) (row : Row V) : CanonicalRow :=
  m.rowToCanonical u ((m.sortedColumns u).map fun c => cellText u reader c.1 row)

theorem selects_iff {conditions : List Condition} {values : List (Option V)} {row : Row V} :
    Select.selects reader conditions values row = true ↔ ∀ p ∈ conditions.zip values,
      reader.equals ((readIdentifier p.1.column).bind row) p.2 = some true := by
  rw [Select.selects, Select.holds, beq_iff_eq]
  induction conditions.zip values with
  | nil => simp
  | cons p ps ih =>
    rw [List.map_cons, List.foldr_cons, List.forall_mem_cons, ← ih]
    generalize reader.equals _ _ = first
    generalize List.foldr and3 (some true) _ = rest
    rcases first with _ | _ | _ <;> rcases rest with _ | _ | _ <;> decide

theorem filterPart_ok {m : PlainModel} {filter : String × Json} {part : Condition × Option String} :
    m.filterPart u display filter = .ok part ↔
      ∃ f, m.fields.find? (fun f => f.name == filter.1) = some f ∧
        part = (⟨underscored u filter.1, PlainModel.placeholder f⟩,
          PlainModel.encode display f filter.2) := by
  rw [PlainModel.filterPart, bind_eq_ok]
  constructor
  · rintro ⟨f, hf, hpart⟩
    exact ⟨f, okOr_eq_ok.mp hf, (Except.ok.inj hpart).symm⟩
  · rintro ⟨f, hf, rfl⟩
    exact ⟨f, okOr_eq_ok.mpr hf, rfl⟩

theorem getByFields_ok {m : PlainModel} {filters : List (String × Json)} {found : List CanonicalRow}
    {query : Select → List (Option String) → Except StoreError (List (List (Option String)))} :
    m.getByFields u display query filters opts = .ok found ↔ ∃ parts rows,
      filters.mapM (m.filterPart u display) = .ok parts ∧
      query (m.selectByFields u (parts.map (·.1)) opts) (parts.map (·.2)) = .ok rows ∧
      found = rows.map (m.rowToCanonical u) := by
  rw [PlainModel.getByFields, bind_eq_ok]
  constructor
  · rintro ⟨parts, hparts, hrest⟩
    obtain ⟨rows, hrows, hfound⟩ := bind_eq_ok.mp hrest
    exact ⟨parts, rows, hparts, hrows, (Except.ok.inj hfound).symm⟩
  · rintro ⟨parts, rows, hparts, hrows, rfl⟩
    exact ⟨parts, hparts, bind_eq_ok.mpr ⟨rows, hrows, rfl⟩⟩

theorem output_byFields (m : PlainModel) (conditions : List Condition) (row : Row V) :
    (m.selectByFields u conditions opts).output reader row =
      (m.sortedColumns u).map fun c => cellText u reader c.1 row := by
  rw [Select.output, PlainModel.selectByFields, List.map_map]
  apply List.map_congr_left
  intro c hc
  rw [Function.comp_apply, PlainModel.selectExpr, (PlainModel.mem_sortedColumns.mp hc).2, cellText]

theorem names_byFields (m : PlainModel) (conditions : List Condition) :
    ((m.selectByFields u conditions opts).projection.map fun p => readIdentifier p.column) =
      (m.sortedColumns u).map fun c => readIdentifier c.2 := by
  rw [PlainModel.selectByFields, List.map_map]
  rfl

theorem columns_nodup (h : createTable u model schema = .ok t) (hdistinct : t.columnNames.Nodup) :
    (((PlainModel.new u t.schema model).sortedColumns u).map fun c => readIdentifier c.2).Nodup := by
  rw [columnNames_eq u h] at hdistinct
  exact (PlainModel.sortedColumns_map readIdentifier).nodup_iff.mpr hdistinct

variable (opts) in
theorem sortText_byFields (h : createTable u model schema = .ok t)
    (hdistinct : t.columnNames.Nodup) (conditions : List Condition) {g : EntityField}
    (hg : g ∈ model.fields)
    (horder : readIdentifier (underscored u opts.orderBy) = readIdentifier (underscored u g.name))
    (row : Row V) :
    ((PlainModel.new u t.schema model).selectByFields u conditions opts).sortText
      (((PlainModel.new u t.schema model).selectByFields u conditions opts).output reader row) =
      cellText u reader g row := by
  let cells := ((PlainModel.new u t.schema model).sortedColumns u).map fun c =>
    (readIdentifier c.2, cellText u reader c.1 row)
  have hmem : (readIdentifier (underscored u opts.orderBy), cellText u reader g row) ∈ cells := by
    rw [horder]
    exact List.mem_map.mpr
      ⟨(g, underscored u g.name), PlainModel.mem_sortedColumns.mpr ⟨hg, rfl⟩, rfl⟩
  have hkeys : (cells.map Prod.fst).Nodup := by
    simpa [cells, Function.comp_def] using columns_nodup h hdistinct
  have hlookup := Assoc.lookup_of_mem hkeys hmem
  rw [Select.sortText, output_byFields, names_byFields, List.zip_map']
  exact congrArg Option.join hlookup

variable (opts) in
theorem wellFormed_byFields (h : createTable u model schema = .ok t)
    (hdistinct : t.columnNames.Nodup) {filters : List (String × Json)}
    {parts : List (Condition × Option String)}
    (hparts : filters.mapM ((PlainModel.new u t.schema model).filterPart u display) = .ok parts)
    {g : EntityField} (hg : g ∈ model.fields)
    (horder : readIdentifier (underscored u opts.orderBy) = readIdentifier (underscored u g.name))
    (hlimit : 0 ≤ opts.limit) (hoffset : 0 ≤ opts.offset) :
    ((PlainModel.new u t.schema model).selectByFields u (parts.map (·.1)) opts).WellFormed t := by
  obtain ⟨-, htable, -, -⟩ := createTable_ok h
  constructor
  case schema => rfl
  case table => exact htable.symm
  case columns =>
    intro p hp
    obtain ⟨c, hc, rfl⟩ := List.mem_map.mp hp
    obtain ⟨hfield, hname⟩ := PlainModel.mem_sortedColumns.mp hc
    obtain ⟨column, hcolumn, hdescribes, htype, -⟩ := described_column u h hfield
    refine ⟨column, hcolumn, ?_, ?_⟩
    · rw [hdescribes, PlainModel.selectExpr, hname]
    · intro hhex
      obtain ⟨hbytes, harray⟩ : c.1.baseType = "Bytes" ∧ c.1.isArray = false := by
        simpa [PlainModel.selectExpr] using hhex
      rw [columnType, harray, if_neg Bool.false_ne_true, hbytes] at htype
      exact (Except.ok.inj htype).symm
  case types =>
    intro k hk
    obtain ⟨part, hpart, rfl⟩ := List.mem_map.mp hk
    obtain ⟨filter, -, hfilter⟩ := exists_of_mem_mapM hparts hpart
    obtain ⟨f, hf, rfl⟩ := filterPart_ok.mp hfilter
    have hname : f.name = filter.1 := by simpa using List.find?_some hf
    obtain ⟨column, hcolumn, hdescribes, -, hresult⟩ :=
      described_column u h (List.mem_of_find?_eq_some hf)
    exact ⟨column, hcolumn, by rw [hdescribes, hname], hresult⟩
  case order =>
    rw [names_byFields]
    refine List.count_eq_one_of_mem (columns_nodup h hdistinct) ?_
    rw [PlainModel.selectByFields, horder]
    exact List.mem_map.mpr
      ⟨(g, underscored u g.name), PlainModel.mem_sortedColumns.mpr ⟨hg, rfl⟩, rfl⟩
  case limit => exact hlimit
  case offset => exact hoffset

theorem rowToCanonical_inj (h : createTable u model schema = .ok t)
    (hdistinct : t.columnNames.Nodup) {a b : List (Option String)}
    (ha : a.length = ((PlainModel.new u t.schema model).sortedColumns u).length)
    (hb : b.length = ((PlainModel.new u t.schema model).sortedColumns u).length)
    (hsame : (PlainModel.new u t.schema model).rowToCanonical u a =
      (PlainModel.new u t.schema model).rowToCanonical u b) : a = b := by
  let cols := ((PlainModel.new u t.schema model).sortedColumns u).map (·.2)
  have hcols : cols.Nodup := by
    have hread := columns_nodup h hdistinct
    rw [show (fun c : EntityField × String => readIdentifier c.2) = readIdentifier ∘ (·.2) from rfl,
      ← List.map_map] at hread
    exact List.Nodup.of_map _ hread
  have hcells (row : List (Option String)) (hlength : row.length = cols.length) :
      cols.map (fun c => ((PlainModel.new u t.schema model).rowToCanonical u row)[c]?) =
        row.map some := KeyedMap.ofList_zip hcols hlength
  refine List.map_injective_iff.mpr (Option.some_injective _) ?_
  rw [← hcells a (by simpa [cols] using ha), ← hcells b (by simpa [cols] using hb), hsame]

end ByFields

end SuperqueryNode.Store

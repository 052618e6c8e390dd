import SuperqueryNode.Lib.Assoc
import SuperqueryNode.Lib.Fallible
import SuperqueryNode.Lib.Sql
import SuperqueryNode.Store.Literal

namespace SuperqueryNode.Store
open Effects Fallible JsonText Sql

abbrev Row (V : Type) := String → Option V

def systemColumns : List String := ["tableoid", "xmin", "cmin", "xmax", "cmax", "ctid"]

def maxColumns : Nat := 1600

namespace CreateTable

def columnNames (t : CreateTable) : List (Option String) :=
  t.columns.map fun c => readIdentifier c.name

structure Accepted (t : CreateTable) : Prop where
  schema : (readIdentifier t.schema).isSome
  table : (readIdentifier t.table).isSome
  width : t.columns.length ≤ maxColumns
  distinct : t.columnNames.Nodup
  names : ∀ n ∈ t.columnNames, ∃ s, n = some s ∧ s ∉ systemColumns

def key (t : CreateTable) : Option String := t.primaryKey.bind readIdentifier

def required (t : CreateTable) (c : Column) : Bool := c.notNull || t.primaryKey == some c.name

def admits {V : Type} (t : CreateTable) (row : Row V) : Bool :=
  t.columns.all fun c => !t.required c || ((readIdentifier c.name).bind row).isSome

structure Holds {V : Type} (t : CreateTable) (rows : Multiset (Row V)) : Prop where
  admitted : ∀ r ∈ rows, t.admits r = true
  columns : ∀ r ∈ rows, ∀ c, some c ∉ t.columnNames → r c = none
  unique : ∀ k, t.key = some k → (rows.map fun r => r k).Nodup

theorem holds_zero {V : Type} (t : CreateTable) : t.Holds (0 : Multiset (Row V)) :=
  ⟨fun _ hr => (by cases hr), fun _ hr => (by cases hr), fun _ _ => Multiset.nodup_zero⟩

end CreateTable

namespace Upsert
variable {V : Type}

def names (columns : List String) : List (Option String) := columns.map readIdentifier

-- What PostgreSQL checks of the statement before it looks at any value.
structure WellFormed (s : Upsert) (t : CreateTable) : Prop where
  schema : s.schema = t.schema
  table : s.table = t.table
  columns : s.columns ≠ []
  arity : s.values.length = s.columns.length
  distinct : (names s.columns).Nodup
  types : ∀ p ∈ s.columns.zip s.values, ∃ c ∈ t.columns,
    readIdentifier c.name = readIdentifier p.1 ∧ c.type = p.2.result
  arbiter : t.primaryKey.map readIdentifier = some (readIdentifier s.conflict)
  assigns : s.set ≠ []
  once : (names s.set).Nodup
  assigned : ∀ n ∈ names s.set, n ∈ t.columnNames

instance (s : Upsert) (t : CreateTable) : Decidable (s.WellFormed t) :=
  decidable_of_iff (s.schema = t.schema ∧ s.table = t.table ∧ s.columns ≠ [] ∧
      s.values.length = s.columns.length ∧ (names s.columns).Nodup ∧
      (∀ p ∈ s.columns.zip s.values, ∃ c ∈ t.columns,
        readIdentifier c.name = readIdentifier p.1 ∧ c.type = p.2.result) ∧
      t.primaryKey.map readIdentifier = some (readIdentifier s.conflict) ∧ s.set ≠ [] ∧
      (names s.set).Nodup ∧ ∀ n ∈ names s.set, n ∈ t.columnNames)
    ⟨fun ⟨h1, h2, h3, h4, h5, h6, h7, h8, h9, h10⟩ => ⟨h1, h2, h3, h4, h5, h6, h7, h8, h9, h10⟩,
      fun h => ⟨h.schema, h.table, h.columns, h.arity, h.distinct, h.types, h.arbiter, h.assigns,
        h.once, h.assigned⟩⟩

def bindParam (server : Server V) (now : Int) (p : Placeholder) :
    Option String → Except StoreError (Option V)
  | none => .ok none
  | some text => (p.input server now text).map some

def newRow (server : Server V) (now : Int) (s : Upsert) (params : List (Option String)) :
    Except StoreError (Row V) := do
  let values ← (s.values.zip params).mapM fun p => bindParam server now p.1 p.2
  .ok fun c => (((names s.columns).zip values).lookup (some c)).join

def assign (s : Upsert) (row r : Row V) : Row V :=
  fun c => if some c ∈ names s.set then row c else r c

def exec [DecidableEq V] (server : Server V) (now : Int) (t : CreateTable) (s : Upsert)
    (params : List (Option String)) (rows : Multiset (Row V)) :
    Except StoreError (Multiset (Row V)) :=
  match t.key with
  | none => .error server.refusal
  | some k => do
    ensure (decide (s.WellFormed t)) server.refusal
    let row ← newRow server now s params
    ensure (t.admits row) server.refusal
    .ok (upsertRow (fun r => r k = row k) (s.assign row) row rows)

end Upsert

-- When each statement runs, and what becomes of it: no connection, or a lost answer, is an error.
structure Link where
  now : Nat → Int
  delivery : Nat → Delivery StoreError

def Link.quiet : Link := ⟨fun _ => 0, fun _ => .answered⟩

structure World (V : Type) where
  rows : Multiset (Row V)
  sent : Nat

-- `Database::execute`: each statement is a transaction of its own, on a connection of its own.
def request {V : Type} (link : Link)
    (statement : Int → Multiset (Row V) → Except StoreError (Multiset (Row V))) :
    Effect (World V) StoreError := fun w =>
  let ran := attempt (link.delivery w.sent) (whole (statement (link.now w.sent))) w.rows
  (ran.1, ⟨ran.2, w.sent + 1⟩)

theorem request_ok {V : Type} {link : Link}
    {statement : Int → Multiset (Row V) → Except StoreError (Multiset (Row V))} {w w' : World V} :
    request link statement w = (.ok (), w') ↔ link.delivery w.sent = .answered ∧
      statement (link.now w.sent) w.rows = .ok w'.rows ∧ w'.sent = w.sent + 1 := by
  obtain ⟨after, sent⟩ := w'
  rw [← whole_ok, ← and_assoc, ← attempt_ok]
  simp only [request, World.mk.injEq, Prod.ext_iff]
  constructor
  · rintro ⟨hok, hrows, rfl⟩
    exact ⟨⟨hok, hrows⟩, rfl⟩
  · rintro ⟨⟨hok, hrows⟩, rfl⟩
    exact ⟨hok, hrows, rfl⟩

def execute {V : Type} [DecidableEq V] (server : Server V) (link : Link) (t : CreateTable)
    (s : Upsert) (params : List (Option String)) : Effect (World V) StoreError :=
  request link fun now => s.exec server now t params

section Bound
variable {V : Type} (display : Json → String) (server : Server V) (now : Int)

def fieldValue (e : Json) (f : EntityField) : Except StoreError (Option V) :=
  Upsert.bindParam server now (PlainModel.placeholder f) (PlainModel.encode display f (e.get f.name))

end Bound

section Supports
variable {V : Type} (u : Unicode) (floats : FloatText) (server : Server V) (reader : Reader V)

def ValidEntity (model : EntityModel) (t : CreateTable) (e : Json) : Prop :=
  ∀ f ∈ model.fields, (e.get f.name = .null ∧ f.nullable = true ∧
    t.primaryKey ≠ some (underscored u f.name)) ∨ ∃ d, FieldMeans floats f (e.get f.name) d

def CellHolds (f : EntityField) (v : Json) (cell : Option V) : Prop :=
  (v = .null ∧ cell = none) ∨ ∃ ty x d, columnType f = .ok ty ∧ cell = some x ∧
    FieldMeans floats f v d ∧ Shows floats reader ty x d

def HoldsEntity (model : EntityModel) (e : Json) (row : Row V) : Prop :=
  ∀ f ∈ model.fields, ∀ c, readIdentifier (underscored u f.name) = some c →
    CellHolds floats reader f (e.get f.name) (row c)

structure SupportsUpsert [DecidableEq V] (model : EntityModel) (t : CreateTable) : Prop where
  accepted : t.Accepted
  formed : ((PlainModel.new u t.schema model).upsertStatement u).WellFormed t
  target : t.primaryKey.map readIdentifier = some (readIdentifier "id")
  assigns : ((PlainModel.new u t.schema model).upsertStatement u).set ≠ []
  complete : ∀ n ∈ t.columnNames, n ≠ readIdentifier "id" →
    n ∈ Upsert.names ((PlainModel.new u t.schema model).upsertStatement u).set
  keyed : ∀ rows : Multiset (Row V), t.Holds rows → ∀ e, ValidEntity u floats model t e →
    ∀ link : Link, link.delivery 0 = .answered →
    ∃ written row, (PlainModel.new u t.schema model).upsert u (display floats)
        (execute server link t) [e] ⟨rows, 0⟩ = (.ok (), ⟨written, 1⟩) ∧ t.Holds written ∧
      HoldsEntity u floats reader model e row ∧
      written.filter (fun r => r "id" = row "id") = {row} ∧
      written.filter (fun r => r "id" ≠ row "id") = rows.filter fun r => r "id" ≠ row "id"

structure UpsertShape (model : EntityModel) (schema : String) : Prop where
  schema : (readIdentifier schema).isSome
  table : (readIdentifier (modelToTableName u model.name)).isSome
  width : model.fields.length ≤ maxColumns
  distinct : (model.fields.map fun f => readIdentifier (underscored u f.name)).Nodup
  names : ∀ f ∈ model.fields, ∃ c, readIdentifier (underscored u f.name) = some c ∧
    c ∉ systemColumns
  key : ∃ f, model.fields.filter (fun f => f.baseType = "ID") = [f] ∧
    readIdentifier (underscored u f.name) = some "id"
  other : ∃ f ∈ model.fields, f.baseType ≠ "ID"
  json : ∀ f ∈ model.fields, f.baseType = "Json" → f.isArray = true

theorem read_id : readIdentifier "id" = some "id" := by decide

section Created
variable {model : EntityModel} {schema : String} {t : CreateTable}

theorem columnNames_eq (h : createTable u model schema = .ok t) :
    t.columnNames = model.fields.map fun f => readIdentifier (underscored u f.name) := by
  have hnames := congrArg (List.map readIdentifier) (described_names (createTable_ok h).2.2.1)
  simpa [CreateTable.columnNames, Function.comp_def] using hnames

theorem names_columns (h : createTable u model schema = .ok t) :
    (Upsert.names ((PlainModel.new u t.schema model).upsertStatement u).columns).Perm
      t.columnNames := by
  rw [columnNames_eq u h, Upsert.names, PlainModel.upsertStatement, List.map_map]
  exact PlainModel.sortedColumns_map readIdentifier

theorem mem_names_set {schema : String} {n : Option String} :
    n ∈ Upsert.names ((PlainModel.new u schema model).upsertStatement u).set ↔
      ∃ f ∈ model.fields, f.baseType ≠ "ID" ∧ readIdentifier (underscored u f.name) = n := by
  simp only [Upsert.names, PlainModel.upsertStatement, List.mem_map, List.mem_filter,
    PlainModel.mem_sortedColumns, decide_eq_true_eq]
  constructor
  · rintro ⟨_, ⟨c, ⟨⟨hc, hname⟩, hid⟩, rfl⟩, rfl⟩
    exact ⟨c.1, hc, hid, by rw [hname]⟩
  · rintro ⟨f, hf, hid, rfl⟩
    exact ⟨_, ⟨(f, underscored u f.name), ⟨⟨hf, rfl⟩, hid⟩, rfl⟩, rfl⟩

theorem shape_key_unique (shape : UpsertShape u model schema) {f : EntityField}
    (hf : f ∈ model.fields) (hid : f.baseType = "ID") :
    readIdentifier (underscored u f.name) = some "id" := by
  obtain ⟨key, hfilter, hread⟩ := shape.key
  have hmem : f ∈ model.fields.filter fun f => f.baseType = "ID" :=
    List.mem_filter.mpr ⟨hf, decide_eq_true hid⟩
  rw [hfilter, List.mem_singleton] at hmem
  rw [hmem, hread]

theorem shape_distinct (h : createTable u model schema = .ok t)
    (shape : UpsertShape u model schema) : t.columnNames.Nodup := by
  rw [columnNames_eq u h]
  exact shape.distinct

theorem shape_target (h : createTable u model schema = .ok t)
    (shape : UpsertShape u model schema) :
    t.primaryKey.map readIdentifier = some (readIdentifier "id") := by
  obtain ⟨f, hfilter, hid⟩ := shape.key
  rw [(createTable_ok h).2.2.2, keyField, hfilter]
  exact congrArg some hid

theorem described_column (h : createTable u model schema = .ok t) {f : EntityField}
    (hf : f ∈ model.fields) : ∃ column ∈ t.columns, column.name = underscored u f.name ∧
      columnType f = .ok column.type ∧ column.type = (PlainModel.placeholder f).result := by
  obtain ⟨-, -, hdescribed, -⟩ := createTable_ok h
  obtain ⟨column, hcolumn, hname, htype, -⟩ := Fallible.exists_right hdescribed hf
  exact ⟨column, hcolumn, hname, htype, (placeholder_result htype).symm⟩

theorem shape_wellFormed (h : createTable u model schema = .ok t)
    (shape : UpsertShape u model schema) :
    ((PlainModel.new u t.schema model).upsertStatement u).WellFormed t := by
  obtain ⟨-, htable, -, -⟩ := createTable_ok h
  obtain ⟨other, hother, hnotid⟩ := shape.other
  have hnames := (names_columns u h).nodup_iff.mpr (shape_distinct u h shape)
  constructor
  case schema => rfl
  case table => exact htable.symm
  case columns =>
    intro hnil
    have hmem : (other, underscored u other.name) ∈
        (PlainModel.new u t.schema model).sortedColumns u :=
      PlainModel.mem_sortedColumns.mpr ⟨hother, rfl⟩
    rw [PlainModel.upsertStatement, List.map_eq_nil_iff] at hnil
    rw [hnil] at hmem
    cases hmem
  case arity => simp [PlainModel.upsertStatement]
  case distinct => exact hnames
  case types =>
    intro p hp
    rw [PlainModel.upsertStatement, List.zip_map', List.mem_map] at hp
    obtain ⟨c, hc, rfl⟩ := hp
    obtain ⟨hfield, hname⟩ := PlainModel.mem_sortedColumns.mp hc
    obtain ⟨column, hcolumn, hdescribes, -, hresult⟩ := described_column u h hfield
    exact ⟨column, hcolumn, by rw [hdescribes, hname], hresult⟩
  case arbiter => exact shape_target u h shape
  case assigns =>
    intro hnil
    have hmem : readIdentifier (underscored u other.name) ∈
        Upsert.names ((PlainModel.new u t.schema model).upsertStatement u).set :=
      (mem_names_set u).mpr ⟨other, hother, hnotid, rfl⟩
    rw [hnil] at hmem
    cases hmem
  case once =>
    exact hnames.sublist ((List.filter_sublist.map _).map _)
  case assigned =>
    intro n hn
    obtain ⟨f, hf, -, rfl⟩ := (mem_names_set u).mp hn
    rw [columnNames_eq u h]
    exact List.mem_map_of_mem hf

section Rows
variable {display : Json → String} {server} {now : Int} {e : Json} {row : Row V}

theorem newRow_ok (hnew : Upsert.newRow server now
    ((PlainModel.new u t.schema model).upsertStatement u)
    ((PlainModel.new u t.schema model).upsertParams u display e) = .ok row) :
    ∃ values, List.Forall₂ (fun (c : EntityField × String) v =>
        fieldValue display server now e c.1 = .ok v)
        ((PlainModel.new u t.schema model).sortedColumns u) values ∧
      row = fun c => ((((PlainModel.new u t.schema model).sortedColumns u).map
        fun c => readIdentifier c.2).zip values |>.lookup (some c)).join := by
  obtain ⟨values, hvalues, hrow⟩ := bind_eq_ok.mp hnew
  rw [PlainModel.upsertStatement, PlainModel.upsertParams, List.zip_map', List.mapM_map,
    mapM_eq_ok] at hvalues
  refine ⟨values, hvalues, ?_⟩
  rw [← Except.ok.inj hrow, Upsert.names, PlainModel.upsertStatement, List.map_map]
  rfl

theorem newRow_holds (h : createTable u model schema = .ok t) (hdistinct : t.columnNames.Nodup)
    (hnew : Upsert.newRow server now ((PlainModel.new u t.schema model).upsertStatement u)
      ((PlainModel.new u t.schema model).upsertParams u display e) = .ok row) :
    ∀ f ∈ model.fields, ∀ c, readIdentifier (underscored u f.name) = some c →
      fieldValue display server now e f = .ok (row c) := by
  intro f hf c hc
  obtain ⟨values, hvalues, rfl⟩ := newRow_ok u hnew
  have hcol : (f, underscored u f.name) ∈ (PlainModel.new u t.schema model).sortedColumns u :=
    PlainModel.mem_sortedColumns.mpr ⟨hf, rfl⟩
  obtain ⟨v, hzip, hv⟩ := exists_zip hvalues hcol
  have hpairs : (some c, v) ∈ (((PlainModel.new u t.schema model).sortedColumns u).map
      fun c => readIdentifier c.2).zip values := by
    rw [List.zip_map_left]
    exact List.mem_map.mpr ⟨_, hzip, by rw [← hc]; rfl⟩
  have hkeys : ((((PlainModel.new u t.schema model).sortedColumns u).map
      fun c => readIdentifier c.2).zip values |>.map Prod.fst).Nodup := by
    rw [List.map_fst_zip (by simp [hvalues.length_eq])]
    rw [columnNames_eq u h] at hdistinct
    exact (PlainModel.sortedColumns_map readIdentifier).nodup_iff.mpr hdistinct
  have hlookup := Assoc.lookup_of_mem hkeys hpairs
  simp only [hlookup, Option.join_some]
  exact hv

theorem newRow_outside (h : createTable u model schema = .ok t)
    (hnew : Upsert.newRow server now ((PlainModel.new u t.schema model).upsertStatement u)
      ((PlainModel.new u t.schema model).upsertParams u display e) = .ok row) {c : String}
    (hc : some c ∉ t.columnNames) : row c = none := by
  obtain ⟨values, hvalues, rfl⟩ := newRow_ok u hnew
  have hnone : List.lookup (some c) ((((PlainModel.new u t.schema model).sortedColumns u).map
      fun c => readIdentifier c.2).zip values) = none := by
    rw [List.lookup_eq_none_iff]
    intro p hp
    rw [bne_iff_ne]
    rintro heq
    rw [columnNames_eq u h] at hc
    exact hc ((PlainModel.sortedColumns_map readIdentifier).mem_iff.mp
      (heq ▸ (List.of_mem_zip hp).1))
  simp only [hnone, Option.join_none]

theorem newRow_total (hvalues : ∀ f ∈ model.fields, ∃ v, fieldValue display server now e f = .ok v) :
    ∃ row, Upsert.newRow server now ((PlainModel.new u t.schema model).upsertStatement u)
      ((PlainModel.new u t.schema model).upsertParams u display e) = .ok row := by
  obtain ⟨values, hall⟩ : ∃ values, ((PlainModel.new u t.schema model).sortedColumns u).mapM
      (fun c => fieldValue display server now e c.1) = .ok values := by
    simp only [mapM_eq_ok]
    exact exists_forall₂.mpr fun c hc => hvalues c.1 (PlainModel.mem_sortedColumns.mp hc).1
  refine ⟨_, bind_eq_ok.mpr ⟨values, ?_, rfl⟩⟩
  rw [PlainModel.upsertStatement, PlainModel.upsertParams, List.zip_map', List.mapM_map]
  exact hall

end Rows

section Valid
variable {floats server reader} {now : Int} {e : Json}

theorem fieldValue_holds (hcasts : Casts floats server reader) {f : EntityField} {ty : SqlType}
    (hty : columnType f = .ok ty) (hjson : f.baseType = "Json" → f.isArray = true)
    (hvalid : e.get f.name = .null ∨ ∃ d, FieldMeans floats f (e.get f.name) d) :
    ∃ v, fieldValue (display floats) server now e f = .ok v ∧
      CellHolds floats reader f (e.get f.name) v := by
  rcases hvalid with hnull | ⟨d, hd⟩
  · exact ⟨none, by rw [fieldValue, hnull]; rfl, .inl ⟨hnull, rfl⟩⟩
  · obtain ⟨text, x, hencode, hinput, hshows⟩ := encode_means hcasts hty hd hjson now
    refine ⟨some x, ?_, .inr ⟨ty, x, d, hty, rfl, hd, hshows⟩⟩
    rw [fieldValue, hencode, Upsert.bindParam, hinput]
    rfl

theorem newRow_valid (hcasts : Casts floats server reader) (h : createTable u model schema = .ok t)
    (shape : UpsertShape u model schema) (he : ValidEntity u floats model t e) (now : Int) :
    ∃ row, Upsert.newRow server now ((PlainModel.new u t.schema model).upsertStatement u)
        ((PlainModel.new u t.schema model).upsertParams u (display floats) e) = .ok row ∧
      HoldsEntity u floats reader model e row := by
  have hvalues : ∀ f ∈ model.fields, ∃ v, fieldValue (display floats) server now e f = .ok v ∧
      CellHolds floats reader f (e.get f.name) v := by
    intro f hf
    obtain ⟨column, -, -, hty, -⟩ := described_column u h hf
    exact fieldValue_holds hcasts hty (shape.json f hf) ((he f hf).imp_left fun hnull => hnull.1)
  obtain ⟨row, hnew⟩ := newRow_total u fun f hf => (hvalues f hf).imp fun _ hv => hv.1
  refine ⟨row, hnew, fun f hf c hc => ?_⟩
  obtain ⟨v, hv, hholds⟩ := hvalues f hf
  have hrow := newRow_holds u h (shape_distinct u h shape) hnew f hf c hc
  rw [hv] at hrow
  rwa [← Except.ok.inj hrow]

theorem admits_valid (h : createTable u model schema = .ok t)
    (shape : UpsertShape u model schema) (he : ValidEntity u floats model t e)
    {row : Row V} (hrow : HoldsEntity u floats reader model e row) : t.admits row = true := by
  rw [CreateTable.admits, List.all_eq_true]
  intro c hc
  cases hrequired : t.required c with
  | false => rfl
  | true =>
    obtain ⟨f, hf, hdescribes⟩ := exists_left (createTable_ok h).2.2.1 hc
    obtain ⟨s, hs, -⟩ := shape.names f hf
    have hread : readIdentifier c.name = some s := by rw [hdescribes.1, hs]
    have hkey : f.nullable = false ∨ t.primaryKey = some (underscored u f.name) := by
      rw [CreateTable.required, hdescribes.2.2, hdescribes.1] at hrequired
      simpa using hrequired
    rw [hread, Option.bind_some]
    rcases hrow f hf s hs with ⟨hnull, -⟩ | ⟨ty, x, d, -, hx, -⟩
    · obtain ⟨-, hnullable, hnotkey⟩ | ⟨d, hd⟩ := he f hf
      · rcases hkey with hkey | hkey
        · rw [hkey] at hnullable
          cases hnullable
        · exact absurd hkey hnotkey
      · exact absurd hnull (fieldMeans_ne_null hd)
    · rw [hx]
      rfl

end Valid

theorem key_of_target (h : t.primaryKey.map readIdentifier = some (readIdentifier "id")) :
    t.key = some "id" := by
  obtain ⟨k, hk, hid⟩ := Option.map_eq_some_iff.mp h
  rw [CreateTable.key, hk, Option.bind_some, hid, read_id]

theorem assign_same (h : createTable u model schema = .ok t)
    (shape : UpsertShape u model schema) {row r : Row V} (hkey : r "id" = row "id")
    (hr : ∀ c, some c ∉ t.columnNames → r c = none)
    (hrow : ∀ c, some c ∉ t.columnNames → row c = none) :
    ((PlainModel.new u t.schema model).upsertStatement u).assign row r = row := by
  funext c
  rw [Upsert.assign]
  split_ifs with hset
  · rfl
  · by_cases hcolumn : some c ∈ t.columnNames
    · rw [columnNames_eq u h, List.mem_map] at hcolumn
      obtain ⟨f, hf, hread⟩ := hcolumn
      have hfid : f.baseType = "ID" := by
        by_contra hne
        exact hset ((mem_names_set u).mpr ⟨f, hf, hne, hread⟩)
      rw [shape_key_unique u shape hf hfid] at hread
      cases hread
      exact hkey
    · rw [hr c hcolumn, hrow c hcolumn]

theorem exec_shape [DecidableEq V] {floats server reader} (hcasts : Casts floats server reader)
    (h : createTable u model schema = .ok t) (shape : UpsertShape u model schema)
    {rows : Multiset (Row V)} (hrows : t.Holds rows) {e : Json}
    (he : ValidEntity u floats model t e) (now : Int) :
    ∃ row, Upsert.newRow server now ((PlainModel.new u t.schema model).upsertStatement u)
        ((PlainModel.new u t.schema model).upsertParams u (display floats) e) = .ok row ∧
      ((PlainModel.new u t.schema model).upsertStatement u).exec server now t
        ((PlainModel.new u t.schema model).upsertParams u (display floats) e) rows =
          .ok (keyed (fun r => r "id") row rows) ∧
      HoldsEntity u floats reader model e row ∧ t.Holds (keyed (fun r => r "id") row rows) := by
  obtain ⟨row, hnew, hholds⟩ := newRow_valid u hcasts h shape he now
  have hnone : ∀ c, some c ∉ t.columnNames → row c = none :=
    fun c hc => newRow_outside u h hnew hc
  have hkey := key_of_target (shape_target u h shape)
  have hadmits := admits_valid u h shape he hholds
  refine ⟨row, hnew, ?_, hholds, ?_⟩
  · rw [Upsert.exec, hkey]
    have hunique := hrows.unique "id" hkey
    have hset : ∀ r ∈ rows, r "id" = row "id" →
        ((PlainModel.new u t.schema model).upsertStatement u).assign row r = row :=
      fun r hr hid => assign_same u h shape hid (hrows.columns r hr) hnone
    rw [← upsertRow_keyed hunique hset]
    have hformed := decide_eq_true (shape_wellFormed u h shape)
    refine bind_eq_ok.mpr ⟨⟨⟩, ensure_eq_ok.mpr hformed, ?_⟩
    refine bind_eq_ok.mpr ⟨row, hnew, ?_⟩
    exact bind_eq_ok.mpr ⟨⟨⟩, ensure_eq_ok.mpr hadmits, rfl⟩
  · constructor
    case admitted =>
      intro r hr
      rcases mem_keyed hr with rfl | hr
      · exact hadmits
      · exact hrows.admitted r hr
    case columns =>
      intro r hr
      rcases mem_keyed hr with rfl | hr
      · exact hnone
      · exact hrows.columns r hr
    case unique =>
      intro k hk
      rw [hkey] at hk
      cases hk
      exact keyed_unique (hrows.unique "id" hkey)

end Created

section Iff
variable [DecidableEq V] {model : EntityModel} {schema : String} {t : CreateTable}

-- A second field of type `ID` would be left out of the update list without being the key.
theorem supports_key (h : createTable u model schema = .ok t)
    (hs : SupportsUpsert u floats server reader model t) :
    ∃ f, model.fields.filter (fun f => f.baseType = "ID") = [f] ∧
      readIdentifier (underscored u f.name) = some "id" := by
  have hdistinct := hs.accepted.distinct
  rw [columnNames_eq u h] at hdistinct
  obtain ⟨k, hk, hid⟩ := Option.map_eq_some_iff.mp hs.target
  rw [(createTable_ok h).2.2.2] at hk
  obtain ⟨f, hf, rfl⟩ := Option.map_eq_some_iff.mp hk
  rw [read_id] at hid
  obtain ⟨hmem, hfid⟩ := List.mem_filter.mp (List.mem_of_getLast? hf)
  have honly : ∀ g ∈ model.fields.filter fun f => f.baseType = "ID", g = f := by
    intro g hg
    obtain ⟨hgmem, hgid⟩ := List.mem_filter.mp hg
    by_cases hgread : readIdentifier (underscored u g.name) = readIdentifier "id"
    · exact List.inj_on_of_nodup_map hdistinct hgmem hmem (by rw [hgread, hid, read_id])
    · have hcolumn : readIdentifier (underscored u g.name) ∈ t.columnNames := by
        rw [columnNames_eq u h]
        exact List.mem_map_of_mem hgmem
      obtain ⟨other, hother, hne, heq⟩ :=
        (mem_names_set u).mp (hs.complete _ hcolumn hgread)
      rw [List.inj_on_of_nodup_map hdistinct hother hgmem heq] at hne
      exact absurd (of_decide_eq_true hgid) hne
  have hnodup := (List.Nodup.of_map _ hdistinct).filter fun f => f.baseType = "ID"
  refine ⟨f, ?_, hid⟩
  exact List.perm_singleton.mp ((List.perm_ext_iff_of_nodup hnodup (List.nodup_singleton f)).mpr
    fun g => ⟨fun hg => List.mem_singleton.mpr (honly g hg), fun hg => by
      rw [List.mem_singleton.mp hg]
      exact List.mem_of_getLast? hf⟩)

def sampleOf : SqlType → Json
  | .text | .bytea => .string ""
  | .integer | .numeric => .number (.posInt 0)
  | .doublePrecision => .number (.float 0)
  | .boolean => .bool true
  | .timestamp => .string "2000-01-01T00:00:00"
  | .jsonb => .string "1"

def sample (f : EntityField) : Json :=
  if f.isArray then .array [] else (columnType f).toOption.elim .null sampleOf

def sampleEntity (model : EntityModel) : Json :=
  .object (model.fields.map fun f => (f.name, sample f))

omit [DecidableEq V] in
theorem sampleOf_means (ty : SqlType) : ∃ d, Means floats ty (sampleOf ty) d := by
  cases ty with
  | text => exact ⟨_, .text (by decide)⟩
  | integer => exact ⟨_, .integer (by decide) rfl (by decide)⟩
  | numeric => exact ⟨_, .numeric (by decide) rfl⟩
  | doublePrecision =>
    have hzero : FiniteDouble 0 := by decide
    exact ⟨_, .double hzero (floats.read_write 0 hzero) hzero⟩
  | boolean => exact ⟨_, .boolean true⟩
  | bytea => exact ⟨.bytes [], .bytes rfl⟩
  | timestamp => exact ⟨_, .timestamp (t := ⟨2000, 1, 1, 0, 0, 0, 0⟩) (by decide)⟩
  | jsonb => exact ⟨_, .json nofun (.string "1") (by decide)⟩

omit [DecidableEq V] in
theorem sample_single {f : EntityField} {ty : SqlType} (hty : columnType f = .ok ty)
    (harray : f.isArray = false) : sample f = sampleOf ty := by
  rw [sample, harray, if_neg Bool.false_ne_true, hty]
  rfl

omit [DecidableEq V] in
theorem sample_means {f : EntityField} {ty : SqlType} (hty : columnType f = .ok ty) :
    ∃ d, FieldMeans floats f (sample f) d := by
  cases harray : f.isArray with
  | true =>
    have hsample : sample f = .array [] := by rw [sample, if_pos harray]
    refine ⟨.json (.array []), fun _ => ⟨[], hsample⟩, .jsonb, ?_, ?_⟩
    · rw [columnType, if_pos harray]
    · rw [hsample]
      exact .json (by simp) (.array fun _ hv => absurd hv List.not_mem_nil) (by decide)
  | false =>
    obtain ⟨d, hd⟩ := sampleOf_means floats ty
    refine ⟨d, fun htrue => absurd (harray.symm.trans htrue) Bool.false_ne_true, ty, hty, ?_⟩
    rwa [sample_single hty harray]

omit [DecidableEq V] in
theorem get_sampleEntity {f : EntityField} (hnames : (model.fields.map (·.name)).Nodup)
    (hf : f ∈ model.fields) : (sampleEntity model).get f.name = sample f := by
  have hkeys : ((model.fields.map fun f => (f.name, sample f)).map Prod.fst).Nodup := by
    rwa [List.map_map]
  have hlookup := Assoc.lookup_of_mem hkeys
    (List.mem_map_of_mem (f := fun f : EntityField => (f.name, sample f)) hf)
  simp only [sampleEntity, Json.get, hlookup, Option.getD_some]

theorem supports_first
    (hs : SupportsUpsert u floats server reader model t) {e : Json}
    (he : ValidEntity u floats model t e) : ∃ row, HoldsEntity u floats reader model e row ∧
      Upsert.newRow server 0 ((PlainModel.new u t.schema model).upsertStatement u)
        ((PlainModel.new u t.schema model).upsertParams u (display floats) e) = .ok row := by
  obtain ⟨written, row, hrun, -, hholds, hself, -⟩ :=
    hs.keyed 0 (CreateTable.holds_zero t) e he .quiet rfl
  obtain ⟨w, hfirst, hrest⟩ := andThen_ok.mp hrun
  obtain ⟨-, hexec, -⟩ := request_ok.mp hfirst
  obtain rfl : w = ⟨written, 1⟩ := congrArg Prod.snd hrest
  rw [Upsert.exec, key_of_target hs.target] at hexec
  obtain ⟨_, -, hexec⟩ := bind_eq_ok.mp hexec
  obtain ⟨sent, hnew, hexec⟩ := bind_eq_ok.mp hexec
  obtain ⟨_, -, hwritten⟩ := bind_eq_ok.mp hexec
  have hmem : row ∈ written :=
    Multiset.mem_of_mem_filter (hself ▸ Multiset.mem_singleton_self row)
  have hrows : upsertRow _ _ sent 0 = written := Except.ok.inj hwritten
  rw [← hrows, upsertRow, if_pos (Multiset.countP_zero _)] at hmem
  rcases Multiset.mem_cons.mp hmem with rfl | hmem
  · exact ⟨row, hholds, hnew⟩
  · exact absurd hmem (Multiset.notMem_zero row)

omit [DecidableEq V] in
theorem sampleEntity_valid (h : createTable u model schema = .ok t)
    (hnames : (model.fields.map (·.name)).Nodup) :
    ValidEntity u floats model t (sampleEntity model) := by
  intro f hf
  obtain ⟨column, -, -, hty, -⟩ := described_column u h hf
  rw [get_sampleEntity hnames hf]
  exact .inr (sample_means floats hty)

theorem one_parses : parseText floats "1" = some (.number (.posInt 1)) := by
  have htext : display floats (.number (.posInt 1)) = "1" := by
    rw [print_number]
    rfl
  rw [← htext]
  exact parse_display (.number (by decide))

omit [DecidableEq V] in
theorem string_not_held {server : Server V} {reader : Reader V}
    (hcasts : Casts floats server reader) {f : EntityField} (hty : columnType f = .ok .jsonb)
    (harray : f.isArray = false) {e : Json} (he : e.get f.name = .string "1") {now : Int}
    {cell : Option V} (hcell : fieldValue (display floats) server now e f = .ok cell) :
    ¬CellHolds floats reader f (.string "1") cell := by
  obtain ⟨x, hx, hnumber⟩ :=
    hcasts.json now "1" _ (one_parses floats) (.number (by decide)) (by decide)
  rw [fieldValue, he, encode_string hty (by decide) harray, placeholder_castTo hty] at hcell
  have hbound : (server.literal now .jsonb "1").map some = .ok (some x) := by
    rw [hx]
    rfl
  obtain rfl : some x = cell := Except.ok.inj (hbound.symm.trans hcell)
  rintro (⟨hnull, -⟩ | ⟨ty, x', d, hty', hx', ⟨-, ty'', hty'', hmeans⟩, hshows⟩)
  · cases hnull
  · obtain rfl := Except.ok.inj (hty.symm.trans hty')
    obtain rfl := Except.ok.inj (hty.symm.trans hty'')
    obtain rfl := Option.some.inj hx'
    cases hmeans
    obtain ⟨stored, hstored, hsame⟩ := shows_json hnumber
    obtain ⟨stored', hstored', hsame'⟩ := shows_json hshows
    obtain rfl := Option.some.inj (hstored.symm.trans hstored')
    cases hsame'
    cases hsame

theorem supports_json (hcasts : Casts floats server reader) (h : createTable u model schema = .ok t)
    (hs : SupportsUpsert u floats server reader model t) {f : EntityField} (hf : f ∈ model.fields)
    (hjson : f.baseType = "Json") : f.isArray = true := by
  by_contra harray
  have harray : f.isArray = false := by simpa using harray
  have hty : columnType f = .ok .jsonb := by
    rw [columnType, harray, if_neg Bool.false_ne_true, hjson]
    rfl
  have hdistinct := hs.accepted.distinct
  have hnames : (model.fields.map (·.name)).Nodup := by
    rw [columnNames_eq u h] at hdistinct
    refine List.Nodup.of_map (fun name => readIdentifier (underscored u name)) ?_
    rwa [List.map_map]
  have hone : (sampleEntity model).get f.name = .string "1" := by
    rw [get_sampleEntity hnames hf, sample_single hty harray, sampleOf]
  obtain ⟨row, hholds, hnew⟩ :=
    supports_first u floats server reader hs (sampleEntity_valid u floats h hnames)
  obtain ⟨c, hc, -⟩ := hs.accepted.names (readIdentifier (underscored u f.name)) (by
    rw [columnNames_eq u h]
    exact List.mem_map_of_mem hf)
  have hstored := hholds f hf c hc
  rw [hone] at hstored
  exact string_not_held floats hcasts hty harray hone (newRow_holds u h hdistinct hnew f hf c hc)
    hstored

theorem supports_shape (hcasts : Casts floats server reader)
    (h : createTable u model schema = .ok t)
    (hs : SupportsUpsert u floats server reader model t) : UpsertShape u model schema := by
  obtain ⟨hschema, htable, hdescribed, -⟩ := createTable_ok h
  constructor
  case schema => exact hschema ▸ hs.accepted.schema
  case table => exact htable ▸ hs.accepted.table
  case width => exact hdescribed.length_eq ▸ hs.accepted.width
  case distinct => exact columnNames_eq u h ▸ hs.accepted.distinct
  case names =>
    intro f hf
    apply hs.accepted.names
    rw [columnNames_eq u h]
    exact List.mem_map_of_mem hf
  case key => exact supports_key u floats server reader h hs
  case other =>
    obtain ⟨s, hset⟩ := List.exists_mem_of_ne_nil _ hs.assigns
    obtain ⟨f, hf, hid, -⟩ := (mem_names_set u).mp (List.mem_map_of_mem hset)
    exact ⟨f, hf, hid⟩
  case json => exact fun f hf hjson => supports_json u floats server reader hcasts h hs hf hjson

theorem shape_accepted (h : createTable u model schema = .ok t)
    (shape : UpsertShape u model schema) : t.Accepted := by
  obtain ⟨hschema, htable, hdescribed, -⟩ := createTable_ok h
  constructor
  case schema => exact hschema ▸ shape.schema
  case table => exact htable ▸ shape.table
  case width => exact hdescribed.length_eq ▸ shape.width
  case distinct => exact shape_distinct u h shape
  case names =>
    rw [columnNames_eq u h]
    intro n hn
    obtain ⟨f, hf, rfl⟩ := List.mem_map.mp hn
    exact shape.names f hf

theorem shape_supports (hcasts : Casts floats server reader)
    (h : createTable u model schema = .ok t) (shape : UpsertShape u model schema) :
    SupportsUpsert u floats server reader model t := by
  constructor
  case accepted => exact shape_accepted u h shape
  case formed => exact shape_wellFormed u h shape
  case target => exact shape_target u h shape
  case assigns => exact (shape_wellFormed u h shape).assigns
  case complete =>
    intro n hn hne
    rw [columnNames_eq u h, List.mem_map] at hn
    obtain ⟨f, hf, rfl⟩ := hn
    refine (mem_names_set u).mpr ⟨f, hf, ?_, rfl⟩
    intro hid
    rw [shape_key_unique u shape hf hid, read_id] at hne
    exact hne rfl
  case keyed =>
    intro rows hrows e he link hlink
    obtain ⟨row, -, hexec, hrow, hholds⟩ := exec_shape u hcasts h shape hrows he (link.now 0)
    refine ⟨_, row, ?_, hholds, hrow, keyed_same row rows, keyed_other row rows⟩
    exact andThen_ok.mpr ⟨_, request_ok.mpr ⟨hlink, hexec, rfl⟩, rfl⟩

theorem upsert_supported_iff (hcasts : Casts floats server reader)
    (h : createTable u model schema = .ok t) :
    SupportsUpsert u floats server reader model t ↔ UpsertShape u model schema :=
  ⟨supports_shape u floats server reader hcasts h, shape_supports u floats server reader hcasts h⟩

end Iff
end Supports

theorem transfer_shape : UpsertShape .ascii transfer "app" where
  schema := by decide
  table := by
    rw [transfer, transfer_table]
    decide
  width := by decide
  distinct := by decide
  names := by decide
  key := ⟨⟨"id", "ID", false, false⟩, by decide, by decide⟩
  other := by decide
  json := by decide

theorem transfers_support_upsert :
    SupportsUpsert .ascii plainFloats (textServer plainFloats) textReader transfer transfers :=
  (upsert_supported_iff .ascii plainFloats (textServer plainFloats) textReader
    (text_casts plainFloats) transfer_created).mpr transfer_shape

theorem lone_id_unsupported : ¬∀ model schema t, createTable .ascii model schema = .ok t →
    SupportsUpsert .ascii plainFloats (textServer plainFloats) textReader model t := by
  intro h
  have hcreated : createTable .ascii ⟨"Transfer", [⟨"id", "ID", false, false⟩]⟩ "app" =
      .ok ⟨"app", "transfers", [⟨"id", .text, true⟩], some "id"⟩ := by
    rw [createTable, transfer_table]
    decide
  have hs := h _ _ _ hcreated
  exact hs.assigns (by decide)

end SuperqueryNode.Store

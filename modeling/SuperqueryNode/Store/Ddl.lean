import SuperqueryNode.Store.Naming
import SuperqueryNode.Store.Schema

namespace SuperqueryNode.Store

inductive SqlType where
  | text
  | integer
  | numeric
  | doublePrecision
  | boolean
  | bytea
  | timestamp
  | jsonb
deriving DecidableEq, Repr

def SqlType.keyword : SqlType → String
  | text => "text"
  | integer => "integer"
  | numeric => "numeric"
  | doublePrecision => "double precision"
  | boolean => "boolean"
  | bytea => "bytea"
  | timestamp => "timestamp"
  | jsonb => "jsonb"

def columnType (field : EntityField) : Except StoreError SqlType :=
  if field.isArray then .ok .jsonb
  else match field.baseType with
  | "ID" | "String" => .ok .text
  | "Int" => .ok .integer
  | "BigInt" => .ok .numeric
  | "Float" => .ok .doublePrecision
  | "Boolean" => .ok .boolean
  | "Bytes" => .ok .bytea
  | "Date" => .ok .timestamp
  | "Json" => .ok .jsonb
  | other => .error (.unsupportedType other)

structure Column where
  name : String
  type : SqlType
  notNull : Bool
deriving DecidableEq, Repr

structure CreateTable where
  schema : String
  table : String
  columns : List Column
  primaryKey : Option String
deriving DecidableEq, Repr

def Column.sql (c : Column) : String :=
  "  \"" ++ c.name ++ "\" " ++ c.type.keyword ++ if c.notNull then " NOT NULL" else ""

def CreateTable.sql (t : CreateTable) : String :=
  let key := t.primaryKey.toList.map fun pk => "  PRIMARY KEY (\"" ++ pk ++ "\")"
  "CREATE TABLE \"" ++ t.schema ++ "\".\"" ++ t.table ++ "\" (\n" ++
    ",\n".intercalate (t.columns.map Column.sql ++ key) ++ "\n);"

def addField (u : Unicode) (acc : List Column × Option String) (field : EntityField) :
    Except StoreError (List Column × Option String) := do
  let col := underscored u field.name
  let ty ← columnType field
  .ok (acc.1 ++ [⟨col, ty, !field.nullable⟩], if field.baseType = "ID" then some col else acc.2)

def createTable (u : Unicode) (model : EntityModel) (schema : String) :
    Except StoreError CreateTable := do
  let (columns, primaryKey) ← model.fields.foldlM (addField u) ([], none)
  .ok ⟨schema, modelToTableName u model.name, columns, primaryKey⟩

def createTables (u : Unicode) (models : List EntityModel) (schema : String) :
    Except StoreError (List CreateTable) :=
  models.mapM fun m => createTable u m schema

section Columns
variable {u : Unicode} {model : EntityModel} {schema : String} {t : CreateTable}

def Describes (u : Unicode) (f : EntityField) (c : Column) : Prop :=
  c.name = underscored u f.name ∧ columnType f = .ok c.type ∧ c.notNull = !f.nullable

-- The key is the column of the last field of type `ID`.
def keyField (fields : List EntityField) : Option EntityField :=
  (fields.filter fun f => f.baseType = "ID").getLast?

theorem keyField_cons (f : EntityField) (fields : List EntityField) :
    keyField (f :: fields) =
      (keyField fields).or (if f.baseType = "ID" then some f else none) := by
  by_cases hid : f.baseType = "ID"
  · simp only [keyField, List.filter_cons, hid, decide_true, if_true, List.getLast?_cons]
    cases (fields.filter fun f => f.baseType = "ID").getLast? <;> rfl
  · simp [keyField, hid]

theorem foldlM_addField {fields : List EntityField} : ∀ {acc r : List Column × Option String},
    fields.foldlM (addField u) acc = .ok r → ∃ added, r.1 = acc.1 ++ added ∧
      List.Forall₂ (Describes u) fields added ∧
      r.2 = ((keyField fields).map (underscored u ·.name)).or acc.2 := by
  induction fields with
  | nil =>
    rintro acc r h
    cases h
    exact ⟨[], by simp, .nil, rfl⟩
  | cons f fields ih =>
    intro acc r h
    rw [List.foldlM_cons, addField] at h
    cases hty : columnType f with
    | error e =>
      rw [hty] at h
      cases h
    | ok ty =>
      rw [hty] at h
      obtain ⟨added, hcols, hall, hkey⟩ := ih h
      refine ⟨⟨underscored u f.name, ty, !f.nullable⟩ :: added, ?_, .cons ⟨rfl, hty, rfl⟩ hall, ?_⟩
      · rw [hcols, List.append_assoc]
        rfl
      · rw [hkey, keyField_cons]
        cases keyField fields with
        | some key => rfl
        | none => split_ifs <;> rfl

theorem createTable_ok (h : createTable u model schema = .ok t) : t.schema = schema ∧
    t.table = modelToTableName u model.name ∧
    List.Forall₂ (Describes u) model.fields t.columns ∧
    t.primaryKey = (keyField model.fields).map (underscored u ·.name) := by
  rw [createTable] at h
  cases hfields : model.fields.foldlM (addField u) ([], none) with
  | error e =>
    rw [hfields] at h
    cases h
  | ok r =>
    rw [hfields] at h
    cases h
    obtain ⟨added, hcols, hall, hkey⟩ := foldlM_addField hfields
    refine ⟨rfl, rfl, ?_, ?_⟩
    · rw [hcols]
      exact hall
    · rw [hkey, Option.or_none]

theorem described_names {fields : List EntityField} {columns : List Column}
    (h : List.Forall₂ (Describes u) fields columns) :
    columns.map (·.name) = fields.map (underscored u ·.name) := by
  induction h with
  | nil => rfl
  | cons hc _ ih => rw [List.map_cons, List.map_cons, hc.1, ih]

end Columns

def transfer : EntityModel :=
  ⟨"Transfer", [⟨"id", "ID", false, false⟩, ⟨"amount", "BigInt", false, false⟩]⟩

def transfers : CreateTable :=
  ⟨"app", "transfers", [⟨"id", .text, true⟩, ⟨"amount", .numeric, true⟩], some "id"⟩

theorem transfer_table : modelToTableName .ascii "Transfer" = "transfers" := by decide

theorem transfer_created : createTable .ascii transfer "app" = .ok transfers := by
  rw [createTable, transfer, transfer_table]
  decide

end SuperqueryNode.Store

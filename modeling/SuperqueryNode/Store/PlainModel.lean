import SuperqueryNode.Lib.Effects
import SuperqueryNode.Lib.Json
import SuperqueryNode.Store.Ddl

namespace SuperqueryNode.Store
open Effects

structure PlainModel where
  schema : String
  table : String
  fields : List EntityField
deriving DecidableEq, Repr

-- The expression around a numbered parameter, which is always bound as text.
inductive Placeholder where
  | bare
  | cast (target : SqlType)
  | decodeHex
deriving DecidableEq, Repr

def Placeholder.sql (idx : Nat) : Placeholder → String
  | bare => "$" ++ idx.repr
  | cast target => "$" ++ idx.repr ++ "::text::" ++ target.keyword
  | decodeHex => "decode($" ++ idx.repr ++ "::text, 'hex')"

structure Upsert where
  schema : String
  table : String
  columns : List String
  values : List Placeholder
  conflict : String
  set : List String
deriving DecidableEq, Repr

def Upsert.sql (s : Upsert) : String :=
  "INSERT INTO \"" ++ s.schema ++ "\".\"" ++ s.table ++ "\" (" ++
    ", ".intercalate (s.columns.map fun c => "\"" ++ c ++ "\"") ++ ") VALUES (" ++
    ", ".intercalate (s.values.zipIdx.map fun (p, i) => p.sql (i + 1)) ++
    ") ON CONFLICT (\"" ++ s.conflict ++ "\") DO UPDATE SET " ++
    ", ".intercalate (s.set.map fun c => "\"" ++ c ++ "\" = EXCLUDED.\"" ++ c ++ "\"")

namespace PlainModel

def new (u : Unicode) (schema : String) (model : EntityModel) : PlainModel :=
  ⟨schema, modelToTableName u model.name, model.fields⟩

def sortedColumns (u : Unicode) (m : PlainModel) : List (EntityField × String) :=
  (m.fields.map fun f => (f, underscored u f.name)).insertionSort fun a b => a.2 ≤ b.2

def placeholder (field : EntityField) : Placeholder :=
  if field.isArray then .cast .jsonb
  else match field.baseType with
  | "ID" | "String" => .bare
  | "Int" => .cast .integer
  | "BigInt" => .cast .numeric
  | "Float" => .cast .doublePrecision
  | "Boolean" => .cast .boolean
  | "Date" => .cast .timestamp
  | "Bytes" => .decodeHex
  | "Json" => .cast .jsonb
  | _ => .bare

def stripHexPrefix (s : String) : String :=
  match s.toList with
  | '0' :: 'x' :: digits => String.ofList digits
  | _ => s

-- `display` is the JSON text serde writes for numbers, arrays and objects.
def encode (display : Json → String) (field : EntityField) : Json → Option String
  | .null => none
  | .string s => some (if field.baseType = "Bytes" then stripHexPrefix s else s)
  | .bool b => some (if b then "true" else "false")
  | v => some (display v)

def upsertStatement (u : Unicode) (m : PlainModel) : Upsert where
  schema := m.schema
  table := m.table
  columns := (m.sortedColumns u).map (·.2)
  values := (m.sortedColumns u).map fun c => placeholder c.1
  conflict := "id"
  set := ((m.sortedColumns u).filter fun c => c.1.baseType ≠ "ID").map (·.2)

def upsertParams (u : Unicode) (display : Json → String) (m : PlainModel) (entity : Json) :
    List (Option String) :=
  (m.sortedColumns u).map fun c => encode display c.1 (entity.get c.1.name)

-- One statement an entity; the first failure ends the call and what ran before it stays.
def upsert {T : Type} (u : Unicode) (display : Json → String)
    (execute : Upsert → List (Option String) → Effect T StoreError) (m : PlainModel) :
    List Json → Effect T StoreError
  | [] => fun state => (.ok (), state)
  | entity :: entities =>
    andThen (execute (m.upsertStatement u) (m.upsertParams u display entity))
      (upsert u display execute m entities)

section SortedColumns
variable {u : Unicode} {m : PlainModel} {A : Type}

theorem sortedColumns_perm :
    (m.sortedColumns u).Perm (m.fields.map fun f => (f, underscored u f.name)) :=
  List.perm_insertionSort _ _

theorem mem_sortedColumns {c : EntityField × String} :
    c ∈ m.sortedColumns u ↔ c.1 ∈ m.fields ∧ c.2 = underscored u c.1.name := by
  rw [sortedColumns_perm.mem_iff, List.mem_map]
  constructor
  · rintro ⟨f, hf, rfl⟩
    exact ⟨hf, rfl⟩
  · rintro ⟨hf, hc⟩
    exact ⟨c.1, hf, by rw [← hc]⟩

theorem sortedColumns_map (g : String → A) : ((m.sortedColumns u).map fun c => g c.2).Perm
    (m.fields.map fun f => g (underscored u f.name)) := by
  simpa [Function.comp_def] using
    (sortedColumns_perm (u := u) (m := m)).map fun c : EntityField × String => g c.2

end SortedColumns

end PlainModel
end SuperqueryNode.Store

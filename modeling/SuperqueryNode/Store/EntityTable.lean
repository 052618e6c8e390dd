import SuperqueryNode.Lib.SqlTable
import SuperqueryNode.Store.Batch
import SuperqueryNode.Store.Query

namespace SuperqueryNode.Store
open Effects Fallible JsonText Sql

-- `DELETE .. WHERE id = ANY($1)`.
structure Delete where
  schema : String
  table : String
deriving DecidableEq, Repr

structure Scan where
  projection : List Projection
  schema : String
  table : String
deriving DecidableEq, Repr

namespace PlainModel

def remove {T : Type} (execute : Delete → List String → Effect T StoreError) (m : PlainModel)
    (ids : List String) : Effect T StoreError :=
  if ids.isEmpty then fun s => (.ok (), s) else execute ⟨m.schema, m.table⟩ ids

def scan (u : Unicode) (m : PlainModel) : Scan where
  projection := (m.sortedColumns u).map fun c => selectExpr c.1 c.2
  schema := m.schema
  table := m.table

def get (u : Unicode)
    (query : Scan → String → Except StoreError (List (List (Option String)))) (m : PlainModel)
    (id : String) : Except StoreError (Option CanonicalRow) := do
  let rows ← query (m.scan u) id
  .ok (rows.head?.map (m.rowToCanonical u))

def dumpCanonical (u : Unicode) (query : Scan → Except StoreError (List (List (Option String))))
    (m : PlainModel) : Except StoreError (List CanonicalRow) := do
  let rows ← query (m.scan u)
  .ok (rows.map (m.rowToCanonical u))

end PlainModel

section Server
variable {V : Type} (server : Server V) (reader : Reader V)

def TextKey (t : CreateTable) : Prop :=
  ∃ c ∈ t.columns, readIdentifier c.name = some "id" ∧ c.type = .text

instance (t : CreateTable) : Decidable (TextKey t) :=
  inferInstanceAs (Decidable (∃ c ∈ t.columns, readIdentifier c.name = some "id" ∧ c.type = .text))

structure Delete.WellFormed (s : Delete) (t : CreateTable) : Prop where
  schema : s.schema = t.schema
  table : s.table = t.table
  key : TextKey t

instance (s : Delete) (t : CreateTable) : Decidable (s.WellFormed t) :=
  decidable_of_iff (s.schema = t.schema ∧ s.table = t.table ∧ TextKey t)
    ⟨fun ⟨h1, h2, h3⟩ => ⟨h1, h2, h3⟩, fun h => ⟨h.schema, h.table, h.key⟩⟩

def Delete.selects (values : List V) (row : Row V) : Bool :=
  values.any fun v => reader.equals (row "id") (some v) == some true

def Delete.exec (now : Int) (t : CreateTable) (s : Delete) (ids : List String)
    (rows : Multiset (Row V)) : Except StoreError (Multiset (Row V)) := do
  ensure (decide (s.WellFormed t)) server.refusal
  let values ← ids.mapM (server.literal now .text)
  return deleteWhere (Delete.selects reader values) rows

namespace Scan

structure WellFormed (s : Scan) (t : CreateTable) : Prop where
  schema : s.schema = t.schema
  table : s.table = t.table
  columns : ∀ p ∈ s.projection, ∃ c ∈ t.columns,
    readIdentifier c.name = readIdentifier p.column ∧ (p.hex = true → c.type = .bytea)
  key : TextKey t
  order : (s.projection.map fun p => readIdentifier p.column).count (some "id") = 1

def output (s : Scan) (row : Row V) : List (Option String) :=
  s.projection.map fun p =>
    ((readIdentifier p.column).bind row).map (if p.hex then reader.hex else reader.text)

def found (s : Scan) (v : V) (rows : Multiset (Row V)) : Multiset (List (Option String)) :=
  (rows.filter fun row => reader.equals (row "id") (some v) = some true).map (s.output reader)

def sortText (s : Scan) (out : List (Option String)) : Option String :=
  (((s.projection.map fun p => readIdentifier p.column).zip out).lookup (some "id")).join

def before (s : Scan) (a b : List (Option String)) : Prop :=
  reader.before .asc (s.sortText a) (s.sortText b) = true

instance (s : Scan) : Std.Total (s.before reader) where
  total _ _ := reader.before_total _ _ _

instance (s : Scan) : IsTrans (List (Option String)) (s.before reader) where
  trans _ _ _ := reader.before_trans

end Scan

structure Listing (t : CreateTable) (rows : Multiset (Row V)) (now : Int) where
  byId : Scan → String → Except StoreError (List (List (Option String)))
  dump : Scan → Except StoreError (List (List (Option String)))
  byId_answers : ∀ s id v, s.WellFormed t → server.literal now .text id = .ok v →
    ∃ answer, byId s id = .ok answer ∧ ↑answer = s.found reader v rows
  dump_answers : ∀ s, s.WellFormed t → ∃ answer, dump s = .ok answer ∧
    Arranged (s.before reader) (rows.map (s.output reader)) answer

theorem listing_nonempty (t : CreateTable) (rows : Multiset (Row V)) (now : Int) :
    Nonempty (Listing server reader t rows now) := by
  classical
  have hfound : ∀ (s : Scan) (id : String), ∃ answer : List (List (Option String)),
      ∀ v, server.literal now .text id = .ok v → ↑answer = s.found reader v rows := by
    intro s id
    cases hid : server.literal now .text id with
    | error e => exact ⟨[], fun v hv => by cases hv⟩
    | ok v =>
      obtain ⟨answer, hanswer⟩ := Quotient.exists_rep (s.found reader v rows)
      refine ⟨answer, fun w hw => ?_⟩
      cases hw
      exact hanswer
  have hdump : ∀ s : Scan, ∃ answer,
      Arranged (s.before reader) (rows.map (s.output reader)) answer :=
    fun s => exists_arranged (s.before reader) _
  choose byId hbyId using hfound
  choose dump hdump using hdump
  exact ⟨⟨fun s id => .ok (byId s id), fun s => .ok (dump s),
    fun s id v _ hv => ⟨_, rfl, hbyId s id v hv⟩, fun s _ => ⟨_, rfl, hdump s⟩⟩⟩

end Server

structure EntityTable (u : Unicode) (model : EntityModel) (schema : String) (t : CreateTable) :
    Prop where
  created : createTable u model schema = .ok t
  shape : UpsertShape u model schema
  single : ∀ f ∈ model.fields, f.baseType = "ID" → f.isArray = false

inductive StoreCall where
  | upsert (entities : List Json)
  | remove (ids : List String)

section Entities

-- What the calls mean for a map from ids to entities; an entity's id is the string in its ID field.
def entityId (model : EntityModel) (e : Json) : Option String :=
  (model.fields.find? fun f => f.baseType = "ID").bind fun f => (e.get f.name).asStr

abbrev Entities := String → Option Json

def Entities.write (model : EntityModel) (m : Entities) (e : Json) : Entities :=
  match entityId model e with
  | some id => Function.update m id (some e)
  | none => m

def Entities.apply (model : EntityModel) (m : Entities) : StoreCall → Entities
  | .upsert entities => entities.foldl (Entities.write model) m
  | .remove ids => fun id => if id ∈ ids then none else m id

def Entities.after (model : EntityModel) (calls : List StoreCall) : Entities :=
  calls.foldl (Entities.apply model) fun _ => none

variable (u : Unicode) (floats : FloatText)

def ShownCell (f : EntityField) (v : Json) (cell : Option String) : Prop :=
  (v = .null ∧ cell = none) ∨ ∃ ty text d d', columnType f = .ok ty ∧ cell = some text ∧
    FieldMeans floats f v d ∧ datumOf floats ty text = some d' ∧ d'.Same floats d

structure ShowsEntity (model : EntityModel) (e : Json) (row : CanonicalRow) : Prop where
  columns : ∀ c, (row[c]?).isSome ↔ ∃ f ∈ model.fields, underscored u f.name = c
  cells : ∀ f ∈ model.fields, ∃ cell, row[underscored u f.name]? = some cell ∧
    ShownCell floats f (e.get f.name) cell

end Entities

section Runs
variable {V : Type} (u : Unicode) (floats : FloatText) (server : Server V) (reader : Reader V)
  (link : Link)

def StoreCall.exec [DecidableEq V] (model : EntityModel) (t : CreateTable) :
    StoreCall → Effect (World V) StoreError
  | .upsert entities => (PlainModel.new u t.schema model).upsert u (display floats)
      (execute server link t) entities
  | .remove ids => (PlainModel.new u t.schema model).remove
      (fun s ids => request link fun now => s.exec server reader now t ids) ids

def StoreCall.run [DecidableEq V] (model : EntityModel) (t : CreateTable) :
    List StoreCall → Effect (World V) StoreError
  | [] => fun w => (.ok (), w)
  | call :: calls =>
    andThen (call.exec u floats server reader link model t) (StoreCall.run model t calls)

-- A text parameter has no NUL.
def Takes (id : String) : Prop := '\x00' ∉ id.toList

instance (id : String) : Decidable (Takes id) := inferInstanceAs (Decidable ('\x00' ∉ id.toList))

def StoreCall.Valid (model : EntityModel) (t : CreateTable) : StoreCall → Prop
  | .upsert entities => ∀ e ∈ entities, ValidEntity u floats model t e
  | .remove ids => ∀ id ∈ ids, Takes id

def TextsApart : Prop := ∀ now s s' v v', server.literal now .text s = .ok v →
  server.literal now .text s' = .ok v' → reader.same v v' = true → s = s'

def keyCode (id : String) : Option (Option V) :=
  if Takes id then (server.literal 0 .text id).toOption.map some else none

abbrev Stores (model : EntityModel) : Multiset (Row V) → Entities → Prop :=
  Represents (fun row : Row V => row "id") (keyCode server)
    fun e row => HoldsEntity u floats reader model e row

variable {u floats server reader link} {model : EntityModel} {schema : String} {t : CreateTable}
  {rows : Multiset (Row V)} {m : Entities} {now : Int}

theorem literal_steady (now : Int) (id : String) :
    server.literal now .text id = server.literal 0 .text id :=
  server.steady now 0 .text id (by decide)

theorem keyCode_eq_some {id : String} {k : Option V} : keyCode server id = some k ↔
    Takes id ∧ ∃ v, server.literal 0 .text id = .ok v ∧ k = some v := by
  rw [keyCode]
  split_ifs with htakes
  · cases server.literal 0 .text id with
    | error e => simp [Except.toOption]
    | ok v => simp [Except.toOption, eq_comm, htakes]
  · simp [htakes]

theorem keyCode_text (hcasts : Casts floats server reader) {id : String} {k : Option V}
    (h : keyCode server id = some k) : k.map reader.text = some id := by
  obtain ⟨htakes, v, hv, rfl⟩ := keyCode_eq_some.mp h
  obtain ⟨w, hw, htext⟩ := hcasts.text 0 id htakes
  obtain rfl := Except.ok.inj (hv.symm.trans hw)
  rw [Option.map_some, htext]

theorem keyCode_inj (hcasts : Casts floats server reader) : ∀ (i j : String) (k : Option V),
    keyCode server i = some k → keyCode server j = some k → i = j := by
  intro i j k hi hj
  exact Option.some.inj ((keyCode_text hcasts hi).symm.trans (keyCode_text hcasts hj))

theorem takes_literal (hcasts : Casts floats server reader) {id : String} (h : Takes id) :
    ∃ v, keyCode server id = some (some v) ∧ ∀ now, server.literal now .text id = .ok v := by
  obtain ⟨v, hv, -⟩ := hcasts.text 0 id h
  exact ⟨v, keyCode_eq_some.mpr ⟨h, v, hv, rfl⟩, fun now => (literal_steady now id).trans hv⟩

section Model

theorem id_field (shape : UpsertShape u model schema) : ∃ f ∈ model.fields, f.baseType = "ID" ∧
    readIdentifier (underscored u f.name) = some "id" ∧
      model.fields.filter (fun f => f.baseType = "ID") = [f] := by
  obtain ⟨f, hfilter, hread⟩ := shape.key
  have hmem : f ∈ model.fields.filter fun f => f.baseType = "ID" :=
    hfilter ▸ List.mem_singleton_self f
  obtain ⟨hf, hid⟩ := List.mem_filter.mp hmem
  exact ⟨f, hf, of_decide_eq_true hid, hread, hfilter⟩

theorem textKey_of_table (ht : EntityTable u model schema t) : TextKey t := by
  obtain ⟨f, hf, hid, hread, -⟩ := id_field ht.shape
  obtain ⟨column, hcolumn, hname, htype, -⟩ := described_column u ht.created hf
  refine ⟨column, hcolumn, by rw [hname, hread], ?_⟩
  rw [columnType, ht.single f hf hid, if_neg Bool.false_ne_true, hid] at htype
  exact (Except.ok.inj htype).symm

theorem entity_key (ht : EntityTable u model schema t) {e : Json}
    (he : ValidEntity u floats model t e) {row : Row V}
    (hnew : Upsert.newRow server now ((PlainModel.new u t.schema model).upsertStatement u)
      ((PlainModel.new u t.schema model).upsertParams u (display floats) e) = .ok row) :
    ∃ id, entityId model e = some id ∧ keyCode server id = some (row "id") := by
  obtain ⟨f, hf, hid, hread, hfilter⟩ := id_field ht.shape
  have harray := ht.single f hf hid
  have hkey : t.primaryKey = some (underscored u f.name) := by
    rw [(createTable_ok ht.created).2.2.2, keyField, hfilter]
    rfl
  have hfind : model.fields.find? (fun f => f.baseType = "ID") = some f := by
    rw [← List.head?_filter, hfilter]
    rfl
  have hty : columnType f = .ok .text := by
    rw [columnType, harray, if_neg Bool.false_ne_true, hid]
    rfl
  obtain ⟨-, -, hnotkey⟩ | ⟨d, -, ty, hty', hmeans⟩ := he f hf
  · exact absurd hkey hnotkey
  · obtain rfl := Except.ok.inj (hty.symm.trans hty')
    have hcell := newRow_holds u ht.created (shape_distinct u ht.created ht.shape) hnew f hf "id" hread
    rw [fieldValue, placeholder_castTo hty] at hcell
    cases hvalue : e.get f.name with
    | string id =>
      rw [hvalue] at hcell hmeans
      obtain ⟨htakes⟩ := hmeans
      rw [encode_string hty (by decide) harray, Upsert.bindParam, castTo, Placeholder.input,
        literal_steady] at hcell
      refine ⟨id, by rw [entityId, hfind, Option.bind_some, hvalue]; rfl, ?_⟩
      cases hliteral : server.literal 0 .text id with
      | error err =>
        rw [hliteral] at hcell
        cases hcell
      | ok v =>
        rw [hliteral] at hcell
        exact keyCode_eq_some.mpr ⟨htakes, v, hliteral, (Except.ok.inj hcell).symm⟩
    | _ =>
      rw [hvalue] at hmeans
      cases hmeans

section Runs
variable [DecidableEq V]

theorem stores_upsert (hcasts : Casts floats server reader) (ht : EntityTable u model schema t)
    (hlink : ∀ k, link.delivery k = .answered) (entities : List Json) :
    ∀ (w : World V) (m : Entities), t.Holds w.rows → Stores u floats server reader model w.rows m →
      (∀ e ∈ entities, ValidEntity u floats model t e) → ∃ after,
        (PlainModel.new u t.schema model).upsert u (display floats) (execute server link t) entities w =
          (.ok (), after) ∧ t.Holds after.rows ∧
        Stores u floats server reader model after.rows (entities.foldl (Entities.write model) m) := by
  induction entities with
  | nil => exact fun w m hrows hm _ => ⟨w, rfl, hrows, hm⟩
  | cons e entities ih =>
    intro w m hrows hm hall
    have he := hall e List.mem_cons_self
    obtain ⟨row, hnew, hexec, hrow, hholds⟩ :=
      exec_shape u hcasts ht.created ht.shape hrows he (link.now w.sent)
    obtain ⟨id, hid, hcode⟩ := entity_key ht he hnew
    have hnext : Stores u floats server reader model (keyed (fun r => r "id") row w.rows)
        (m.write model e) := by
      rw [Entities.write, hid]
      exact represents_keyed hm (keyCode_inj hcasts) hcode hrow
    obtain ⟨after, hrest, hafter, hstores⟩ :=
      ih ⟨_, w.sent + 1⟩ _ hholds hnext fun e he => hall e (List.mem_cons_of_mem _ he)
    exact ⟨after, andThen_ok.mpr ⟨_, request_ok.mpr ⟨hlink _, hexec, rfl⟩, hrest⟩, hafter, hstores⟩

omit [DecidableEq V] in
theorem holds_delete (hrows : t.Holds rows) (deleted : Row V → Bool) :
    t.Holds (deleteWhere deleted rows) where
  admitted := fun r hr => hrows.admitted r (Multiset.mem_of_mem_filter hr)
  columns := fun r hr => hrows.columns r (Multiset.mem_of_mem_filter hr)
  unique := fun k hk => Multiset.nodup_of_le (Multiset.map_le_map (Multiset.filter_le _ _))
    (hrows.unique k hk)

omit [DecidableEq V] in
theorem same_iff (hapart : TextsApart server reader) {i id : String} {k : Option V} {v : V}
    (hi : keyCode server i = some k) (hid : keyCode server id = some (some v)) :
    reader.equals k (some v) = some true ↔ k = some v := by
  obtain ⟨-, x, hx, rfl⟩ := keyCode_eq_some.mp hi
  obtain ⟨-, w, hw, hvw⟩ := keyCode_eq_some.mp hid
  obtain rfl := Option.some.inj hvw
  rw [reader.equals_true]
  constructor
  · rintro ⟨_, _, hx', hv', hsame⟩
    cases hx'
    cases hv'
    obtain rfl := hapart 0 i id x v hx hw hsame
    rw [Except.ok.inj (hx.symm.trans hw)]
  · intro heq
    exact ⟨x, v, rfl, rfl, Option.some.inj heq ▸ reader.same_refl x⟩

omit [DecidableEq V] in
theorem selects_iff_mem (hcasts : Casts floats server reader) (hapart : TextsApart server reader)
    {ids : List String} (hids : ∀ id ∈ ids, Takes id) {values : List V}
    (hvalues : ids.mapM (server.literal now .text) = .ok values) {row : Row V} {i : String}
    (hi : keyCode server i = some (row "id")) :
    Delete.selects reader values row = true ↔ i ∈ ids := by
  rw [Delete.selects, List.any_eq_true]
  have hall := mapM_eq_ok.mp hvalues
  have hcode {j : String} (hj : j ∈ ids) {w : V} (hw : server.literal now .text j = .ok w) :
      keyCode server j = some (some w) := by
    obtain ⟨v, hv, hread⟩ := takes_literal hcasts (hids j hj)
    rw [hv, Except.ok.inj ((hread now).symm.trans hw)]
  constructor
  · rintro ⟨w, hw, hequal⟩
    obtain ⟨j, hj, hjw⟩ := exists_left hall hw
    have hrow := (same_iff hapart hi (hcode hj hjw)).mp (beq_iff_eq.mp hequal)
    rwa [keyCode_inj hcasts i j _ hi (hrow ▸ hcode hj hjw)]
  · intro hmem
    obtain ⟨w, hw, hiw⟩ := exists_right hall hmem
    have hrow := Option.some.inj (hi.symm.trans (hcode hmem hiw))
    exact ⟨w, hw, beq_iff_eq.mpr ((same_iff hapart hi (hcode hmem hiw)).mpr hrow)⟩

omit [DecidableEq V] in
theorem stores_remove (hcasts : Casts floats server reader) (hapart : TextsApart server reader)
    (ht : EntityTable u model schema t) (hlink : ∀ k, link.delivery k = .answered)
    {ids : List String} (hids : ∀ id ∈ ids, Takes id) {w : World V} (hrows : t.Holds w.rows)
    (hm : Stores u floats server reader model w.rows m) : ∃ after,
      (PlainModel.new u t.schema model).remove
          (fun s ids => request link fun now => s.exec server reader now t ids) ids w =
        (.ok (), after) ∧ t.Holds after.rows ∧
      Stores u floats server reader model after.rows fun id => if id ∈ ids then none else m id := by
  rw [PlainModel.remove]
  split_ifs with hempty
  · rw [List.isEmpty_iff.mp hempty]
    exact ⟨w, rfl, hrows, by simpa using hm⟩
  · obtain ⟨values, hvalues⟩ : ∃ values,
        ids.mapM (server.literal (link.now w.sent) .text) = .ok values := by
      simp only [mapM_eq_ok, exists_forall₂]
      intro id hid
      obtain ⟨v, -, hread⟩ := takes_literal hcasts (hids id hid)
      exact ⟨v, hread _⟩
    have hformed : (⟨t.schema, (PlainModel.new u t.schema model).table⟩ : Delete).WellFormed t :=
      ⟨rfl, (createTable_ok ht.created).2.1.symm, textKey_of_table ht⟩
    have hexec : Delete.exec server reader (link.now w.sent) t
        ⟨t.schema, (PlainModel.new u t.schema model).table⟩ ids w.rows =
          .ok (deleteWhere (Delete.selects reader values) w.rows) :=
      bind_eq_ok.mpr ⟨⟨⟩, ensure_eq_ok.mpr (decide_eq_true hformed),
        bind_eq_ok.mpr ⟨values, hvalues, rfl⟩⟩
    refine ⟨⟨deleteWhere (Delete.selects reader values) w.rows, w.sent + 1⟩,
      request_ok.mpr ⟨hlink _, hexec, rfl⟩, holds_delete hrows _, ?_⟩
    exact represents_delete hm fun r _ i hi => selects_iff_mem hcasts hapart hids hvalues hi

theorem stores_run (hcasts : Casts floats server reader) (hapart : TextsApart server reader)
    (ht : EntityTable u model schema t) (hlink : ∀ k, link.delivery k = .answered)
    (calls : List StoreCall) : ∀ (w : World V) (m : Entities), t.Holds w.rows →
      Stores u floats server reader model w.rows m →
      (∀ call ∈ calls, call.Valid u floats model t) → ∃ after,
        StoreCall.run u floats server reader link model t calls w = (.ok (), after) ∧
        Stores u floats server reader model after.rows (calls.foldl (Entities.apply model) m) := by
  induction calls with
  | nil => exact fun w m _ hm _ => ⟨w, rfl, hm⟩
  | cons call calls ih =>
    intro w m hrows hm hall
    obtain ⟨after, hexec, hafter, hnext⟩ : ∃ after,
        call.exec u floats server reader link model t w = (.ok (), after) ∧ t.Holds after.rows ∧
          Stores u floats server reader model after.rows (m.apply model call) := by
      have hvalid := hall call List.mem_cons_self
      cases call with
      | upsert entities => exact stores_upsert hcasts ht hlink entities w m hrows hm hvalid
      | remove ids => exact stores_remove hcasts hapart ht hlink hvalid hrows hm
    obtain ⟨last, hrun, hlast⟩ :=
      ih after _ hafter hnext fun c hc => hall c (List.mem_cons_of_mem _ hc)
    exact ⟨last, andThen_ok.mpr ⟨after, hexec, hrun⟩, hlast⟩

end Runs

section Reads

theorem names_scan (m : PlainModel) : ((m.scan u).projection.map fun p => readIdentifier p.column) =
    (m.sortedColumns u).map fun c => readIdentifier c.2 := by
  rw [PlainModel.scan, List.map_map]
  rfl

theorem scan_wellFormed (ht : EntityTable u model schema t) :
    ((PlainModel.new u t.schema model).scan u).WellFormed t := by
  have haccept := shape_accepted u ht.created ht.shape
  obtain ⟨f, hf, -, hread, -⟩ := id_field ht.shape
  have hparts : ([] : List (String × Json)).mapM
      ((PlainModel.new u t.schema model).filterPart u fun _ => "") = .ok [] := rfl
  constructor
  case schema => rfl
  case table => exact (createTable_ok ht.created).2.1.symm
  case columns =>
    exact (wellFormed_byFields ⟨f.name, .asc, 0, 0⟩ ht.created haccept.distinct hparts hf rfl le_rfl
      le_rfl).columns
  case key => exact textKey_of_table ht
  case order =>
    rw [names_scan]
    refine List.count_eq_one_of_mem (columns_nodup ht.created haccept.distinct) ?_
    rw [← hread]
    exact List.mem_map.mpr
      ⟨(f, underscored u f.name), PlainModel.mem_sortedColumns.mpr ⟨hf, rfl⟩, rfl⟩

theorem output_scan (row : Row V) :
    ((PlainModel.new u t.schema model).scan u).output reader row =
      ((PlainModel.new u t.schema model).sortedColumns u).map fun c => cellText u reader c.1 row :=
  show Select.output reader ((PlainModel.new u t.schema model).selectByFields u []
    ⟨"id", .asc, 0, 0⟩) row = _ from output_byFields (PlainModel.new u t.schema model) [] row

theorem shown_cell {f : EntityField} {v : Json} {row : Row V} {name : String}
    (hname : readIdentifier (underscored u f.name) = some name)
    (hcell : CellHolds floats reader f v (row name)) :
    ShownCell floats f v (cellText u reader f row) := by
  rw [cellText, hname, Option.bind_some]
  obtain ⟨hnull, hnone⟩ | ⟨ty, x, d, hty, hx, hmeans, d', hd', hsame⟩ := hcell
  · exact .inl ⟨hnull, by rw [hnone, Option.map_none]⟩
  · refine .inr ⟨ty, reader.shows ty x, d, d', hty, ?_, hmeans, hd', hsame⟩
    have hhex : (f.baseType == "Bytes" && !f.isArray) = decide (ty = .bytea) := by
      rw [Bool.eq_iff_iff, decide_eq_true_iff, ← bytes_iff hty]
      simp
    rw [hx, Option.map_some, hhex, Reader.shows]
    simp only [decide_eq_true_iff]
    split_ifs <;> rfl

theorem canonical_shows (ht : EntityTable u model schema t) {e : Json} {row : Row V}
    (hrow : HoldsEntity u floats reader model e row) :
    ShowsEntity u floats model e ((PlainModel.new u t.schema model).rowToCanonical u
      (((PlainModel.new u t.schema model).scan u).output reader row)) := by
  have hcolumns : ((PlainModel.new u t.schema model).sortedColumns u).map (·.2) |>.Nodup := by
    have hread := columns_nodup ht.created (shape_accepted u ht.created ht.shape).distinct
    rw [show (fun c : EntityField × String => readIdentifier c.2) = readIdentifier ∘ (·.2) from rfl,
      ← List.map_map] at hread
    exact List.Nodup.of_map _ hread
  rw [PlainModel.rowToCanonical, output_scan, List.zip_map']
  constructor
  case columns =>
    intro c
    rw [KeyedMap.isSome_ofList, List.map_map, List.mem_map]
    constructor
    · rintro ⟨col, hcol, rfl⟩
      obtain ⟨hf, hname⟩ := PlainModel.mem_sortedColumns.mp hcol
      exact ⟨col.1, hf, hname.symm⟩
    · rintro ⟨f, hf, rfl⟩
      exact ⟨(f, underscored u f.name), PlainModel.mem_sortedColumns.mpr ⟨hf, rfl⟩, rfl⟩
  case cells =>
    intro f hf
    obtain ⟨name, hname, -⟩ := ht.shape.names f hf
    refine ⟨cellText u reader f row, KeyedMap.getElem?_ofList ?_ ?_,
      shown_cell hname (hrow f hf name hname)⟩
    · rwa [List.map_map]
    · exact List.mem_map.mpr
        ⟨(f, underscored u f.name), PlainModel.mem_sortedColumns.mpr ⟨hf, rfl⟩, rfl⟩

theorem get_stored [DecidableEq V] (hcasts : Casts floats server reader) (hapart : TextsApart server reader)
    (ht : EntityTable u model schema t) (hm : Stores u floats server reader model rows m)
    (db : Listing server reader t rows now) {id : String} (hid : Takes id) :
    ∃ answer, (PlainModel.new u t.schema model).get u db.byId id = .ok answer ∧
      Option.Rel (ShowsEntity u floats model) (m id) answer := by
  obtain ⟨v, hcode, hread⟩ := takes_literal hcasts hid
  obtain ⟨answer, hquery, hanswer⟩ := db.byId_answers _ id v (scan_wellFormed ht) (hread now)
  have hfound : (rows.filter fun row => reader.equals (row "id") (some v) = some true) =
      rows.filter fun row => row "id" = some v := by
    refine Multiset.filter_congr fun row hrow => ?_
    obtain ⟨i, -, hi, -⟩ := hm.row row hrow
    exact same_iff hapart hi hcode
  rw [Scan.found, hfound] at hanswer
  refine ⟨_, bind_eq_ok.mpr ⟨answer, hquery, rfl⟩, ?_⟩
  rcases represents_find hm (keyCode_inj hcasts) hcode with ⟨hnone, hrows⟩ | ⟨e, r, he, hrow, hrows⟩
  · rw [hrows, Multiset.map_zero, Multiset.coe_eq_zero] at hanswer
    rw [hanswer, hnone]
    exact .none
  · rw [hrows, Multiset.map_singleton] at hanswer
    rw [Multiset.coe_eq_singleton.mp hanswer, he]
    exact .some (canonical_shows ht hrow)

theorem sortText_scan (ht : EntityTable u model schema t) (row : Row V) :
    ((PlainModel.new u t.schema model).scan u).sortText
      (((PlainModel.new u t.schema model).scan u).output reader row) =
        (row "id").map reader.text := by
  obtain ⟨f, hf, hid, hread, -⟩ := id_field ht.shape
  let cells := ((PlainModel.new u t.schema model).sortedColumns u).map fun c =>
    (readIdentifier c.2, cellText u reader c.1 row)
  have hcell : cellText u reader f row = (row "id").map reader.text := by
    rw [cellText, hread, hid]
    rfl
  have hmem : (some "id", (row "id").map reader.text) ∈ cells := by
    rw [← hread, ← hcell]
    exact List.mem_map.mpr
      ⟨(f, underscored u f.name), PlainModel.mem_sortedColumns.mpr ⟨hf, rfl⟩, rfl⟩
  have hkeys : (cells.map Prod.fst).Nodup := by
    simpa [cells, Function.comp_def] using
      columns_nodup ht.created (shape_accepted u ht.created ht.shape).distinct
  have hlookup := Assoc.lookup_of_mem hkeys hmem
  rw [Scan.sortText, output_scan, names_scan, List.zip_map']
  exact congrArg Option.join hlookup

theorem dump_stored (hcasts : Casts floats server reader) (ht : EntityTable u model schema t)
    (hm : Stores u floats server reader model rows m) (db : Listing server reader t rows now) :
    ∃ (ids : List String) (dumped : List CanonicalRow), ids.Nodup ∧
      ids.Pairwise (fun a b => reader.collates a b = true) ∧ (∀ id, id ∈ ids ↔ (m id).isSome) ∧
      (PlainModel.new u t.schema model).dumpCanonical u db.dump = .ok dumped ∧
      List.Forall₂ (fun id row => ∃ e, m id = some e ∧ ShowsEntity u floats model e row) ids
        dumped := by
  obtain ⟨answer, hquery, harranged⟩ := db.dump_answers _ (scan_wellFormed ht)
  obtain ⟨order, horder, rfl⟩ := exists_rows harranged.rows
  let idOf (row : Row V) : String := ((row "id").map reader.text).getD ""
  have hrow : ∀ row ∈ order, ∃ e, keyCode server (idOf row) = some (row "id") ∧
      m (idOf row) = some e ∧ HoldsEntity u floats reader model e row := by
    intro row hmem
    obtain ⟨i, e, hi, hmi, hholds⟩ := hm.row row (horder ▸ Multiset.mem_coe.mpr hmem)
    have hid : idOf row = i := by
      simp only [idOf, keyCode_text hcasts hi, Option.getD_some]
    exact ⟨e, hid ▸ hi, hid ▸ hmi, hholds⟩
  refine ⟨order.map idOf, _, ?_, ?_, fun id => ?_, bind_eq_ok.mpr ⟨_, hquery, rfl⟩, ?_⟩
  · have hunique : (order.map fun row : Row V => row "id").Nodup := by
      have hrows := hm.unique
      rw [← horder, Multiset.map_coe, Multiset.coe_nodup] at hrows
      exact hrows
    refine (List.nodup_map_iff_inj_on (List.Nodup.of_map _ hunique)).mpr fun a ha b hb hab => ?_
    obtain ⟨e, hcode, -⟩ := hrow a ha
    obtain ⟨e', hcode', -⟩ := hrow b hb
    rw [hab, hcode'] at hcode
    exact List.inj_on_of_nodup_map hunique ha hb (Option.some.inj hcode).symm
  · rw [List.pairwise_map]
    refine (List.pairwise_map.mp harranged.sorted).imp_of_mem fun {a b} ha hb hbefore => ?_
    obtain ⟨_, hcode, -⟩ := hrow a ha
    obtain ⟨_, hcode', -⟩ := hrow b hb
    rw [Scan.before, sortText_scan ht, sortText_scan ht, keyCode_text hcasts hcode,
      keyCode_text hcasts hcode'] at hbefore
    exact hbefore
  · rw [List.mem_map]
    constructor
    · rintro ⟨row, hmem, rfl⟩
      obtain ⟨e, -, hme, -⟩ := hrow row hmem
      rw [hme]
      rfl
    · intro hsome
      obtain ⟨e, he⟩ := Option.isSome_iff_exists.mp hsome
      obtain ⟨row, hmem, hcode⟩ := hm.entry id e he
      have hmem : row ∈ order := Multiset.mem_coe.mp (horder.symm ▸ hmem)
      obtain ⟨e', hcode', -⟩ := hrow row hmem
      exact ⟨row, hmem, keyCode_inj hcasts _ _ _ hcode' hcode⟩
  · rw [List.map_map, List.forall₂_map_left_iff, List.forall₂_map_right_iff, List.forall₂_same]
    intro row hmem
    obtain ⟨e, -, hme, hholds⟩ := hrow row hmem
    exact ⟨e, hme, canonical_shows ht hholds⟩

end Reads

theorem entity_table_is_a_map [DecidableEq V] (hcasts : Casts floats server reader)
    (hapart : TextsApart server reader) (ht : EntityTable u model schema t)
    (hlink : ∀ k, link.delivery k = .answered) (calls : List StoreCall)
    (hvalid : ∀ call ∈ calls, call.Valid u floats model t) :
    ∃ w, StoreCall.run u floats server reader link model t calls ⟨0, 0⟩ = (.ok (), w) ∧
      ∀ now, ∀ db : Listing server reader t w.rows now,
        (∀ id, Takes id → ∃ answer,
          (PlainModel.new u t.schema model).get u db.byId id = .ok answer ∧
          Option.Rel (ShowsEntity u floats model) (Entities.after model calls id) answer) ∧
        ∃ (ids : List String) (dumped : List CanonicalRow), ids.Nodup ∧
          ids.Pairwise (fun a b => reader.collates a b = true) ∧
          (∀ id, id ∈ ids ↔ (Entities.after model calls id).isSome) ∧
          (PlainModel.new u t.schema model).dumpCanonical u db.dump = .ok dumped ∧
          List.Forall₂ (fun id row => ∃ e, Entities.after model calls id = some e ∧
            ShowsEntity u floats model e row) ids dumped := by
  obtain ⟨w, hrun, hm⟩ := stores_run hcasts hapart ht hlink calls ⟨0, 0⟩ (fun _ => none)
    t.holds_zero represents_empty hvalid
  exact ⟨w, hrun, fun now db => ⟨fun id hid => get_stored hcasts hapart ht hm db hid,
    dump_stored hcasts ht hm db⟩⟩

end Model

end Runs

section Transfers

theorem transfer_entities : EntityTable .ascii transfer "app" transfers where
  created := transfer_created
  shape := transfer_shape
  single := by decide

theorem texts_apart : TextsApart plainServer textReader := by
  intro now s s' v v' hv hv' hsame
  have htaken {text x : String} (h : plainServer.literal now .text text = .ok x) : text = x := by
    simp only [plainServer, textServer, ite_ok_eq_ok] at h
    exact Except.ok.inj h.2
  rw [htaken hv, htaken hv', beq_iff_eq.mp hsame]

theorem paid_valid {amount : String} (hamount : (decimal amount.toList).isSome = true) :
    ValidEntity .ascii plainFloats transfer transfers (paid amount) := by
  intro f hf
  obtain rfl | rfl : f = ⟨"id", "ID", false, false⟩ ∨ f = ⟨"amount", "BigInt", false, false⟩ := by
    simpa [transfer] using hf
  · exact .inr ⟨.text "t-1", fun h => (by cases h), .text, rfl, .text (by decide)⟩
  · obtain ⟨q, hq⟩ := Option.isSome_iff_exists.mp hamount
    exact .inr ⟨.numeric q, fun h => (by cases h), .numeric, rfl, .decimal hq⟩

theorem last_transfer_is_read : ∃ w : World String,
    StoreCall.run .ascii plainFloats plainServer textReader .quiet transfer transfers
      [.upsert [paid "7", paid "8"], .remove ["t-2"]] ⟨0, 0⟩ = (.ok (), w) ∧
    Nonempty (Listing plainServer textReader transfers w.rows 0) ∧
    ∀ db : Listing plainServer textReader transfers w.rows 0, ∃ row,
      (PlainModel.new .ascii "app" transfer).get .ascii db.byId "t-1" = .ok (some row) ∧
        ShowsEntity .ascii plainFloats transfer (paid "8") row := by
  have hquiet : ∀ k, Link.quiet.delivery k = .answered := fun _ => rfl
  obtain ⟨w, hrun, hreads⟩ := entity_table_is_a_map (text_casts plainFloats) texts_apart
    transfer_entities hquiet [.upsert [paid "7", paid "8"], .remove ["t-2"]] (by
      refine List.forall_mem_cons.mpr ⟨List.forall_mem_cons.mpr ⟨paid_valid (by decide),
        List.forall_mem_singleton.mpr (paid_valid (by decide))⟩, List.forall_mem_singleton.mpr ?_⟩
      exact List.forall_mem_singleton.mpr (by decide))
  refine ⟨w, hrun, listing_nonempty plainServer textReader transfers w.rows 0,
    fun db => ?_⟩
  obtain ⟨hget, -⟩ := hreads 0 db
  obtain ⟨answer, hanswer, hshows⟩ := hget "t-1" (by decide)
  have hstored : Entities.after transfer [.upsert [paid "7", paid "8"], .remove ["t-2"]] "t-1" =
      some (paid "8") := rfl
  rw [hstored] at hshows
  cases hshows with
  | some hrow => exact ⟨_, hanswer, hrow⟩

end Transfers

end SuperqueryNode.Store

import Mathlib.Data.Option.Basic
import Mathlib.Data.String.Basic
import SuperqueryNode.Store.Batch
import SuperqueryNode.Store.Query

namespace SuperqueryNode.Store
open Effects Fallible Sql

section Lookup
variable {V : Type} (u : Unicode) (display : Json → String) (server : Server V) (reader : Reader V)

def cell (u : Unicode) (f : EntityField) (row : Row V) : Option V :=
  (readIdentifier (underscored u f.name)).bind row

def SameCell : Option V → Option V → Prop := Option.Rel fun v w => reader.same v w = true

def hexDigits (s : String) : String :=
  if ['0', 'x'].isPrefixOf s.toList then String.ofList (s.toList.drop 2) else s

-- How the server is told a JSON value, apart from what binds it: a Json column is told JSON, the
-- others the text of a string.
def spelling : SqlType → Json → Option String
  | _, .null => none
  | _, .bool b => some (if b then "true" else "false")
  | .jsonb, v => some (display v)
  | .bytea, .string s => some (hexDigits s)
  | _, .string s => some s
  | _, v => some (display v)

def valueOf (now : Int) (e : Json) (f : EntityField) : Except StoreError (Option V) := do
  let ty ← columnType f
  Upsert.bindParam server now (castTo ty) (spelling display ty (e.get f.name))

def HoldsChosen (now : Int) (chosen : List EntityField) (e : Json) (row : Row V) : Prop :=
  ∀ f ∈ chosen, ∃ v, valueOf display server now e f = .ok v ∧ SameCell reader (cell u f row) v

def OwnRow (now : Int) (model : EntityModel) (t : CreateTable) (e : Json) (row : Row V) : Prop :=
  ∀ sent, statementRow u display server now model t e = .ok sent → t.keyOf row = t.keyOf sent

def FindsWritten (wrote asked : Int) (model : EntityModel) (t : CreateTable)
    (chosen : List EntityField) (e : Json) (written : Multiset (Row V)) : Prop :=
  ∀ (db : Database server reader t written asked) (opts : QueryOptions),
    opts.offset = 0 → (written.card : Int) ≤ opts.limit →
    (∃ g ∈ model.fields, readIdentifier (underscored u opts.orderBy) =
      readIdentifier (underscored u g.name)) →
    ∃ found hits, (PlainModel.new u t.schema model).getByFields u display db.query
        (chosen.map fun f => (f.name, e.get f.name)) opts = .ok found ∧ hits ≤ written ∧
      ↑found = hits.map (canonicalRow u reader (PlainModel.new u t.schema model)) ∧
      (∀ row ∈ hits, HoldsChosen u display server reader wrote chosen e row) ∧
      ∀ row ∈ written, OwnRow u display server wrote model t e row → row ∈ hits

def FoundAgain (wrote asked : Int) (model : EntityModel) (t : CreateTable)
    (chosen : List EntityField) (e : Json) (rows : Multiset (Row V)) : Prop :=
  ∀ f ∈ chosen, ∃ v v' w, fieldValue display server wrote e f = .ok (some v) ∧
    fieldValue display server asked e f = .ok (some v') ∧ reader.same v v' = true ∧
    valueOf display server wrote e f = .ok (some w) ∧ reader.same v w = true ∧
    (f.baseType = "ID" → ∀ row ∈ rows, OwnRow u display server wrote model t e row →
      SameCell reader (cell u f row) (some v))

def KeysTold (t : CreateTable) (rows : Multiset (Row V)) : Prop :=
  ∀ a ∈ rows, ∀ b ∈ rows, (t.keyOf a).map reader.text = (t.keyOf b).map reader.text →
    t.keyOf a = t.keyOf b

variable {model : EntityModel} {schema : String} {t : CreateTable} {rows : Multiset (Row V)}
  {wrote asked : Int}

theorem equals_of_sameCell {a : Option V} {w : V} (h : SameCell reader a (some w)) :
    reader.equals a (some w) = some true := by
  cases h with
  | some hsame => exact reader.equals_true.mpr ⟨_, _, rfl, rfl, hsame⟩

theorem hexDigits_eq (s : String) : hexDigits s = PlainModel.stripHexPrefix s := by
  unfold PlainModel.stripHexPrefix
  split
  next digits hs =>
    rw [hexDigits, hs, if_pos (by simp)]
    rfl
  next hother =>
    rw [hexDigits, if_neg]
    intro hmarked
    obtain ⟨digits, hs⟩ := List.isPrefixOf_iff_prefix.mp hmarked
    exact hother digits hs.symm

theorem fieldValue_eq {now : Int} {e : Json} {f : EntityField} {ty : SqlType}
    (hty : columnType f = .ok ty) (hplain : ty = .jsonb → ∀ s, e.get f.name ≠ .string s) :
    fieldValue display server now e f = valueOf display server now e f := by
  have hbind : valueOf display server now e f =
      Upsert.bindParam server now (castTo ty) (spelling display ty (e.get f.name)) := by
    rw [valueOf, hty]
    rfl
  have hspelling : PlainModel.encode display f (e.get f.name) =
      spelling display ty (e.get f.name) := by
    cases hv : e.get f.name with
    | null => rw [PlainModel.encode, spelling]
    | bool b => rw [PlainModel.encode, spelling]
    | string s =>
      have hne : ty ≠ .jsonb := fun hjson => hplain hjson s hv
      rw [PlainModel.encode]
      split_ifs with hbytes
      · obtain rfl := (bytes_iff hty).mp ⟨hbytes, single_of_type hty hne⟩
        rw [spelling, hexDigits_eq]
      · cases ty with
        | jsonb => exact absurd rfl hne
        | bytea => exact absurd ((bytes_iff hty).mpr rfl).1 hbytes
        | _ => rfl
    | _ => cases ty <;> rfl
  rw [hbind, fieldValue, placeholder_castTo hty, hspelling]

theorem statementRow_holds (h : createTable u model schema = .ok t) (haccept : t.Accepted)
    {e : Json} {row : Row V} (hrow : statementRow u display server wrote model t e = .ok row) :
    ∀ f ∈ model.fields, fieldValue display server wrote e f = .ok (cell u f row) := by
  intro f hf
  obtain ⟨c, hc, -⟩ := haccept.names (readIdentifier (underscored u f.name)) (by
    rw [columnNames_eq u h]
    exact List.mem_map_of_mem hf)
  rw [cell, hc, Option.bind_some]
  exact newRow_holds u h haccept.distinct (statementRow_formed u display server hrow).2 f hf c hc

variable (wrote asked) in
theorem fieldValue_id (h : createTable u model schema = .ok t) {f : EntityField}
    (hf : f ∈ model.fields) (hid : f.baseType = "ID") (e : Json) :
    fieldValue display server wrote e f = fieldValue display server asked e f := by
  obtain ⟨column, -, -, hty, -⟩ := described_column u h hf
  have hcast : PlainModel.placeholder f ≠ .cast .timestamp := by
    rw [placeholder_castTo hty]
    rw [columnType, hid] at hty
    split_ifs at hty <;> rw [← Except.ok.inj hty] <;> decide
  rw [fieldValue, fieldValue]
  cases PlainModel.encode display f (e.get f.name) with
  | none => rfl
  | some text =>
    rw [Upsert.bindParam, Upsert.bindParam, Placeholder.input_steady hcast wrote asked]

theorem cell_assign (h : createTable u model schema = .ok t) (haccept : t.Accepted) (row old : Row V)
    {f : EntityField} (hf : f ∈ model.fields) :
    cell u f (((PlainModel.new u t.schema model).upsertStatement u).assign row old) =
      if f.baseType = "ID" then cell u f old else cell u f row := by
  have hdistinct := haccept.distinct
  rw [columnNames_eq u h] at hdistinct
  obtain ⟨c, hc, -⟩ := haccept.names (readIdentifier (underscored u f.name)) (by
    rw [columnNames_eq u h]
    exact List.mem_map_of_mem hf)
  have hset : some c ∈ Upsert.names ((PlainModel.new u t.schema model).upsertStatement u).set ↔
      f.baseType ≠ "ID" := by
    rw [mem_names_set]
    constructor
    · rintro ⟨g, hg, hgid, hread⟩
      rwa [List.inj_on_of_nodup_map hdistinct hf hg (by rw [hc, hread])]
    · exact fun hid => ⟨f, hf, hid, hc⟩
  simp only [cell, hc, Option.bind_some, Upsert.assign, hset, ne_eq, ite_not]

def chosenFilters (chosen : List EntityField) (e : Json) : List (String × Json) :=
  chosen.map fun f => (f.name, e.get f.name)

def chosenConditions (u : Unicode) (chosen : List EntityField) : List Condition :=
  chosen.map fun f => ⟨underscored u f.name, PlainModel.placeholder f⟩

def chosenParams (chosen : List EntityField) (e : Json) : List (Option String) :=
  chosen.map fun f => PlainModel.encode display f (e.get f.name)

variable {chosen : List EntityField} {e : Json} {sent : Row V}

theorem find_field (h : createTable u model schema = .ok t) (haccept : t.Accepted)
    {f : EntityField} (hf : f ∈ model.fields) :
    model.fields.find? (fun g => g.name == f.name) = some f := by
  have hdistinct := haccept.distinct
  rw [columnNames_eq u h] at hdistinct
  cases hfind : model.fields.find? (fun g => g.name == f.name) with
  | none =>
    have := List.find?_eq_none.mp hfind f hf
    simp at this
  | some g =>
    have hname : g.name = f.name := by simpa using List.find?_some hfind
    rw [List.inj_on_of_nodup_map hdistinct hf (List.mem_of_find?_eq_some hfind) (by rw [hname])]

theorem parts_chosen (h : createTable u model schema = .ok t) (haccept : t.Accepted)
    (hchosen : ∀ f ∈ chosen, f ∈ model.fields) :
    (chosenFilters chosen e).mapM ((PlainModel.new u t.schema model).filterPart u display) =
      .ok (chosen.map fun f => (⟨underscored u f.name, PlainModel.placeholder f⟩,
        PlainModel.encode display f (e.get f.name))) := by
  rw [chosenFilters, List.mapM_map]
  exact mapM_eq_map fun f hf => filterPart_ok.mpr ⟨f, find_field u h haccept (hchosen f hf), rfl⟩

theorem bind_chosen {want : EntityField → Option V}
    (hwant : ∀ f ∈ chosen, fieldValue display server asked e f = .ok (want f)) :
    Select.bind server asked (chosenConditions u chosen) (chosenParams display chosen e) =
      .ok (chosen.map want) := by
  rw [Select.bind, chosenConditions, chosenParams, List.zip_map', List.mapM_map]
  exact mapM_eq_map hwant

theorem selects_chosen {want : EntityField → Option V} {row : Row V} :
    Select.selects reader (chosenConditions u chosen) (chosen.map want) row = true ↔
      ∀ f ∈ chosen, reader.equals (cell u f row) (want f) = some true := by
  rw [selects_iff, chosenConditions, List.zip_map', List.forall_mem_map]
  rfl

theorem getByFields_chosen (h : createTable u model schema = .ok t) (haccept : t.Accepted)
    (hchosen : ∀ f ∈ chosen, f ∈ model.fields) {want : EntityField → Option V}
    (hwant : ∀ f ∈ chosen, fieldValue display server asked e f = .ok (want f))
    {opts : QueryOptions}
    (hoffset : opts.offset = 0) (hlimit : (rows.card : Int) ≤ opts.limit)
    (horder : ∃ g ∈ model.fields, readIdentifier (underscored u opts.orderBy) =
      readIdentifier (underscored u g.name)) (db : Database server reader t rows asked) :
    ∃ found, (PlainModel.new u t.schema model).getByFields u display db.query
        (chosenFilters chosen e) opts = .ok found ∧
      ↑found = (rows.filter fun row => ∀ f ∈ chosen,
        reader.equals (cell u f row) (want f) = some true).map
          (canonicalRow u reader (PlainModel.new u t.schema model)) := by
  obtain ⟨g, hg, horder⟩ := horder
  have hparts := parts_chosen u display h haccept hchosen (e := e)
  have hformed := wellFormed_byFields opts h haccept.distinct hparts hg horder (by omega) hoffset.ge
  rw [List.map_map] at hformed
  obtain ⟨answer, hquery, order, horder, hpage⟩ := db.answers _ (chosenParams display chosen e) _
    hformed (bind_chosen u display server hwant)
  refine ⟨_, getByFields_ok.mpr ⟨_, answer, hparts, ?_, rfl⟩, ?_⟩
  · rw [List.map_map, List.map_map]
    exact hquery
  · have hcard : order.length ≤ opts.limit.toNat := by
      have hlength : order.length ≤ rows.card := by
        rw [← Multiset.coe_card, horder.rows, Select.outputs, Multiset.card_map]
        exact Multiset.card_le_card (Multiset.filter_le _ _)
      omega
    rw [hpage, page, PlainModel.selectByFields, hoffset, Int.toNat_zero, List.drop_zero,
      List.take_of_length_le hcard, ← Multiset.map_coe, horder.rows, Select.outputs, Multiset.map_map]
    refine Multiset.map_congr ?_ ?_
    · exact Multiset.filter_congr fun row _ => selects_chosen u reader
    · intro row _
      rw [Function.comp_apply, output_byFields, canonicalRow]

theorem cast_of_found (h : createTable u model schema = .ok t) (haccept : t.Accepted)
    (hchosen : ∀ f ∈ chosen, f ∈ model.fields) {opts : QueryOptions}
    (db : Database server reader t rows asked) {found : List CanonicalRow}
    (hget : (PlainModel.new u t.schema model).getByFields u display db.query
      (chosenFilters chosen e) opts = .ok found) :
    ∀ f ∈ chosen, ∃ v, fieldValue display server asked e f = .ok v := by
  obtain ⟨parts, answer, hparts, hquery, -⟩ := getByFields_ok.mp hget
  rw [parts_chosen u display h haccept hchosen] at hparts
  obtain rfl := Except.ok.inj hparts
  have hbind : ∃ values, Select.bind server asked (chosenConditions u chosen)
      (chosenParams display chosen e) = .ok values := by
    cases hbind : Select.bind server asked (chosenConditions u chosen)
        (chosenParams display chosen e) with
    | ok values => exact ⟨values, rfl⟩
    | error err =>
      obtain ⟨err', herror⟩ := db.refuses ((PlainModel.new u t.schema model).selectByFields u
        (chosenConditions u chosen) opts) (chosenParams display chosen e) err hbind
      rw [List.map_map, List.map_map] at hquery
      cases herror.symm.trans hquery
  obtain ⟨values, hvalues⟩ := hbind
  rw [Select.bind, chosenConditions, chosenParams, List.zip_map', List.mapM_map, mapM_eq_ok]
    at hvalues
  intro f hf
  obtain ⟨v, -, hv⟩ := exists_right hvalues hf
  exact ⟨v, hv⟩

theorem ownRow_iff (hrow : statementRow u display server wrote model t e = .ok sent) {row : Row V} :
    OwnRow u display server wrote model t e row ↔ t.keyOf row = t.keyOf sent := by
  constructor
  · exact fun hown => hown sent hrow
  · intro hkey sent' hrow'
    rw [hrow] at hrow'
    cases hrow'
    exact hkey

theorem upsert_one [DecidableEq V] {link : Link} {written : World V}
    (hwrite : (PlainModel.new u t.schema model).upsert u display (execute server link t) [e]
      ⟨rows, 0⟩ = (.ok (), written)) :
    ∃ sent, statementRow u display server (link.now 0) model t e = .ok sent ∧
      written.rows = upsertOne t.keyOf
        ((PlainModel.new u t.schema model).upsertStatement u).assign sent rows := by
  obtain ⟨w, hfirst, hrest⟩ := andThen_ok.mp hwrite
  obtain ⟨-, hexec, -⟩ := request_ok.mp hfirst
  obtain rfl : w = written := congrArg Prod.snd hrest
  rw [exec_eq] at hexec
  cases hrow : statementRow u display server (link.now 0) model t e with
  | error err =>
    rw [hrow] at hexec
    cases hexec
  | ok sent =>
    rw [hrow] at hexec
    exact ⟨sent, rfl, (Except.ok.inj hexec).symm⟩

theorem own_cell [DecidableEq V] (h : createTable u model schema = .ok t) (haccept : t.Accepted)
    (hrow : statementRow u display server wrote model t e = .ok sent) {row : Row V}
    (hwritten : row ∈ upsertOne t.keyOf ((PlainModel.new u t.schema model).upsertStatement u).assign
      sent rows) (hkey : t.keyOf row = t.keyOf sent) {f : EntityField} (hf : f ∈ model.fields) :
    cell u f row = cell u f sent ∨ f.baseType = "ID" ∧ ∃ old ∈ rows,
      OwnRow u display server wrote model t e old ∧ cell u f row = cell u f old := by
  obtain rfl | ⟨old, hold, hsame, rfl⟩ := eq_of_mem_upsertOne hwritten hkey
  · exact .inl rfl
  · rw [cell_assign u h haccept sent old hf]
    split_ifs with hid
    · exact .inr ⟨hid, old, hold, (ownRow_iff u display server hrow).mpr hsame, rfl⟩
    · exact .inl rfl

theorem keyOf_canonical (h : createTable u model schema = .ok t) (haccept : t.Accepted)
    (htold : KeysTold reader t rows) {a b : Row V} (ha : a ∈ rows) (hb : b ∈ rows)
    (hsame : canonicalRow u reader (PlainModel.new u t.schema model) a =
      canonicalRow u reader (PlainModel.new u t.schema model) b) : t.keyOf a = t.keyOf b := by
  refine htold a ha b hb ?_
  cases hkey : t.key with
  | none => simp only [CreateTable.keyOf, hkey, Option.bind_none]
  | some k =>
    obtain ⟨name, hname, hread⟩ := Option.bind_eq_some_iff.mp hkey
    rw [(createTable_ok h).2.2.2] at hname
    obtain ⟨f, hf, rfl⟩ := Option.map_eq_some_iff.mp hname
    obtain ⟨hmem, hid⟩ := List.mem_filter.mp (List.mem_of_getLast? hf)
    have hid : f.baseType = "ID" := of_decide_eq_true hid
    have hcells := List.map_inj_left.mp (rowToCanonical_inj h haccept.distinct
      (by rw [List.length_map]) (by rw [List.length_map]) hsame) (f, underscored u f.name)
      (PlainModel.mem_sortedColumns.mpr ⟨hmem, rfl⟩)
    simpa [cellText, hread, hid, CreateTable.keyOf, hkey] using hcells

theorem found_again_of_finds [DecidableEq V] (h : createTable u model schema = .ok t)
    (haccept : t.Accepted) (hchosen : ∀ f ∈ chosen, f ∈ model.fields)
    (hrow : statementRow u display server wrote model t e = .ok sent)
    (htold : KeysTold reader t (upsertOne t.keyOf
      ((PlainModel.new u t.schema model).upsertStatement u).assign sent rows))
    (hfinds : FindsWritten u display server reader wrote asked model t chosen e (upsertOne t.keyOf
      ((PlainModel.new u t.schema model).upsertStatement u).assign sent rows)) :
    FoundAgain u display server reader wrote asked model t chosen e rows := by
  have hassigns := assigns_of_wellFormed u h (statementRow_formed u display server hrow).1 (V := V)
  have hvalue := fun f hf => statementRow_holds u display server h haccept hrow f (hchosen f hf)
  intro f hf
  let written := upsertOne t.keyOf ((PlainModel.new u t.schema model).upsertStatement u).assign
    sent rows
  let opts : QueryOptions := ⟨f.name, .asc, written.card, 0⟩
  have hoffset : opts.offset = 0 := rfl
  have hlimit : (written.card : Int) ≤ opts.limit := le_rfl
  have horder : ∃ g ∈ model.fields, readIdentifier (underscored u opts.orderBy) =
    readIdentifier (underscored u g.name) := ⟨f, hchosen f hf, rfl⟩
  obtain ⟨db⟩ := database_nonempty server reader t written asked
  obtain ⟨found, hits, hget, -, hhits, hholds, hown⟩ := hfinds db opts hoffset hlimit horder
  let want (f : EntityField) : Option V := (fieldValue display server asked e f).toOption.join
  have hwant : ∀ f ∈ chosen, fieldValue display server asked e f = .ok (want f) := by
    intro f hf
    obtain ⟨v, hv⟩ := cast_of_found u display server reader h haccept hchosen db hget f hf
    simp only [want, hv]
    rfl
  obtain ⟨found', hget', hfound⟩ := getByFields_chosen u display server reader h haccept hchosen
    hwant hoffset hlimit horder db
  obtain rfl : found = found' := Except.ok.inj (hget.symm.trans hget')
  -- The stored row is found, so a row that looks like it matched, and that is the row itself.
  obtain ⟨stored, hstored, hkey, -⟩ : ∃ r ∈ written, t.keyOf r = t.keyOf sent ∧ _ :=
    mem_upsertOne_same hassigns
  have hhit := hown stored hstored ((ownRow_iff u display server hrow).mpr hkey)
  have hmatch := Multiset.mem_map_of_mem
    (canonicalRow u reader (PlainModel.new u t.schema model)) hhit
  rw [← hhits, hfound] at hmatch
  obtain ⟨row, hrow', hlooks⟩ := Multiset.mem_map.mp hmatch
  obtain ⟨hmem, hequal⟩ := Multiset.mem_filter.mp hrow'
  have hrowkey := (keyOf_canonical u reader h haccept htold hmem hstored hlooks).trans hkey
  obtain ⟨c, v', hc, hv', hsame⟩ := reader.equals_true.mp (hequal f hf)
  have hasked : fieldValue display server asked e f = .ok (some v') := hv' ▸ hwant f hf
  obtain ⟨v, hv, hvv'⟩ : ∃ v, fieldValue display server wrote e f = .ok (some v) ∧
      reader.same v v' = true := by
    obtain hcell | ⟨hid, -⟩ := own_cell u display server h haccept hrow hmem hrowkey (hchosen f hf)
    · exact ⟨c, by rw [hvalue f hf, ← hcell, hc], hsame⟩
    · rw [fieldValue_id u display server wrote asked h (hchosen f hf) hid]
      exact ⟨v', hasked, reader.same_refl v'⟩
  obtain ⟨w, hw, hcw⟩ : ∃ w, valueOf display server wrote e f = .ok (some w) ∧
      reader.same c w = true := by
    obtain ⟨w, hw, hcell⟩ :=
      hholds row (hown row hmem ((ownRow_iff u display server hrow).mpr hrowkey)) f hf
    rw [hc] at hcell
    cases hcell with
    | some hcw => exact ⟨_, hw, hcw⟩
  have hvw : reader.same v w = true :=
    reader.same_trans _ _ _ hvv' (reader.same_trans _ _ _ (reader.same_symm _ _ hsame) hcw)
  refine ⟨v, v', w, hv, hasked, hvv', hw, hvw, fun hid old hold holdown => ?_⟩
  have holdkey := (ownRow_iff u display server hrow).mp holdown
  have hset := hown _ (set_mem_upsertOne hold holdkey) ((ownRow_iff u display server hrow).mpr
    ((hassigns.key_set sent old).trans holdkey))
  obtain ⟨v₀, hv₀, hsame₀⟩ := hholds _ hset f hf
  rw [cell_assign u h haccept sent old (hchosen f hf), if_pos hid] at hsame₀
  rw [hw] at hv₀
  rw [← Except.ok.inj hv₀] at hsame₀
  obtain ⟨x, y, hx, hy, hxy⟩ := reader.equals_true.mp (equals_of_sameCell reader hsame₀)
  obtain rfl := Option.some.inj hy
  rw [hx]
  exact .some (reader.same_trans _ _ _ hxy (reader.same_symm _ _ hvw))

theorem finds_of_found_again [DecidableEq V] (h : createTable u model schema = .ok t)
    (haccept : t.Accepted) (hchosen : ∀ f ∈ chosen, f ∈ model.fields)
    (hrow : statementRow u display server wrote model t e = .ok sent)
    (hagain : FoundAgain u display server reader wrote asked model t chosen e rows) :
    FindsWritten u display server reader wrote asked model t chosen e (upsertOne t.keyOf
      ((PlainModel.new u t.schema model).upsertStatement u).assign sent rows) := by
  have hvalue := fun f hf => statementRow_holds u display server h haccept hrow f (hchosen f hf)
  let want (f : EntityField) : Option V := (fieldValue display server asked e f).toOption.join
  have hwant : ∀ f ∈ chosen, fieldValue display server asked e f = .ok (want f) := by
    intro f hf
    obtain ⟨v, v', w, -, hv', -⟩ := hagain f hf
    simp only [want, hv']
    rfl
  intro db opts hoffset hlimit horder
  obtain ⟨found, hget, hfound⟩ := getByFields_chosen u display server reader h haccept hchosen
    hwant hoffset hlimit horder db
  refine ⟨found, _, hget, Multiset.filter_le _ _, hfound, ?_, ?_⟩
  · intro row hhit f hf
    obtain ⟨v, v', w, -, hv', hsame, hw, hvw, -⟩ := hagain f hf
    obtain ⟨c, v'', hc, hv'', hcv⟩ := reader.equals_true.mp ((Multiset.mem_filter.mp hhit).2 f hf)
    obtain rfl : v' = v'' := Option.some.inj (Except.ok.inj ((hwant f hf ▸ hv').symm.trans
      (congrArg Except.ok hv'')))
    refine ⟨some w, hw, ?_⟩
    rw [hc]
    exact .some (reader.same_trans _ _ _ hcv
      (reader.same_trans _ _ _ (reader.same_symm _ _ hsame) hvw))
  · intro row hmem hown
    refine Multiset.mem_filter.mpr ⟨hmem, fun f hf => ?_⟩
    obtain ⟨v, v', w, hv, hv', hsame, -, -, hid⟩ := hagain f hf
    have hwanted : want f = some v' := Except.ok.inj ((hwant f hf).symm.trans hv')
    obtain ⟨c, hc, hcv⟩ : ∃ c, cell u f row = some c ∧ reader.same c v = true := by
      obtain hcell | ⟨hfid, old, hold, holdown, hcell⟩ := own_cell u display server h haccept hrow
        hmem ((ownRow_iff u display server hrow).mp hown) (hchosen f hf)
      · rw [hvalue f hf] at hv
        exact ⟨v, hcell.trans (Except.ok.inj hv), reader.same_refl v⟩
      · obtain ⟨c, w, hc, hw, hcw⟩ := reader.equals_true.mp
          (equals_of_sameCell reader (hid hfid old hold holdown))
        obtain rfl := Option.some.inj hw
        exact ⟨c, hcell.trans hc, hcw⟩
    rw [hc, hwanted]
    exact reader.equals_true.mpr ⟨c, v', rfl, rfl, reader.same_trans _ _ _ hcv hsame⟩

theorem found_again_iff [DecidableEq V] (h : createTable u model schema = .ok t)
    (haccept : t.Accepted) (hchosen : ∀ f ∈ chosen, f ∈ model.fields) {link : Link}
    {written : World V} (hwrite : (PlainModel.new u t.schema model).upsert u display
      (execute server link t) [e] ⟨rows, 0⟩ = (.ok (), written))
    (htold : KeysTold reader t written.rows) :
    FindsWritten u display server reader (link.now 0) asked model t chosen e written.rows ↔
      FoundAgain u display server reader (link.now 0) asked model t chosen e rows := by
  obtain ⟨sent, hrow, hwritten⟩ := upsert_one u display server hwrite
  rw [hwritten] at htold ⊢
  exact ⟨found_again_of_finds u display server reader h haccept hchosen hrow htold,
    finds_of_found_again u display server reader h haccept hchosen hrow⟩

end Lookup

theorem told_texts {t : CreateTable} {rows : Multiset (Row String)} : KeysTold textReader t rows := by
  intro a _ b _ hsame
  rwa [show textReader.text = id from rfl, Option.map_id, id_eq, id_eq] at hsame

theorem transfer_found_again : ∃ written,
    (PlainModel.new .ascii transfers.schema transfer).upsert .ascii (fun _ => "")
      (execute plainServer .quiet transfers) [paid "7"] ⟨0, 0⟩ = (.ok (), written) ∧
    FindsWritten .ascii (fun _ => "") plainServer textReader 0 1 transfer transfers transfer.fields
      (paid "7") written.rows := by
  obtain ⟨row, hrow⟩ := paid_row 0
  have hwrite : (PlainModel.new .ascii transfers.schema transfer).upsert .ascii (fun _ => "")
      (execute plainServer .quiet transfers) [paid "7"] ⟨0, 0⟩ =
        (.ok (), ⟨upsertRows .ascii transfer transfers [row] 0, 1⟩) := by
    refine andThen_ok.mpr ⟨_, request_ok.mpr ⟨rfl, ?_, rfl⟩, rfl⟩
    rw [exec_eq, Link.quiet, hrow]
    rfl
  have haccept := shape_accepted .ascii transfer_created transfer_shape
  refine ⟨_, hwrite, (found_again_iff .ascii (fun _ => "") plainServer textReader transfer_created
    haccept (fun _ hf => hf) hwrite told_texts).mpr ?_⟩
  intro f hf
  obtain rfl | rfl : f = ⟨"id", "ID", false, false⟩ ∨ f = ⟨"amount", "BigInt", false, false⟩ := by
    simpa [transfer] using hf
  · exact ⟨"t-1", "t-1", "t-1", rfl, rfl, textReader.same_refl _, rfl, textReader.same_refl _,
      fun _ r hr => (by cases hr)⟩
  · have hnumber (now : Int) : fieldValue (fun _ => "") plainServer now (paid "7")
        ⟨"amount", "BigInt", false, false⟩ = .ok (some "7") :=
      congrArg (Except.map some) (paid_number now)
    have hnumeric : columnType ⟨"amount", "BigInt", false, false⟩ = .ok .numeric := rfl
    have hvalue : valueOf (fun _ => "") plainServer 0 (paid "7")
        ⟨"amount", "BigInt", false, false⟩ = .ok (some "7") := by
      rw [← fieldValue_eq (fun _ => "") plainServer hnumeric fun hjson => (by cases hjson)]
      exact hnumber 0
    exact ⟨"7", "7", "7", hnumber _, hnumber _, textReader.same_refl _, hvalue,
      textReader.same_refl _, fun hid => absurd hid (by decide)⟩

def noted : EntityModel :=
  ⟨"Transfer", [⟨"id", "ID", false, false⟩, ⟨"memo", "String", false, true⟩]⟩

def notes : CreateTable :=
  ⟨"app", "transfers", [⟨"id", .text, true⟩, ⟨"memo", .text, false⟩], some "id"⟩

theorem noted_created : createTable .ascii noted "app" = .ok notes := by
  rw [createTable, noted, transfer_table]
  decide

theorem notes_accepted : notes.Accepted where
  schema := by decide
  table := by decide
  width := by decide
  distinct := by decide
  names := by decide

def unannotated : Json := .object [("id", .string "t-1")]

theorem unannotated_row : ∃ row, statementRow .ascii (fun _ => "") plainServer 0 noted notes
    unannotated = .ok row := by
  rw [statementRow, PlainModel.new, noted, transfer_table]
  exact ⟨_, rfl⟩

theorem null_not_found : ¬∀ (model : EntityModel) (t : CreateTable) (chosen : List EntityField)
    (e : Json) (rows : Multiset (Row String)) (link : Link) (written : World String) (asked : Int),
      createTable .ascii model "app" = .ok t →
      t.Accepted → t.Holds rows → chosen ≠ [] → (∀ f ∈ chosen, f ∈ model.fields) →
      (PlainModel.new .ascii t.schema model).upsert .ascii (fun _ => "")
        (execute plainServer link t) [e] ⟨rows, 0⟩ = (.ok (), written) →
      FindsWritten .ascii (fun _ => "") plainServer textReader (link.now 0) asked model t chosen e
        written.rows := by
  intro h
  obtain ⟨row, hrow⟩ := unannotated_row
  have hwrite : (PlainModel.new .ascii notes.schema noted).upsert .ascii (fun _ => "")
      (execute plainServer .quiet notes) [unannotated] ⟨0, 0⟩ =
        (.ok (), ⟨upsertRows .ascii noted notes [row] 0, 1⟩) := by
    refine andThen_ok.mpr ⟨_, request_ok.mpr ⟨rfl, ?_, rfl⟩, rfl⟩
    rw [exec_eq, Link.quiet, hrow]
    rfl
  have hchosen : ∀ f ∈ [⟨"memo", "String", false, true⟩], f ∈ noted.fields := by decide
  have hfinds := h noted notes [⟨"memo", "String", false, true⟩] unannotated 0 .quiet _ 0
    noted_created notes_accepted (CreateTable.holds_zero notes) (by decide) hchosen hwrite
  have hagain : FoundAgain .ascii (fun _ => "") plainServer textReader 0 0 noted notes
      [⟨"memo", "String", false, true⟩] unannotated 0 :=
    found_again_of_finds .ascii (fun _ => "") plainServer textReader noted_created notes_accepted
      hchosen hrow told_texts hfinds
  obtain ⟨v, v', w, hv, -⟩ := hagain _ List.mem_cons_self
  cases hv

end SuperqueryNode.Store

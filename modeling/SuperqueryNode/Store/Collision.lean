import SuperqueryNode.Store.Names

namespace SuperqueryNode.Store

def internalTables : List String :=
  ["_superquery_metadata", "_superquery_blocks", "_superquery_ingestion_blocks"]

structure NamesNeverCollide (u : Unicode) (models : List EntityModel) : Prop where
  tables : (models.map fun m => modelToTableName u m.name).Nodup
  columns : ∀ m ∈ models, (m.fields.map fun f => underscored u f.name).Nodup
  reserved : ∀ m ∈ models, modelToTableName u m.name ∉ internalTables
  tableIdents : ∀ m ∈ models, validateIdent (modelToTableName u m.name) = .ok ()
  columnIdents : ∀ m ∈ models, ∀ f ∈ m.fields, validateIdent (underscored u f.name) = .ok ()

def reservedNames : List String :=
  ["_superquery_metadatum", "_superquery_block", "_superquery_ingestion_block"]

structure NamesApart (models : List EntityModel) : Prop where
  tables : ∀ a ∈ models, ∀ b ∈ models, a.name ≠ b.name →
    onePlural a.name.toList b.name.toList = false
  columns : ∀ m ∈ models, ∀ f ∈ m.fields, ∀ g ∈ m.fields, f.name ≠ g.name →
    alike none '_' f.name.toList '_' g.name.toList = false
  reserved : ∀ m ∈ models, ∀ r ∈ reservedNames, onePlural m.name.toList r.toList = false
  tableLengths : ∀ m ∈ models, pluralLength m.name.toList ≤ 63
  columnLengths : ∀ m ∈ models, ∀ f ∈ m.fields,
    f.name.toList.length + beginnings none '_' f.name.toList ≤ 63

section Apart
variable {A : Type} {u : Unicode}

theorem nodup_iff_apart {xs : List A} {name generated : A → String} {same : A → A → Bool}
    (hnames : (xs.map name).Nodup)
    (hsame : ∀ a ∈ xs, ∀ b ∈ xs, same a b = true ↔ generated a = generated b) :
    (xs.map generated).Nodup ↔ ∀ a ∈ xs, ∀ b ∈ xs, name a ≠ name b → same a b = false := by
  rw [List.nodup_map_iff_inj_on (List.Nodup.of_map _ hnames)]
  constructor
  · intro h a ha b hb hne
    rw [Bool.eq_false_iff]
    exact fun heq => hne (congrArg name (h a ha b hb ((hsame a ha b hb).mp heq)))
  · intro h a ha b hb heq
    by_contra hne
    have hname : name a ≠ name b := fun hname => hne (List.inj_on_of_nodup_map hnames ha hb hname)
    exact Bool.eq_false_iff.mp (h a ha b hb hname) ((hsame a ha b hb).mpr heq)

theorem one_table_iff {a b : String} (ha : isName a.toList = true) (hb : isName b.toList = true) :
    onePlural a.toList b.toList = true ↔ modelToTableName u a = modelToTableName u b := by
  rw [onePlural_iff ha hb, ← (modelToTableName_spelled (u := u) ha).2,
    ← (modelToTableName_spelled (u := u) hb).2, String.toList_inj]

theorem one_column_iff {a b : String} (ha : isName a.toList = true) (hb : isName b.toList = true) :
    alike none '_' a.toList '_' b.toList = true ↔ underscored u a = underscored u b := by
  rw [alike_iff, ← underscored_spelled (u := u) ha, ← underscored_spelled (u := u) hb,
    String.toList_inj]

theorem table_length_iff {name : String} (h : isName name.toList = true) :
    validateIdent (modelToTableName u name) = .ok () ↔ pluralLength name.toList ≤ 63 := by
  obtain ⟨hname, hspelled⟩ := modelToTableName_spelled (u := u) h
  rw [validateIdent_name hname, hspelled, List.length_append, length_spelled]
  rfl

theorem column_length_iff {name : String} (h : isName name.toList = true) :
    validateIdent (underscored u name) = .ok () ↔
      name.toList.length + beginnings none '_' name.toList ≤ 63 := by
  rw [validateIdent_name (underscored_isName h), underscored_spelled h, length_spelled]

theorem reserved_isName : ∀ r ∈ reservedNames, isName r.toList = true := by decide

theorem reserved_tables : reservedNames.map (modelToTableName u) = internalTables := by
  have hspelled : reservedNames.map (modelToTableName u) = reservedNames.map fun r =>
      .ofList (spelled (plural r.toList).ending.head? '_' (plural r.toList).stem ++
        (plural r.toList).ending) := by
    refine List.map_congr_left fun r hr => ?_
    rw [← (modelToTableName_spelled (reserved_isName r hr)).2, String.ofList_toList]
  rw [hspelled]
  decide

theorem reserved_iff {name : String} (h : isName name.toList = true) :
    modelToTableName u name ∉ internalTables ↔
      ∀ r ∈ reservedNames, onePlural name.toList r.toList = false := by
  rw [← reserved_tables (u := u), List.mem_map, not_exists]
  refine forall_congr' fun r => ?_
  rw [not_and]
  refine forall_congr' fun hr => ?_
  rw [Bool.eq_false_iff, Ne, one_table_iff (u := u) h (reserved_isName r hr), eq_comm]

end Apart

section Collide
variable {u : Unicode} {models : List EntityModel}

theorem names_apart_iff (hnames : ∀ m ∈ models, isName m.name.toList = true ∧
      ∀ f ∈ m.fields, isName f.name.toList = true)
    (hentities : (models.map (·.name)).Nodup)
    (hfields : ∀ m ∈ models, (m.fields.map (·.name)).Nodup) :
    NamesNeverCollide u models ↔ NamesApart models := by
  have htables : (models.map fun m => modelToTableName u m.name).Nodup ↔
      ∀ a ∈ models, ∀ b ∈ models, a.name ≠ b.name →
        onePlural a.name.toList b.name.toList = false :=
    nodup_iff_apart hentities fun a ha b hb => one_table_iff (hnames a ha).1 (hnames b hb).1
  have hcolumns (m : EntityModel) (hm : m ∈ models) :
      (m.fields.map fun f => underscored u f.name).Nodup ↔ ∀ f ∈ m.fields, ∀ g ∈ m.fields,
        f.name ≠ g.name → alike none '_' f.name.toList '_' g.name.toList = false :=
    nodup_iff_apart (hfields m hm) fun f hf g hg =>
      one_column_iff ((hnames m hm).2 f hf) ((hnames m hm).2 g hg)
  constructor
  · intro h
    exact {
      tables := htables.mp h.tables
      columns := fun m hm => (hcolumns m hm).mp (h.columns m hm)
      reserved := fun m hm => (reserved_iff (hnames m hm).1).mp (h.reserved m hm)
      tableLengths := fun m hm => (table_length_iff (hnames m hm).1).mp (h.tableIdents m hm)
      columnLengths := fun m hm f hf =>
        (column_length_iff ((hnames m hm).2 f hf)).mp (h.columnIdents m hm f hf) }
  · intro h
    exact {
      tables := htables.mpr h.tables
      columns := fun m hm => (hcolumns m hm).mpr (h.columns m hm)
      reserved := fun m hm => (reserved_iff (hnames m hm).1).mpr (h.reserved m hm)
      tableIdents := fun m hm => (table_length_iff (hnames m hm).1).mpr (h.tableLengths m hm)
      columnIdents := fun m hm f hf =>
        (column_length_iff ((hnames m hm).2 f hf)).mpr (h.columnLengths m hm f hf) }

theorem names_never_collide_iff {parser : GraphqlParser} {sdl schema : String}
    {tables : List CreateTable} (hparse : parseEntities parser sdl = .ok models)
    (hentities : (models.map (·.name)).Nodup)
    (hfields : ∀ m ∈ models, (m.fields.map (·.name)).Nodup)
    (_hcreate : createTables u models schema = .ok tables) :
    NamesNeverCollide u models ↔ NamesApart models :=
  names_apart_iff (parseEntities_names hparse) hentities hfields

end Collide

def idField : FieldDefinition := ⟨"id", .nonNull (.named "ID")⟩

def amountField : FieldDefinition := ⟨"amount", .nonNull (.named "BigInt")⟩

def transferSdl : String := "type Transfer @entity { id: ID! amount: BigInt! }"

def pluralSdl : String := "type Transfer @entity { id: ID! } type Transfers @entity { id: ID! }"

-- The documents of the two texts above; no other text parses.
def fixtureParser : GraphqlParser where
  parseSchema := fun sdl =>
    if sdl = transferSdl then
      .ok [.object ⟨"Transfer", ["entity"], [idField, amountField]⟩]
    else if sdl = pluralSdl then
      .ok [.object ⟨"Transfer", ["entity"], [idField]⟩,
        .object ⟨"Transfers", ["entity"], [idField]⟩]
    else .error "parse error"
  names := by
    intro sdl doc obj hdoc hobj
    split_ifs at hdoc <;> cases hdoc
    · obtain rfl : obj = ⟨"Transfer", ["entity"], [idField, amountField]⟩ := by simpa using hobj
      decide
    · obtain rfl | rfl : obj = ⟨"Transfer", ["entity"], [idField]⟩ ∨
          obj = ⟨"Transfers", ["entity"], [idField]⟩ := by simpa using hobj
      all_goals decide

theorem transfer_parsed : parseEntities fixtureParser transferSdl = .ok [transfer] := rfl

theorem transfers_created : createTables .ascii [transfer] "app" = .ok [transfers] := by
  rw [createTables, List.mapM_cons, transfer_created]
  rfl

theorem transfer_names_apart : NamesNeverCollide .ascii [transfer] :=
  (names_never_collide_iff transfer_parsed (by decide) (by decide) transfers_created).mpr
    ⟨by decide, by decide +kernel, by decide +kernel, by decide +kernel, by decide +kernel⟩

def lone (name : String) : EntityModel := ⟨name, [⟨"id", "ID", false, false⟩]⟩

def loneTable (name : String) : CreateTable :=
  ⟨"app", modelToTableName .ascii name, [⟨"id", .text, true⟩], some "id"⟩

theorem plural_entity_collides : ¬∀ parser sdl schema models tables,
    parseEntities parser sdl = .ok models → (models.map (·.name)).Nodup →
    (∀ m ∈ models, (m.fields.map (·.name)).Nodup) →
    createTables .ascii models schema = .ok tables → NamesNeverCollide .ascii models := by
  intro h
  have hparsed : parseEntities fixtureParser pluralSdl = .ok [lone "Transfer", lone "Transfers"] :=
    rfl
  have hcreated : createTables .ascii [lone "Transfer", lone "Transfers"] "app" =
      .ok [loneTable "Transfer", loneTable "Transfers"] := rfl
  have hcollide := h fixtureParser pluralSdl "app" _ _ hparsed (by decide) (by decide) hcreated
  have hone : modelToTableName .ascii "Transfer" = modelToTableName .ascii "Transfers" :=
    (one_table_iff (by decide) (by decide)).mp (by decide +kernel)
  exact (List.nodup_cons.mp hcollide.tables).1 (List.mem_singleton.mpr hone)

end SuperqueryNode.Store

import SuperqueryNode.Store.Collision
import SuperqueryNode.Store.Identity
import SuperqueryNode.Store.Injection

namespace SuperqueryNode.Store
open Sql Fallible Effects

section Statements

def replaceFirst (pattern new : List Char) : List Char → List Char
  | [] => []
  | c :: s =>
    if pattern.isPrefixOf (c :: s) then new ++ (c :: s).drop pattern.length
    else c :: replaceFirst pattern new s

theorem replaceFirst_start {pattern : List Char} (hne : pattern ≠ []) (new rest : List Char) :
    replaceFirst pattern new (pattern ++ rest) = new ++ rest := by
  obtain ⟨c, pattern, rfl⟩ := List.exists_cons_of_ne_nil hne
  rw [List.cons_append, replaceFirst, if_pos]
  · simp
  · rw [List.isPrefixOf_iff_prefix]
    exact List.prefix_append (c :: pattern) rest

namespace CreateTable

-- The statement as it is sent: `replacen("CREATE TABLE ", "CREATE TABLE IF NOT EXISTS ", 1)`.
def idempotent (t : CreateTable) : List Char :=
  replaceFirst "CREATE TABLE ".toList "CREATE TABLE IF NOT EXISTS ".toList t.sql.toList

def lines (t : CreateTable) : List (Column ⊕ String) :=
  t.columns.map .inl ++ t.primaryKey.toList.map .inr

def lineText : Column ⊕ String → List Char
  | .inl c => c.sql.toList
  | .inr pk => ("  PRIMARY KEY (\"" ++ pk ++ "\")").toList

def body (t : CreateTable) : List Char :=
  (quoted t.schema).toList ++ (".".toList ++ ((quoted t.table).toList ++ (" (\n".toList ++
    ((",\n".toList).intercalate (t.lines.map lineText) ++ "\n);".toList))))

def lineTemplate : Column ⊕ String → List Token
  | .inl c => verbatim "  " ++ (named c.name ++
      verbatim (" " ++ c.type.keyword ++ if c.notNull then " NOT NULL" else ""))
  | .inr pk => verbatim "  PRIMARY KEY (" ++ (named pk ++ verbatim ")")

-- The tokens of one `CREATE TABLE IF NOT EXISTS` with one identifier for each name.
def template (t : CreateTable) : List Token :=
  verbatim "CREATE TABLE IF NOT EXISTS " ++ (named t.schema ++ (verbatim "." ++ (named t.table ++
    (verbatim " (\n" ++ ((verbatim ",\n").intercalate (t.lines.map lineTemplate) ++
      verbatim "\n);")))))

def names (t : CreateTable) : List String :=
  t.schema :: t.table :: (t.columns.map (·.name) ++ t.primaryKey.toList)

def Reads (t : CreateTable) : Prop := scan .text t.idempotent = some t.template

instance (t : CreateTable) : Decidable t.Reads := inferInstanceAs (Decidable (_ = _))

theorem sql_text (t : CreateTable) : t.sql.toList = "CREATE TABLE ".toList ++ t.body := by
  have hhead : "CREATE TABLE \"".toList = "CREATE TABLE ".toList ++ ['"'] := by decide
  have hdot : "\".\"".toList = ['"'] ++ ".".toList ++ ['"'] := by decide
  have hopen : "\" (\n".toList = ['"'] ++ " (\n".toList := by decide
  unfold sql body lines quoted
  simp only [String.toList_append, hhead, hdot, hopen, String.toList_intercalate, List.map_append,
    List.map_map, List.append_assoc]
  rfl

theorem idempotent_text (t : CreateTable) :
    t.idempotent = "CREATE TABLE IF NOT EXISTS ".toList ++ t.body := by
  rw [idempotent, sql_text]
  exact replaceFirst_start (by decide) _ _

theorem line_scans {line : Column ⊕ String}
    (h : (readIdentifier (line.elim (·.name) id)).isSome) : Scans (lineText line) (lineTemplate line) := by
  cases line with
  | inl c =>
    have htext : lineText (.inl c) = "  ".toList ++ ((quoted c.name).toList ++
        (" " ++ c.type.keyword ++ if c.notNull then " NOT NULL" else "").toList) := by
      have hhead : "  \"".toList = "  ".toList ++ ['"'] := by decide
      have hspace : "\" ".toList = ['"'] ++ " ".toList := by decide
      simp only [lineText, Column.sql, quoted, String.toList_append, hhead, hspace, List.append_assoc]
      rfl
    rw [htext, lineTemplate]
    refine .plain_append (by decide) ((named_scans h).append (.plain ?_) ?_)
    · cases c.type <;> cases c.notNull <;> decide
    · cases c.type <;> cases c.notNull <;> decide
  | inr pk =>
    have htext : lineText (.inr pk) = "  PRIMARY KEY (".toList ++ ((quoted pk).toList ++
        ")".toList) := by
      have hhead : "  PRIMARY KEY (\"".toList = "  PRIMARY KEY (".toList ++ ['"'] := by decide
      have htail : "\")".toList = ['"'] ++ ")".toList := by decide
      simp only [lineText, quoted, String.toList_append, hhead, htail, List.append_assoc]
      rfl
    rw [htext, lineTemplate]
    exact .plain_append (by decide) ((named_scans h).append (.plain (by decide)) (by decide))

theorem reads_of_names {t : CreateTable} (h : ∀ n ∈ t.names, (readIdentifier n).isSome) :
    t.Reads := by
  simp only [names, List.forall_mem_cons, List.forall_mem_append, List.forall_mem_map] at h
  obtain ⟨hschema, htable, hcolumns, hkey⟩ := h
  have hlines : ∀ line ∈ t.lines, Scans (lineText line) (lineTemplate line) := by
    refine List.forall_mem_append.mpr ⟨List.forall_mem_map.mpr fun c hc => ?_,
      List.forall_mem_map.mpr fun pk hpk => ?_⟩
    · exact line_scans (hcolumns c hc)
    · exact line_scans (hkey pk hpk)
  have hscans : Scans t.idempotent t.template := by
    rw [idempotent_text, body, template]
    refine .plain_append (by decide) ((named_scans hschema).append (.plain_append (by decide)
      ((named_scans htable).append (.plain_append (by decide)
        ((Scans.intercalate (by decide) (by decide) hlines).append (.plain (by decide))
          (by decide))) ?_)) ?_)
    all_goals exact Scans.head_plain (by decide) (by decide)
  have hscan := hscans [] (by decide)
  rw [List.append_nil] at hscan
  rw [Reads, hscan, scan, Option.map_some, List.append_nil]

end CreateTable

end Statements

-- What the catalogue holds of an entity table; the order of the columns does not matter.
structure TableShape where
  columns : Multiset (Option String × SqlType × Bool)
  key : Option String
deriving DecidableEq

def CreateTable.shape (t : CreateTable) : TableShape :=
  ⟨t.columns.map fun c => (readIdentifier c.name, c.type, t.required c), t.key⟩

inductive Relation where
  | internal
  | entity (shape : TableShape)
deriving DecidableEq

-- A project's schema: its relations by name, and the rows of `_superquery_metadata` with the moment
-- each was last written.
structure SchemaState where
  relations : String → Option Relation
  metadata : Metadata
  updatedAt : String → Option Int

def touched (updatedAt : String → Option Int) (facts : List Fact) (now : Int) :
    String → Option Int :=
  fun key => if key ∈ facts.map (·.1) then some now else updatedAt key

namespace SchemaState

def empty : SchemaState := ⟨fun _ => none, Metadata.empty, fun _ => none⟩

def addRelation (st : SchemaState) (name : String) (r : Relation) : SchemaState :=
  { st with relations := Function.update st.relations name (some r) }

@[simp] theorem addRelation_metadata (st : SchemaState) (name : String) (r : Relation) :
    (st.addRelation name r).metadata = st.metadata := rfl

@[simp] theorem addRelation_same (st : SchemaState) (name : String) (r : Relation) :
    (st.addRelation name r).relations name = some r := Function.update_self ..

@[simp] theorem addRelation_other (st : SchemaState) {name other : String} (r : Relation)
    (h : other ≠ name) : (st.addRelation name r).relations other = st.relations other :=
  Function.update_of_ne h ..

-- `CREATE TABLE IF NOT EXISTS` for the node's own tables.
def ensureTable (name : String) (st : SchemaState) : Except StoreError SchemaState :=
  match st.relations name with
  | some _ => .ok st
  | none => .ok (st.addRelation name .internal)

def verifyOrInitialize (schema projectId chainId : String) (now : Int) (st : SchemaState) :
    Except StoreError SchemaState := do
  let call := VerifyCall.verifyOrInitialize projectId chainId
  let (_, metadata) ← verifyFacts schema st.metadata call
  .ok ⟨st.relations, metadata, touched st.updatedAt (call.missing st.metadata) now⟩

-- `MetadataStore::set` refreshes `updated_at` whatever the value was.
def setSchemaVersion (now : Int) (st : SchemaState) : SchemaState :=
  ⟨st.relations, st.metadata.set Keys.schemaVersion schemaVersion,
    touched st.updatedAt [(Keys.schemaVersion, schemaVersion)] now⟩

end SchemaState

namespace CreateTable

instance (t : CreateTable) : Decidable t.Accepted :=
  decidable_of_iff ((readIdentifier t.schema).isSome ∧ (readIdentifier t.table).isSome ∧
      t.columns.length ≤ maxColumns ∧ t.columnNames.Nodup ∧
      ∀ n ∈ t.columnNames, n.any fun s => s ∉ systemColumns)
    ⟨fun ⟨h1, h2, h3, h4, h5⟩ => ⟨h1, h2, h3, h4, fun n hn => by
        simpa [Option.any_eq_true] using h5 n hn⟩,
      fun h => ⟨h.schema, h.table, h.width, h.distinct, fun n hn => by
        simpa [Option.any_eq_true] using h.names n hn⟩⟩

-- `CREATE TABLE IF NOT EXISTS`: a relation of that name ends it, whatever its columns are.
def createIfNotExists (refusal : StoreError) (t : CreateTable) (st : SchemaState) :
    Except StoreError SchemaState :=
  match readIdentifier t.table with
  | none => .error refusal
  | some name =>
    match st.relations name with
    | some _ => .ok st
    | none =>
      if t.Accepted then .ok (st.addRelation name (.entity t.shape)) else .error refusal

-- A text that reads as anything but this one statement runs as whatever it says.
def batchExecute (refusal : StoreError) (script : List Char → Effect SchemaState StoreError)
    (t : CreateTable) : Effect SchemaState StoreError :=
  if t.Reads then whole (t.createIfNotExists refusal) else script t.idempotent

end CreateTable

structure SetupCall where
  models : List EntityModel
  link : Link

section Setup
variable (u : Unicode) (refusal : StoreError) (script : List Char → Effect SchemaState StoreError)
  (schema projectId chainId : String)

def initializeSchema (call : SetupCall) : Effect SchemaState StoreError :=
  andThen (attempt (call.link.delivery 0) fun st => (.ok (), st)) <|
  given (validateIdent schema) fun _ =>
  andThen (attempt (call.link.delivery 1)
    (whole (SchemaState.ensureTable "_superquery_metadata"))) <|
  andThen (attempt (call.link.delivery 2)
    (whole (SchemaState.ensureTable "_superquery_blocks"))) <|
  andThen (attempt (call.link.delivery 3)
    (whole (SchemaState.verifyOrInitialize schema projectId chainId (call.link.now 3)))) <|
  given (createTables u call.models schema) fun statements =>
  andThen (all (fun k t => attempt (call.link.delivery k) (t.batchExecute refusal script)) 4
    statements) <|
  attempt (call.link.delivery (4 + statements.length))
    (fun st => (.ok (), st.setSchemaVersion (call.link.now (4 + statements.length))))

end Setup

section Effects
variable {refusal : StoreError} {script : List Char → Effect SchemaState StoreError}
  {st st' : SchemaState}

def Extends (st st' : SchemaState) : Prop :=
  ∀ name r, st.relations name = some r → st'.relations name = some r

theorem extends_refl (st : SchemaState) : Extends st st := fun _ _ h => h

theorem extends_trans (r s t : SchemaState) (h : Extends r s) (h' : Extends s t) : Extends r t :=
  fun name relation hr => h' name relation (h name relation hr)

theorem extends_addRelation {name : String} (h : st.relations name = none) (r : Relation) :
    Extends st (st.addRelation name r) := by
  intro other r' hother
  have hne : other ≠ name := by
    rintro rfl
    rw [h] at hother
    cases hother
  rw [SchemaState.addRelation_other st r hne, hother]

def internalRelations : List String := ["_superquery_metadata", "_superquery_blocks"]

def SchemaState.ensured (st : SchemaState) (name : String) : Option Relation :=
  (st.relations name).or (if name ∈ internalRelations then some .internal else none)

theorem ensureTable_ok {table : String} (h : st.ensureTable table = .ok st') :
    st'.metadata = st.metadata ∧ st'.updatedAt = st.updatedAt ∧ ∀ name, st'.relations name =
      (st.relations name).or (if name = table then some .internal else none) := by
  rw [SchemaState.ensureTable] at h
  cases htable : st.relations table with
  | some r =>
    simp only [htable, Except.ok.injEq] at h
    subst h
    refine ⟨rfl, rfl, fun name => ?_⟩
    split_ifs with hname
    · rw [hname, htable]
      rfl
    · rw [Option.or_none]
  | none =>
    simp only [htable, Except.ok.injEq] at h
    subst h
    refine ⟨rfl, rfl, fun name => ?_⟩
    split_ifs with hname
    · rw [hname, htable, SchemaState.addRelation_same]
      rfl
    · rw [SchemaState.addRelation_other st _ hname, Option.or_none]

theorem ensureTable_extends {table : String} (h : st.ensureTable table = .ok st') :
    Extends st st' := by
  intro name r hr
  rw [(ensureTable_ok h).2.2, hr]
  rfl

structure Created (statements : List CreateTable) (st st' : SchemaState) : Prop where
  metadata : st'.metadata = st.metadata
  updatedAt : st'.updatedAt = st.updatedAt
  kept : Extends st st'
  present : ∀ t ∈ statements, ∃ name r, readIdentifier t.table = some name ∧
    st'.relations name = some r
  made : ∀ name r, st'.relations name = some r → st.relations name = some r ∨
    ∃ t ∈ statements, readIdentifier t.table = some name ∧ r = .entity t.shape

theorem createIfNotExists_ok {t : CreateTable} (h : t.createIfNotExists refusal st = .ok st') :
    Created [t] st st' := by
  rw [CreateTable.createIfNotExists] at h
  cases hname : readIdentifier t.table with
  | none => simp [hname] at h
  | some name =>
    simp only [hname] at h
    cases hrelation : st.relations name with
    | some r =>
      simp only [hrelation, Except.ok.injEq] at h
      subst h
      exact ⟨rfl, rfl, extends_refl st, by simpa using ⟨name, hname, r, hrelation⟩,
        fun _ _ hr => .inl hr⟩
    | none =>
      simp only [hrelation, ite_ok_eq_ok, Except.ok.injEq] at h
      obtain ⟨-, rfl⟩ := h
      refine ⟨rfl, rfl, extends_addRelation hrelation _, ?_, ?_⟩
      · intro t' ht'
        rw [List.mem_singleton.mp ht']
        exact ⟨name, _, hname, st.addRelation_same name _⟩
      · intro other r hr
        by_cases hother : other = name
        · rw [hother, SchemaState.addRelation_same, Option.some.injEq] at hr
          exact .inr ⟨t, List.mem_cons_self, hother ▸ hname, hr.symm⟩
        · exact .inl (by rwa [SchemaState.addRelation_other st _ hother] at hr)

theorem created_append {statements later : List CreateTable} {mid : SchemaState}
    (h : Created statements st mid) (h' : Created later mid st') :
    Created (statements ++ later) st st' where
  metadata := h'.metadata.trans h.metadata
  updatedAt := h'.updatedAt.trans h.updatedAt
  kept := extends_trans st mid st' h.kept h'.kept
  present := by
    refine List.forall_mem_append.mpr ⟨fun t ht => ?_, h'.present⟩
    obtain ⟨name, r, hname, hr⟩ := h.present t ht
    exact ⟨name, r, hname, h'.kept name r hr⟩
  made := by
    intro name r hr
    rcases h'.made name r hr with hmid | ⟨t, ht, hname, hshape⟩
    · rcases h.made name r hmid with hold | ⟨t, ht, hname, hshape⟩
      · exact .inl hold
      · exact .inr ⟨t, List.mem_append_left _ ht, hname, hshape⟩
    · exact .inr ⟨t, List.mem_append_right _ ht, hname, hshape⟩

theorem batchExecute_reads {t : CreateTable} (h : t.Reads) :
    t.batchExecute refusal script = whole (t.createIfNotExists refusal) := if_pos h

theorem createAll_ok {delivery : Nat → Delivery StoreError} {statements : List CreateTable}
    (hreads : ∀ t ∈ statements, t.Reads) {k : Nat}
    (h : all (fun k t => attempt (delivery k) (t.batchExecute refusal script)) k statements st =
      (.ok (), st')) : Created statements st st' := by
  induction statements generalizing k st with
  | nil =>
    cases h
    exact ⟨rfl, rfl, extends_refl _, fun _ ht => (by cases ht), fun _ _ hr => .inl hr⟩
  | cons t statements ih =>
    obtain ⟨ht, hreads⟩ := List.forall_mem_cons.mp hreads
    obtain ⟨mid, hfirst, hrest⟩ := andThen_ok.mp h
    rw [attempt_ok, batchExecute_reads ht, whole_ok] at hfirst
    exact created_append (createIfNotExists_ok hfirst.2) (ih hreads hrest)

end Effects

section Run
variable (u : Unicode) (refusal : StoreError) (script : List Char → Effect SchemaState StoreError)
  (schema projectId chainId : String)

structure SetUp (call : SetupCall) (statements : List CreateTable) (st after : SchemaState) :
    Prop where
  ident : validateIdent schema = .ok ()
  ddl : createTables u call.models schema = .ok statements
  accepted : (VerifyCall.verifyOrInitialize projectId chainId).Accepted st.metadata
  created : Created statements ⟨st.ensured, after.metadata, after.updatedAt⟩ after
  metadata : after.metadata = ((VerifyCall.verifyOrInitialize projectId chainId).stamped
    st.metadata).set Keys.schemaVersion schemaVersion
  stamped : after.updatedAt Keys.schemaVersion = some (call.link.now (4 + statements.length))

variable {call : SetupCall} {st after : SchemaState} {statements : List CreateTable} {now : Int}

theorem verify_ok (h : st.verifyOrInitialize schema projectId chainId now = .ok after) :
    (VerifyCall.verifyOrInitialize projectId chainId).Accepted st.metadata ∧
      after = ⟨st.relations, (VerifyCall.verifyOrInitialize projectId chainId).stamped st.metadata,
        touched st.updatedAt ((VerifyCall.verifyOrInitialize projectId chainId).missing st.metadata)
          now⟩ := by
  obtain ⟨⟨outcome, metadata⟩, hverify, hafter⟩ := bind_eq_ok.mp h
  obtain ⟨haccepted, rfl⟩ := verifyFacts_ok hverify
  exact ⟨haccepted, (Except.ok.inj hafter).symm⟩

variable (now) in
theorem verify_accepted
    (h : (VerifyCall.verifyOrInitialize projectId chainId).Accepted st.metadata) :
    st.verifyOrInitialize schema projectId chainId now =
      .ok ⟨st.relations, (VerifyCall.verifyOrInitialize projectId chainId).stamped st.metadata,
        touched st.updatedAt ((VerifyCall.verifyOrInitialize projectId chainId).missing st.metadata)
          now⟩ := by
  rw [SchemaState.verifyOrInitialize, verifyFacts, examine_accepted schema [] h]
  rfl

def StatementsRead (models : List EntityModel) : Prop :=
  ∀ statements, createTables u models schema = .ok statements → ∀ t ∈ statements, t.Reads

theorem initializeSchema_ok (hreads : StatementsRead u schema call.models)
    (h : initializeSchema u refusal script schema projectId chainId call st = (.ok (), after)) :
    ∃ statements, SetUp u schema projectId chainId call statements st after := by
  rw [initializeSchema] at h
  obtain ⟨s0, h0, h⟩ := andThen_ok.mp h
  obtain rfl : st = s0 := congrArg Prod.snd (attempt_ok.mp h0).2
  obtain ⟨_, hident, h⟩ := given_ok.mp h
  obtain ⟨s1, h1, h⟩ := andThen_ok.mp h
  obtain ⟨s2, h2, h⟩ := andThen_ok.mp h
  obtain ⟨s3, h3, h⟩ := andThen_ok.mp h
  obtain ⟨statements, hddl, h⟩ := given_ok.mp h
  obtain ⟨s4, h4, h5⟩ := andThen_ok.mp h
  obtain ⟨hmetadata1, -, hrelations1⟩ := ensureTable_ok (whole_ok.mp (attempt_ok.mp h1).2)
  obtain ⟨hmetadata2, -, hrelations2⟩ := ensureTable_ok (whole_ok.mp (attempt_ok.mp h2).2)
  obtain ⟨haccepted, rfl⟩ := verify_ok schema projectId chainId (whole_ok.mp (attempt_ok.mp h3).2)
  obtain rfl := congrArg Prod.snd (attempt_ok.mp h5).2
  have hcreated := createAll_ok (hreads statements hddl) h4
  have hensured : s2.relations = st.ensured := by
    funext name
    rw [hrelations2, hrelations1, SchemaState.ensured, internalRelations]
    cases st.relations name with
    | some r => rfl
    | none =>
      by_cases hmetadata : name = "_superquery_metadata" <;>
        by_cases hblocks : name = "_superquery_blocks" <;> simp [hmetadata, hblocks]
  rw [hmetadata2, hmetadata1] at haccepted hcreated
  rw [hensured] at hcreated
  refine ⟨statements, hident, hddl, haccepted, ?_, ?_, ?_⟩
  · exact ⟨rfl, rfl, hcreated.kept, hcreated.present, hcreated.made⟩
  · exact congrArg (Metadata.set · Keys.schemaVersion schemaVersion) hcreated.metadata
  · simp [SchemaState.setSchemaVersion, touched]

theorem ensureTable_total (table : String) (st : SchemaState) :
    ∃ st', st.ensureTable table = .ok st' := by
  rw [SchemaState.ensureTable]
  cases st.relations table with
  | some r => exact ⟨_, rfl⟩
  | none => exact ⟨_, rfl⟩

theorem batchExecute_total {t : CreateTable} (hreads : t.Reads) (haccepted : t.Accepted)
    (st : SchemaState) : ∃ st', t.batchExecute refusal script st = (.ok (), st') := by
  rw [batchExecute_reads hreads]
  obtain ⟨name, hname⟩ := Option.isSome_iff_exists.mp haccepted.table
  simp only [whole_ok, CreateTable.createIfNotExists, hname, if_pos haccepted]
  cases st.relations name with
  | some r => exact ⟨_, rfl⟩
  | none => exact ⟨_, rfl⟩

theorem initializeSchema_succeeds (hident : validateIdent schema = .ok ())
    (haccepted : (VerifyCall.verifyOrInitialize projectId chainId).Accepted st.metadata)
    (hddl : createTables u call.models schema = .ok statements)
    (hstatements : ∀ t ∈ statements, t.Reads ∧ t.Accepted)
    (hquiet : ∀ k, call.link.delivery k = .answered) : ∃ after,
      initializeSchema u refusal script schema projectId chainId call st = (.ok (), after) := by
  obtain ⟨s1, h1⟩ := ensureTable_total "_superquery_metadata" st
  obtain ⟨s2, h2⟩ := ensureTable_total "_superquery_blocks" s1
  have hmetadata : s2.metadata = st.metadata :=
    (ensureTable_ok h2).1.trans (ensureTable_ok h1).1
  rw [← hmetadata] at haccepted
  have hverify := verify_accepted schema projectId chainId (call.link.now 3) haccepted
  have htables : ∀ k, ∀ t ∈ statements, ∀ r, ∃ s,
      attempt (call.link.delivery k) (t.batchExecute refusal script) r = (.ok (), s) := by
    intro k t ht r
    obtain ⟨s, hs⟩ := batchExecute_total refusal script (hstatements t ht).1 (hstatements t ht).2 r
    exact ⟨s, attempt_ok.mpr ⟨hquiet k, hs⟩⟩
  obtain ⟨s4, h4⟩ := all_succeeds htables 4 ⟨s2.relations, _, _⟩
  exact ⟨_, andThen_ok.mpr ⟨st, attempt_ok.mpr ⟨hquiet 0, rfl⟩, given_ok.mpr ⟨_, hident,
    andThen_ok.mpr ⟨s1, attempt_ok.mpr ⟨hquiet 1, whole_ok.mpr h1⟩, andThen_ok.mpr ⟨s2,
      attempt_ok.mpr ⟨hquiet 2, whole_ok.mpr h2⟩, andThen_ok.mpr ⟨_, attempt_ok.mpr ⟨hquiet 3,
        whole_ok.mpr hverify⟩, given_ok.mpr ⟨statements, hddl,
          andThen_ok.mpr ⟨s4, h4, attempt_ok.mpr ⟨hquiet _, rfl⟩⟩⟩⟩⟩⟩⟩⟩⟩

def Delivered (t : CreateTable) (st : SchemaState) : Prop :=
  ∃ name, readIdentifier t.table = some name ∧ st.relations name = some (.entity t.shape)

def ShapesAgree (statements : List CreateTable) (st : SchemaState) : Prop :=
  ∀ t ∈ statements, ∀ name, readIdentifier t.table = some name →
    (∀ r, st.ensured name = some r → r = .entity t.shape) ∧
    ∀ t' ∈ statements, readIdentifier t'.table = some name → t'.shape = t.shape

theorem delivered_iff (h : SetUp u schema projectId chainId call statements st after) :
    (∀ t ∈ statements, Delivered t after) ↔ ShapesAgree statements st := by
  constructor
  · intro hdelivered t ht name hname
    have hshape : ∀ t' ∈ statements, readIdentifier t'.table = some name →
        after.relations name = some (.entity t'.shape) := by
      intro t' ht' hname'
      obtain ⟨name', hread, hrelation⟩ := hdelivered t' ht'
      obtain rfl := Option.some.inj (hname'.symm.trans hread)
      exact hrelation
    constructor
    · intro r hr
      have hkept := h.created.kept name r hr
      rw [hshape t ht hname] at hkept
      exact (Option.some.inj hkept).symm
    · intro t' ht' hname'
      have hsame := (hshape t' ht' hname').symm.trans (hshape t ht hname)
      simpa using hsame
  · intro hagree t ht
    obtain ⟨name, r, hname, hr⟩ := h.created.present t ht
    obtain ⟨hold, hnew⟩ := hagree t ht name hname
    refine ⟨name, hname, ?_⟩
    rcases h.created.made name r hr with hbefore | ⟨t', ht', hname', rfl⟩
    · rw [hr, hold r hbefore]
    · rw [hr, hnew t' ht' hname']

theorem initializeSchema_extends (hreads : StatementsRead u schema call.models) (st : SchemaState) :
    Extends st (initializeSchema u refusal script schema projectId chainId call st).2 := by
  refine keeps_andThen extends_trans
    (keeps_attempt extends_refl (fun st => extends_refl st) _)
    (keeps_given extends_refl fun _ _ => keeps_andThen extends_trans
      (keeps_attempt extends_refl (keeps_whole extends_refl ?_) _) (keeps_andThen extends_trans
        (keeps_attempt extends_refl (keeps_whole extends_refl ?_) _) (keeps_andThen extends_trans
          (keeps_attempt extends_refl (keeps_whole extends_refl ?_) _)
          (keeps_given extends_refl fun statements hddl => keeps_andThen extends_trans
            (keeps_all extends_refl extends_trans ?_ 4)
            (keeps_attempt extends_refl (fun _ _ _ hr => hr) _))))) st
  · exact fun s t h => ensureTable_extends h
  · exact fun s t h => ensureTable_extends h
  · intro s t h
    rw [(verify_ok schema projectId chainId h).2]
    exact fun _ _ hr => hr
  · intro k t ht
    rw [batchExecute_reads (hreads statements hddl t ht)]
    exact keeps_attempt extends_refl
      (keeps_whole extends_refl fun s s' h => (createIfNotExists_ok h).kept) _

theorem facts_kept (h : SetUp u schema projectId chainId call statements st after) :
    ∀ c ∈ (VerifyCall.verifyOrInitialize projectId chainId).checks,
      after.metadata c.1 = some c.2 := by
  intro c hc
  have hstored := stamped_stores h.accepted hc
  rw [h.metadata]
  by_cases hversion : c.1 = Keys.schemaVersion
  · have hvalue : c.2 = schemaVersion := by
      simp only [VerifyCall.checks, List.mem_cons, List.not_mem_nil, or_false] at hc
      rcases hc with rfl | rfl | rfl
      · exact absurd hversion (show Keys.projectId ≠ Keys.schemaVersion by decide)
      · exact absurd hversion (show Keys.chainId ≠ Keys.schemaVersion by decide)
      · rfl
    rw [hversion, hvalue, Metadata.set_same]
  · rw [Metadata.set_other _ _ hversion, hstored]

theorem again_eq (h : SetUp u schema projectId chainId call statements st after)
    (hreads : StatementsRead u schema call.models) {again : SetupCall}
    (hmodels : again.models = call.models) : ∃ p : Effect SchemaState StoreError,
      Rests (∀ k < 4 + statements.length, again.link.delivery k = .answered) p after ∧
      initializeSchema u refusal script schema projectId chainId again after =
        andThen p (attempt (again.link.delivery (4 + statements.length)) fun st =>
          (.ok (), st.setSchemaVersion (again.link.now (4 + statements.length)))) after := by
  have hinternal (table : String) (htable : table ∈ internalRelations) :
      whole (SchemaState.ensureTable table) after = (.ok (), after) := by
    have hensured : ∃ r, st.ensured table = some r := by
      rw [SchemaState.ensured, if_pos htable]
      cases st.relations table with
      | some r => exact ⟨r, rfl⟩
      | none => exact ⟨_, rfl⟩
    obtain ⟨r, hr⟩ := hensured
    rw [whole_ok, SchemaState.ensureTable, h.created.kept table r hr]
  have hverify : whole (SchemaState.verifyOrInitialize schema projectId chainId
      (again.link.now 3)) after = (.ok (), after) := by
    have hfacts := facts_kept u schema projectId chainId h
    have hmissing : (VerifyCall.verifyOrInitialize projectId chainId).missing after.metadata = [] :=
      List.filter_eq_nil_iff.mpr fun c hc => by simp [hfacts c hc]
    rw [whole_ok, verify_accepted schema projectId chainId _ fun c hc => .inr (hfacts c hc),
      VerifyCall.stamped, hmissing]
    rfl
  have htables : ∀ t ∈ statements, t.batchExecute refusal script after = (.ok (), after) := by
    intro t ht
    obtain ⟨name, r, hname, hr⟩ := h.created.present t ht
    rw [batchExecute_reads (hreads statements h.ddl t ht), whole_ok]
    simp only [CreateTable.createIfNotExists, hname, hr]
  have hrests := rests_andThen (rests_attempt (a := fun st => (.ok (), st)) (again.link.delivery 0) rfl)
    (rests_andThen (rests_attempt (again.link.delivery 1) (hinternal _ List.mem_cons_self))
      (rests_andThen (rests_attempt (again.link.delivery 2)
          (hinternal _ (List.mem_cons_of_mem _ List.mem_cons_self)))
        (rests_andThen (rests_attempt (again.link.delivery 3) hverify)
          (rests_all (fun k t ht => rests_attempt (again.link.delivery k) (htables t ht)) 4))))
  refine ⟨_, ⟨hrests.state, hrests.result.trans ?_⟩, ?_⟩
  · constructor
    · rintro ⟨h0, h1, h2, h3, hrest⟩ k hk
      obtain rfl | rfl | rfl | rfl | ⟨i, rfl⟩ : k = 0 ∨ k = 1 ∨ k = 2 ∨ k = 3 ∨ ∃ i, k = 4 + i := by
        rcases Nat.lt_or_ge k 4 with hsmall | hlarge
        · omega
        · exact .inr (.inr (.inr (.inr ⟨k - 4, by omega⟩)))
      · exact h0
      · exact h1
      · exact h2
      · exact h3
      · exact hrest i (by omega)
    · intro hall
      exact ⟨hall 0 (by omega), hall 1 (by omega), hall 2 (by omega), hall 3 (by omega),
        fun i hi => hall (4 + i) (by omega)⟩
  · simp only [initializeSchema, h.ident, hmodels, h.ddl, given_of_ok, andThen_assoc]

variable (now) in
theorem stamp_iff (h : SetUp u schema projectId chainId call statements st after) :
    after.setSchemaVersion now = after ↔ now = call.link.now (4 + statements.length) := by
  obtain ⟨relations, metadata, updatedAt⟩ := after
  have hset : metadata.set Keys.schemaVersion schemaVersion = metadata := by
    have hmetadata := h.metadata
    simp only at hmetadata
    rw [hmetadata, Metadata.set, Metadata.set, Function.update_idem]
  rw [SchemaState.setSchemaVersion, SchemaState.mk.injEq]
  simp only [hset, true_and]
  constructor
  · intro hstamps
    have hstamp : some now = updatedAt Keys.schemaVersion := by
      rw [← congrFun hstamps Keys.schemaVersion]
      simp [touched]
    exact Option.some.inj (hstamp.trans h.stamped)
  · rintro rfl
    funext key
    rw [touched]
    split_ifs with hkey
    · rw [List.mem_singleton.mp hkey]
      exact h.stamped.symm
    · rfl

-- The stamp of a repeated call, where it gets as far as its last statement, is the one in place.
def StampsAlike (last : Nat) (call again : SetupCall) : Prop :=
  (∀ k < last, again.link.delivery k = .answered) → (∀ e, again.link.delivery last ≠ .unsent e) →
    again.link.now last = call.link.now last

theorem again_rests_iff (h : SetUp u schema projectId chainId call statements st after)
    (hreads : StatementsRead u schema call.models) {again : SetupCall}
    (hmodels : again.models = call.models) :
    (initializeSchema u refusal script schema projectId chainId again after).2 = after ↔
      StampsAlike (4 + statements.length) call again := by
  obtain ⟨p, hrests, heq⟩ :=
    again_eq u refusal script schema projectId chainId h hreads hmodels
  rw [heq, StampsAlike]
  by_cases hquiet : ∀ k < 4 + statements.length, again.link.delivery k = .answered
  · rw [andThen_of_rests hrests hquiet, imp_iff_right hquiet]
    have hstamp := stamp_iff u schema projectId chainId (again.link.now (4 + statements.length)) h
    cases hdelivery : again.link.delivery (4 + statements.length) with
    | answered => simpa [attempt] using hstamp
    | lost e => simpa [attempt] using hstamp
    | unsent e => simp [attempt]
  · obtain ⟨e, hstopped⟩ := andThen_stopped hrests hquiet
    rw [hstopped]
    exact iff_of_true rfl fun hall => absurd hall hquiet

theorem again_succeeds (h : SetUp u schema projectId chainId call statements st after)
    (hreads : StatementsRead u schema call.models) {again : SetupCall}
    (hmodels : again.models = call.models) (hquiet : ∀ k, again.link.delivery k = .answered) :
    (initializeSchema u refusal script schema projectId chainId again after).1 = .ok () := by
  obtain ⟨p, hrests, heq⟩ :=
    again_eq u refusal script schema projectId chainId h hreads hmodels
  rw [heq, andThen_of_rests hrests fun k _ => hquiet k, hquiet]
  rfl

def afterCall (st : SchemaState) (call : SetupCall) : SchemaState :=
  (initializeSchema u refusal script schema projectId chainId call st).2

def afterCalls (calls : List SetupCall) : SchemaState :=
  calls.foldl (afterCall u refusal script schema projectId chainId) .empty

theorem afterCalls_concat (before : List SetupCall) (call : SetupCall) :
    afterCalls u refusal script schema projectId chainId (before ++ [call]) =
      afterCall u refusal script schema projectId chainId
        (afterCalls u refusal script schema projectId chainId before) call := by
  rw [afterCalls, List.foldl_append, List.foldl_cons, List.foldl_nil, afterCalls]

theorem foldl_extends {later : List SetupCall}
    (hreads : ∀ call ∈ later, StatementsRead u schema call.models) (st : SchemaState) :
    Extends st (later.foldl (afterCall u refusal script schema projectId chainId) st) := by
  induction later generalizing st with
  | nil => exact extends_refl st
  | cons call later ih =>
    obtain ⟨hcall, hlater⟩ := List.forall_mem_cons.mp hreads
    exact extends_trans st _ _
      (initializeSchema_extends u refusal script schema projectId chainId hcall st) (ih hlater _)

def TablesDistinct (models : List EntityModel) : Prop :=
  (models.map fun m => modelToTableName u m.name).Nodup

def EveryCallDelivers (calls : List SetupCall) : Prop :=
  ∀ before call later statements, calls = before ++ call :: later →
    TablesDistinct u call.models →
    (initializeSchema u refusal script schema projectId chainId call
      (afterCalls u refusal script schema projectId chainId before)).1 = .ok () →
    createTables u call.models schema = .ok statements →
    (∀ t ∈ statements, Delivered t (afterCalls u refusal script schema projectId chainId calls)) ∧
    ∀ again rest, later = again :: rest → again.models = call.models →
      afterCalls u refusal script schema projectId chainId (before ++ [call, again]) =
        afterCalls u refusal script schema projectId chainId (before ++ [call]) ∧
      ((∀ k, again.link.delivery k = .answered) →
        (initializeSchema u refusal script schema projectId chainId again
          (afterCalls u refusal script schema projectId chainId (before ++ [call]))).1 = .ok ())

def EveryCallAgrees (calls : List SetupCall) : Prop :=
  ∀ before call later statements, calls = before ++ call :: later →
    TablesDistinct u call.models →
    (initializeSchema u refusal script schema projectId chainId call
      (afterCalls u refusal script schema projectId chainId before)).1 = .ok () →
    createTables u call.models schema = .ok statements →
    ShapesAgree statements (afterCalls u refusal script schema projectId chainId before) ∧
    ∀ again rest, later = again :: rest → again.models = call.models →
      StampsAlike (4 + statements.length) call again

def NamesRead (calls : List SetupCall) : Prop :=
  ∀ call ∈ calls, ∀ statements, createTables u call.models schema = .ok statements →
    ∀ t ∈ statements, ∀ n ∈ t.names, (readIdentifier n).isSome

theorem setUp_of_ok (hreads : StatementsRead u schema call.models)
    (hok : (initializeSchema u refusal script schema projectId chainId call st).1 = .ok ())
    (hddl : createTables u call.models schema = .ok statements) :
    SetUp u schema projectId chainId call statements st
      (afterCall u refusal script schema projectId chainId st call) := by
  obtain ⟨made, h⟩ := initializeSchema_ok u refusal script schema projectId chainId hreads
    (Prod.ext hok rfl : initializeSchema u refusal script schema projectId chainId call st =
      (.ok (), afterCall u refusal script schema projectId chainId st call))
  rwa [Except.ok.inj (hddl.symm.trans h.ddl)]

theorem delivered_later (h : SetUp u schema projectId chainId call statements st after)
    {later : List SetupCall} (hreads : ∀ call ∈ later, StatementsRead u schema call.models) :
    (∀ t ∈ statements, Delivered t
      (later.foldl (afterCall u refusal script schema projectId chainId) after)) ↔
        ∀ t ∈ statements, Delivered t after := by
  have hextends := foldl_extends u refusal script schema projectId chainId hreads after
  constructor
  · intro hall t ht
    obtain ⟨name, hname, hend⟩ := hall t ht
    obtain ⟨name', r, hname', hr⟩ := h.created.present t ht
    obtain rfl := Option.some.inj (hname.symm.trans hname')
    rw [hextends name r hr] at hend
    exact ⟨name, hname, hr.trans hend⟩
  · intro hall t ht
    obtain ⟨name, hname, hr⟩ := hall t ht
    exact ⟨name, hname, hextends name _ hr⟩

theorem every_call_delivers_iff {calls : List SetupCall} (hnames : NamesRead u schema calls) :
    EveryCallDelivers u refusal script schema projectId chainId calls ↔
      EveryCallAgrees u refusal script schema projectId chainId calls := by
  refine forall₅_congr fun before call later statements hcalls =>
    forall₃_congr fun _ hok hddl => ?_
  have hreads : ∀ c ∈ calls, StatementsRead u schema c.models := fun c hc made hmade t ht =>
    CreateTable.reads_of_names (hnames c hc made hmade t ht)
  rw [hcalls, List.forall_mem_append, List.forall_mem_cons] at hreads
  obtain ⟨-, hcall, hlater⟩ := hreads
  have h := setUp_of_ok u refusal script schema projectId chainId hcall hok hddl
  have hend : afterCalls u refusal script schema projectId chainId calls =
      later.foldl (afterCall u refusal script schema projectId chainId)
        (afterCall u refusal script schema projectId chainId
          (afterCalls u refusal script schema projectId chainId before) call) := by
    rw [hcalls, afterCalls, List.foldl_append, List.foldl_cons, afterCalls]
  rw [hend, delivered_later u refusal script schema projectId chainId h hlater,
    ← delivered_iff u schema projectId chainId h]
  refine and_congr_right fun _ => forall₄_congr fun again rest _ hmodels => ?_
  have htwice : before ++ [call, again] = before ++ [call] ++ [again] := by simp
  rw [htwice, afterCalls_concat, afterCalls_concat, afterCall,
    again_rests_iff u refusal script schema projectId chainId h hcall hmodels]
  exact and_iff_left fun hquiet =>
    again_succeeds u refusal script schema projectId chainId h hcall hmodels hquiet

end Run

def transferText : EntityModel :=
  ⟨"Transfer", [⟨"id", "ID", false, false⟩, ⟨"amount", "String", false, false⟩]⟩

def transfersText : CreateTable :=
  ⟨"app", "transfers", [⟨"id", .text, true⟩, ⟨"amount", .text, true⟩], some "id"⟩

theorem transferText_created : createTables .ascii [transferText] "app" = .ok [transfersText] := by
  rw [createTables, List.mapM_cons, createTable, transferText, transfer_table]
  decide

def setupOf (models : List EntityModel) : SetupCall := ⟨models, .quiet⟩

theorem statements_names {models : List EntityModel} {t : CreateTable}
    (hcreated : createTables .ascii models "app" = .ok [t])
    (hnames : ∀ n ∈ t.names, (readIdentifier n).isSome) :
    ∀ statements, createTables .ascii models "app" = .ok statements → ∀ t ∈ statements,
      ∀ n ∈ t.names, (readIdentifier n).isSome := by
  intro statements hstatements
  rw [← Except.ok.inj (hcreated.symm.trans hstatements)]
  simpa using hnames

section Changed
variable (refusal : StoreError) (script : List Char → Effect SchemaState StoreError)

theorem statements_read {models : List EntityModel} {t : CreateTable}
    (hcreated : createTables .ascii models "app" = .ok [t])
    (hnames : ∀ n ∈ t.names, (readIdentifier n).isSome) : StatementsRead .ascii "app" models :=
  fun made hmade t' ht' => CreateTable.reads_of_names (statements_names hcreated hnames made hmade t' ht')

theorem transfers_read : StatementsRead .ascii "app" [transfer] :=
  statements_read transfers_created (by decide)

theorem transfersText_read : StatementsRead .ascii "app" [transferText] :=
  statements_read transferText_created (by decide)

theorem first_call_delivers : EveryCallDelivers .ascii (.postgres "refused")
    (fun _ st => (.ok (), st)) "app" "project" "1" [setupOf [transfer]] := by
  refine (every_call_delivers_iff .ascii (.postgres "refused") (fun _ st => (.ok (), st)) "app"
    "project" "1" (List.forall_mem_singleton.mpr
      (statements_names transfers_created (by decide)))).mpr ?_
  intro before call later statements hcalls _ _ hddl
  obtain ⟨rfl, rfl, rfl⟩ : before = [] ∧ call = setupOf [transfer] ∧ later = [] := by
    cases before with
    | nil =>
      obtain ⟨rfl, rfl⟩ := List.cons.inj hcalls
      exact ⟨rfl, rfl, rfl⟩
    | cons c before => cases before <;> cases hcalls
  obtain rfl : [transfers] = statements := Except.ok.inj (transfers_created.symm.trans hddl)
  refine ⟨fun t ht name hname => ?_, fun again rest hlater => by cases hlater⟩
  obtain rfl := List.mem_singleton.mp ht
  obtain rfl : "transfers" = name := Option.some.inj ((by decide : _ = _).trans hname)
  constructor
  · intro r hr
    simp [afterCalls, SchemaState.ensured, SchemaState.empty, internalRelations] at hr
  · intro t' ht' _
    rw [List.mem_singleton.mp ht']

theorem first_set_up : SetUp .ascii "app" "project" "1" (setupOf [transfer]) [transfers] .empty
    (afterCalls .ascii refusal script "app" "project" "1" [setupOf [transfer]]) := by
  obtain ⟨after, hok⟩ : ∃ after, initializeSchema .ascii refusal script "app" "project" "1"
      (setupOf [transfer]) .empty = (.ok (), after) :=
    initializeSchema_succeeds .ascii refusal script "app" "project" "1" (by decide)
      (fun _ _ => .inl rfl) transfers_created
      (List.forall_mem_singleton.mpr ⟨transfers_read _ transfers_created _ List.mem_cons_self,
        by decide⟩) fun _ => rfl
  have hfirst := afterCalls_concat .ascii refusal script "app" "project" "1" [] (setupOf [transfer])
  rw [List.nil_append] at hfirst
  rw [hfirst]
  exact setUp_of_ok .ascii refusal script "app" "project" "1" transfers_read
    (congrArg Prod.fst hok) transfers_created

theorem first_shape : (afterCalls .ascii refusal script "app" "project" "1"
    [setupOf [transfer]]).relations "transfers" = some (.entity transfers.shape) := by
  have hcreated := (first_set_up refusal script).created
  obtain ⟨name, r, hname, hr⟩ := hcreated.present transfers List.mem_cons_self
  obtain rfl : "transfers" = name := Option.some.inj ((by decide : _ = _).trans hname)
  rcases hcreated.made "transfers" r hr with hold | ⟨t, ht, -, rfl⟩
  · exact absurd hold (by simp [SchemaState.ensured, SchemaState.empty, internalRelations])
  · rw [hr, List.mem_singleton.mp ht]

theorem second_set_up : (initializeSchema .ascii refusal script "app" "project" "1"
    (setupOf [transferText])
    (afterCalls .ascii refusal script "app" "project" "1" [setupOf [transfer]])).1 = .ok () := by
  have hkept := facts_kept .ascii "app" "project" "1" (first_set_up refusal script)
  obtain ⟨after, hok⟩ : ∃ after, initializeSchema .ascii refusal script "app" "project" "1"
      (setupOf [transferText])
      (afterCalls .ascii refusal script "app" "project" "1" [setupOf [transfer]]) = (.ok (), after) :=
    initializeSchema_succeeds .ascii refusal script "app" "project" "1" (by decide)
      (fun c hc => .inr (hkept c hc)) transferText_created
      (List.forall_mem_singleton.mpr ⟨transfersText_read _ transferText_created _ List.mem_cons_self,
        by decide⟩) fun _ => rfl
  exact congrArg Prod.fst hok

theorem changed_field_not_delivered : ¬ EveryCallDelivers .ascii (.postgres "refused")
    (fun _ st => (.ok (), st)) "app" "project" "1" [setupOf [transfer], setupOf [transferText]] := by
  intro h
  let script : List Char → Effect SchemaState StoreError := fun _ st => (.ok (), st)
  have hsecond := second_set_up (.postgres "refused") script
  have hset := setUp_of_ok .ascii (.postgres "refused") script "app" "project" "1" transfersText_read
    hsecond transferText_created
  have hdelivered := (h [setupOf [transfer]] (setupOf [transferText]) [] [transfersText] rfl
    (by simp [TablesDistinct, setupOf]) hsecond transferText_created).1
  have hend := afterCalls_concat .ascii (.postgres "refused") script "app" "project" "1"
    [setupOf [transfer]] (setupOf [transferText])
  rw [List.singleton_append] at hend
  rw [hend, delivered_iff .ascii "app" "project" "1" hset] at hdelivered
  have hensured : (afterCalls .ascii (.postgres "refused") script "app" "project" "1"
      [setupOf [transfer]]).ensured "transfers" = some (.entity transfers.shape) := by
    rw [SchemaState.ensured, first_shape, Option.some_or]
  have hshape := (hdelivered transfersText List.mem_cons_self "transfers" (by decide)).1 _ hensured
  exact absurd hshape (by decide)

end Changed

end SuperqueryNode.Store

import SuperqueryNode.Store.Lookup

namespace SuperqueryNode.Store
open Sql Fallible

section Filters
variable {V : Type} (u : Unicode) (display : Json → String) (server : Server V) (reader : Reader V)
  {model : EntityModel} {schema : String} {t : CreateTable} {rows : Multiset (Row V)}
  {filters : List (String × Json)} {bound : List (Condition × Option V)} {orderBy : String}
  {dir : OrderDir} {g : EntityField}

def boundFilters (now : Int) (m : PlainModel) (filters : List (String × Json)) :
    Except StoreError (List (Condition × Option V)) := do
  let parts ← filters.mapM (m.filterPart u display)
  let values ← Select.bind server now (parts.map (·.1)) (parts.map (·.2))
  .ok ((parts.map (·.1)).zip values)

def matchesAll (bound : List (Condition × Option V)) (row : Row V) : Bool :=
  bound.all fun p => reader.equals ((readIdentifier p.1.column).bind row) p.2 == some true

def shownRows (model : EntityModel) (t : CreateTable) (rows : Multiset (Row V))
    (bound : List (Condition × Option V)) : Multiset CanonicalRow :=
  (rows.filter (matchesAll reader bound · = true)).map
    (canonicalRow u reader (PlainModel.new u t.schema model))

def TiesAlike (model : EntityModel) (t : CreateTable) (rows : Multiset (Row V))
    (bound : List (Condition × Option V)) (g : EntityField) : Prop :=
  ∀ a ∈ rows, ∀ b ∈ rows, matchesAll reader bound a = true → matchesAll reader bound b = true →
    cellText u reader g a = cellText u reader g b →
    canonicalRow u reader (PlainModel.new u t.schema model) a =
      canonicalRow u reader (PlainModel.new u t.schema model) b

theorem boundFilters_ok {now : Int} {m : PlainModel} {parts : List (Condition × Option String)}
    (hparts : filters.mapM (m.filterPart u display) = .ok parts)
    (hbound : boundFilters u display server now m filters = .ok bound) :
    ∃ values, Select.bind server now (parts.map (·.1)) (parts.map (·.2)) = .ok values ∧
      bound = (parts.map (·.1)).zip values := by
  obtain ⟨parts', hparts', hrest⟩ := bind_eq_ok.mp hbound
  obtain rfl : parts = parts' := Except.ok.inj (hparts.symm.trans hparts')
  obtain ⟨values, hvalues, hzip⟩ := bind_eq_ok.mp hrest
  exact ⟨values, hvalues, (Except.ok.inj hzip).symm⟩

theorem matchesAll_selects {conditions : List Condition} {values : List (Option V)} {row : Row V} :
    matchesAll reader (conditions.zip values) row =
      Select.selects reader conditions values row := by
  rw [Bool.eq_iff_iff, selects_iff, matchesAll, List.all_eq_true]
  simp only [beq_iff_eq]

def pageless (u : Unicode) (m : PlainModel) (parts : List (Condition × Option String))
    (orderBy : String) (dir : OrderDir) : Select :=
  m.selectByFields u (parts.map (·.1)) ⟨orderBy, dir, 0, 0⟩

theorem length_of_outputs {parts : List (Condition × Option String)} {m : PlainModel}
    {values : List (Option V)} {out : List (Option String)}
    (hout : out ∈ (pageless u m parts orderBy dir).outputs reader values rows) :
    out.length = (m.sortedColumns u).length := by
  obtain ⟨row, -, rfl⟩ := Multiset.mem_map.mp hout
  rw [pageless, output_byFields, List.length_map]

theorem mem_outputs {parts : List (Condition × Option String)} {values : List (Option V)}
    {m : PlainModel} {out : List (Option String)} :
    out ∈ (pageless u m parts orderBy dir).outputs reader values rows ↔ ∃ row ∈ rows,
      matchesAll reader ((parts.map (·.1)).zip values) row = true ∧
      (pageless u m parts orderBy dir).output reader row = out := by
  rw [Select.outputs, Multiset.mem_map]
  simp only [Multiset.mem_filter, matchesAll_selects, and_assoc]
  rfl

theorem canonical_output {parts : List (Condition × Option String)} {m : PlainModel} (row : Row V) :
    m.rowToCanonical u ((pageless u m parts orderBy dir).output reader row) =
      canonicalRow u reader m row := by
  rw [pageless, output_byFields, canonicalRow]

theorem canonical_outputs {parts : List (Condition × Option String)} {values : List (Option V)} :
    ((pageless u (PlainModel.new u t.schema model) parts orderBy dir).outputs reader values rows).map
        ((PlainModel.new u t.schema model).rowToCanonical u) =
      shownRows u reader model t rows ((parts.map (·.1)).zip values) := by
  rw [Select.outputs, Multiset.map_map, shownRows]
  refine Multiset.map_congr ?_ ?_
  · exact Multiset.filter_congr fun row _ => by rw [matchesAll_selects]; rfl
  · intro row _
    rw [Function.comp_apply, canonical_output]

theorem sortText_output (h : createTable u model schema = .ok t) (haccept : t.Accepted)
    {parts : List (Condition × Option String)} (hg : g ∈ model.fields)
    (horder : readIdentifier (underscored u orderBy) = readIdentifier (underscored u g.name))
    (row : Row V) :
    (pageless u (PlainModel.new u t.schema model) parts orderBy dir).sortText
      ((pageless u (PlainModel.new u t.schema model) parts orderBy dir).output reader row) =
        cellText u reader g row := by
  rw [pageless]
  exact sortText_byFields ⟨orderBy, dir, 0, 0⟩ h haccept.distinct (parts.map (·.1)) hg horder row

variable (dir) in
theorem ties_alike_iff (h : createTable u model schema = .ok t) (haccept : t.Accepted)
    {parts : List (Condition × Option String)} {values : List (Option V)} (hg : g ∈ model.fields)
    (horder : readIdentifier (underscored u orderBy) = readIdentifier (underscored u g.name)) :
    TiesAlike u reader model t rows ((parts.map (·.1)).zip values) g ↔
      ∀ a ∈ (pageless u (PlainModel.new u t.schema model) parts orderBy dir).outputs reader values rows,
      ∀ b ∈ (pageless u (PlainModel.new u t.schema model) parts orderBy dir).outputs reader values rows,
        (pageless u (PlainModel.new u t.schema model) parts orderBy dir).before reader a b →
        (pageless u (PlainModel.new u t.schema model) parts orderBy dir).before reader b a →
          a = b := by
  have hsort (row : Row V) :
      (pageless u (PlainModel.new u t.schema model) parts orderBy dir).sortText
        ((pageless u (PlainModel.new u t.schema model) parts orderBy dir).output reader row) =
          cellText u reader g row := sortText_output u reader h haccept hg horder row
  constructor
  · intro hties a ha b hb hab hba
    have hlengthA := length_of_outputs u reader ha
    have hlengthB := length_of_outputs u reader hb
    obtain ⟨rowA, hrowA, hmatchA, rfl⟩ := (mem_outputs u reader).mp ha
    obtain ⟨rowB, hrowB, hmatchB, rfl⟩ := (mem_outputs u reader).mp hb
    have htext := reader.before_antisymm hab hba
    rw [hsort, hsort] at htext
    have hsame := hties rowA hrowA rowB hrowB hmatchA hmatchB htext
    rw [← canonical_output u reader, ← canonical_output u reader] at hsame
    exact rowToCanonical_inj h haccept.distinct hlengthA hlengthB hsame
  · intro hties rowA hrowA rowB hrowB hmatchA hmatchB htext
    rw [← hsort, ← hsort] at htext
    have hbefore (a : List (Option String)) : reader.before dir
        ((pageless u (PlainModel.new u t.schema model) parts orderBy dir).sortText a)
        ((pageless u (PlainModel.new u t.schema model) parts orderBy dir).sortText a) = true :=
      (reader.before_total dir _ _).elim id id
    have hsame := hties _ ((mem_outputs u reader).mpr ⟨rowA, hrowA, hmatchA, rfl⟩)
      _ ((mem_outputs u reader).mpr ⟨rowB, hrowB, hmatchB, rfl⟩)
      (by rw [Select.before, htext]; exact hbefore _) (by rw [Select.before, htext]; exact hbefore _)
    rw [← canonical_output u reader, ← canonical_output u reader, hsame]

end Filters

-- Databases that hold the same rows and may differ in how they cast, render and collate.
section Pagination
variable {D V : Type} (u : Unicode) (display : Json → String) (server : D → Server V)
  (reader : D → Reader V)

-- Every page is a query of its own, at a moment of its own, and ties may come anew.
def IsPages (d : D) (model : EntityModel) (t : CreateTable) (rows : Multiset (Row V))
    (filters : List (String × Json)) (orderBy : String) (dir : OrderDir) (p : Nat)
    (pages : Nat → List CanonicalRow) : Prop :=
  ∀ i : Nat, ∃ now, ∃ db : Database (server d) (reader d) t rows now,
    (PlainModel.new u t.schema model).getByFields u display db.query filters
      ⟨orderBy, dir, p, (p * i : Nat)⟩ = .ok (pages i)

structure EnumeratesOnce (model : EntityModel) (t : CreateTable) (rows : Multiset (Row V))
    (filters : List (String × Json)) (bound : D → Int → List (Condition × Option V))
    (orderBy : String) (dir : OrderDir) (p : Nat) : Prop where
  exhaustive : ∀ d pages, IsPages u display server reader d model t rows filters orderBy dir p pages →
    ∃ n, pages n = [] ∧ (∀ i < n, pages i ≠ []) ∧
      ∀ now, ↑((List.range n).flatMap pages) = shownRows u (reader d) model t rows (bound d now)
  repeatable : ∀ d d' pages pages',
    IsPages u display server reader d model t rows filters orderBy dir p pages →
    IsPages u display server reader d' model t rows filters orderBy dir p pages' → pages = pages'

structure PagesAlike (model : EntityModel) (t : CreateTable) (rows : Multiset (Row V))
    (bound : D → Int → List (Condition × Option V)) (dir : OrderDir) (g : EntityField) : Prop where
  shown : ∀ d d' now now', shownRows u (reader d) model t rows (bound d now) =
    shownRows u (reader d') model t rows (bound d' now')
  collated : ∀ d d' now, ∀ a ∈ rows, ∀ b ∈ rows, matchesAll (reader d) (bound d now) a = true →
    matchesAll (reader d) (bound d now) b = true →
    (reader d).before dir (cellText u (reader d) g a) (cellText u (reader d) g b) = true →
    (reader d').before dir (cellText u (reader d) g a) (cellText u (reader d) g b) = true
  ties : ∀ d now, TiesAlike u (reader d) model t rows (bound d now) g

variable {model : EntityModel} {schema : String} {t : CreateTable} {rows : Multiset (Row V)}
  {filters : List (String × Json)} {bound : D → Int → List (Condition × Option V)}
  {orderBy : String} {dir : OrderDir} {g : EntityField} {p : Nat}
  {parts : List (Condition × Option String)} {values : D → Int → List (Option V)}

theorem isPages_iff (h : createTable u model schema = .ok t) (haccept : t.Accepted)
    (hparts : filters.mapM ((PlainModel.new u t.schema model).filterPart u display) = .ok parts)
    (hvalues : ∀ d now,
      Select.bind (server d) now (parts.map (·.1)) (parts.map (·.2)) = .ok (values d now))
    (hg : g ∈ model.fields)
    (horder : readIdentifier (underscored u orderBy) = readIdentifier (underscored u g.name))
    {d : D} {pages : Nat → List CanonicalRow} :
    IsPages u display server reader d model t rows filters orderBy dir p pages ↔
      ∃ answers : Nat → List (List (Option String)),
        (∀ i, ∃ now, Answers
          ((pageless u (PlainModel.new u t.schema model) parts orderBy dir).before (reader d))
          ((pageless u (PlainModel.new u t.schema model) parts orderBy dir).outputs (reader d)
            (values d now) rows) p (p * i) (answers i)) ∧
        pages = fun i => (answers i).map ((PlainModel.new u t.schema model).rowToCanonical u) := by
  constructor
  · intro hpages
    have hanswer : ∀ i, ∃ answer, (∃ now, Answers
        ((pageless u (PlainModel.new u t.schema model) parts orderBy dir).before (reader d))
        ((pageless u (PlainModel.new u t.schema model) parts orderBy dir).outputs (reader d)
          (values d now) rows) p (p * i) answer) ∧
        pages i = answer.map ((PlainModel.new u t.schema model).rowToCanonical u) := by
      intro i
      obtain ⟨now, db, hget⟩ := hpages i
      obtain ⟨parts', answer, hparts', hquery, hpage⟩ := getByFields_ok.mp hget
      obtain rfl : parts = parts' := Except.ok.inj (hparts.symm.trans hparts')
      have hformed : ((PlainModel.new u t.schema model).selectByFields u (parts.map (·.1))
          ⟨orderBy, dir, p, (p * i : Nat)⟩).WellFormed t :=
        wellFormed_byFields _ h haccept.distinct hparts hg horder (Int.natCast_nonneg _)
          (Int.natCast_nonneg _)
      obtain ⟨answer', hquery', hanswers⟩ := db.answers _ _ _ hformed (hvalues d now)
      obtain rfl : answer = answer' := Except.ok.inj (hquery.symm.trans hquery')
      exact ⟨answer, ⟨now, hanswers⟩, hpage⟩
    choose answers hanswers hmap using hanswer
    exact ⟨answers, hanswers, funext hmap⟩
  · rintro ⟨answers, hanswers, rfl⟩ i
    obtain ⟨now, hanswer⟩ := hanswers i
    obtain ⟨db, hquery⟩ := exists_database (t := t)
      (s := (PlainModel.new u t.schema model).selectByFields u (parts.map (·.1))
        ⟨orderBy, dir, p, (p * i : Nat)⟩) (hvalues d now) hanswer
    exact ⟨now, db, getByFields_ok.mpr ⟨parts, answers i, hparts, hquery, rfl⟩⟩

theorem map_canonical_inj (h : createTable u model schema = .ok t) (haccept : t.Accepted)
    {l l' : List (List (Option String))}
    (hl : ∀ a ∈ l, a.length = ((PlainModel.new u t.schema model).sortedColumns u).length)
    (hl' : ∀ a ∈ l', a.length = ((PlainModel.new u t.schema model).sortedColumns u).length)
    (hmap : l.map ((PlainModel.new u t.schema model).rowToCanonical u) =
      l'.map ((PlainModel.new u t.schema model).rowToCanonical u)) : l = l' := by
  induction l generalizing l' with
  | nil =>
    cases l' with
    | nil => rfl
    | cons b l' => cases hmap
  | cons a l ih =>
    cases l' with
    | nil => cases hmap
    | cons b l' =>
      obtain ⟨hhead, htail⟩ := List.cons.inj hmap
      rw [List.forall_mem_cons] at hl hl'
      rw [rowToCanonical_inj h haccept.distinct hl.1 hl'.1 hhead, ih hl.2 hl'.2 htail]

theorem pagesAlike_iff (h : createTable u model schema = .ok t) (haccept : t.Accepted)
    (hg : g ∈ model.fields)
    (horder : readIdentifier (underscored u orderBy) = readIdentifier (underscored u g.name)) :
    PagesAlike u reader model t rows (fun d now => (parts.map (·.1)).zip (values d now)) dir g ↔
      Alike
        (fun d => (pageless u (PlainModel.new u t.schema model) parts orderBy dir).before (reader d))
        fun d now => (pageless u (PlainModel.new u t.schema model) parts orderBy dir).outputs
          (reader d) (values d now) rows := by
  have hsort (d : D) (row : Row V) :
      (pageless u (PlainModel.new u t.schema model) parts orderBy dir).sortText
        ((pageless u (PlainModel.new u t.schema model) parts orderBy dir).output (reader d) row) =
          cellText u (reader d) g row := sortText_output u (reader d) h haccept hg horder row
  constructor
  · intro halike
    constructor
    case rows =>
      intro d d' now now'
      refine map_eq_map_of_injOn ?_ ((canonical_outputs u (reader d)).trans
        ((halike.shown d d' now now').trans (canonical_outputs u (reader d')).symm))
      intro a ha b hb hsame
      have hlengthA := ha.elim (length_of_outputs u (reader d)) (length_of_outputs u (reader d'))
      have hlengthB := hb.elim (length_of_outputs u (reader d)) (length_of_outputs u (reader d'))
      exact rowToCanonical_inj h haccept.distinct hlengthA hlengthB hsame
    case order =>
      intro d d' now a ha b hb hab
      obtain ⟨rowA, hrowA, hmatchA, rfl⟩ := (mem_outputs u (reader d)).mp ha
      obtain ⟨rowB, hrowB, hmatchB, rfl⟩ := (mem_outputs u (reader d)).mp hb
      rw [Select.before, hsort, hsort] at hab ⊢
      exact halike.collated d d' now rowA hrowA rowB hrowB hmatchA hmatchB hab
    case ties =>
      exact fun d now => (ties_alike_iff u (reader d) dir h haccept hg horder).mp (halike.ties d now)
  · intro halike
    constructor
    case shown =>
      intro d d' now now'
      rw [← canonical_outputs u (reader d), ← canonical_outputs u (reader d'),
        halike.rows d d' now now']
    case collated =>
      intro d d' now rowA hrowA rowB hrowB hmatchA hmatchB hab
      rw [← hsort, ← hsort] at hab ⊢
      exact halike.order d d' now _ ((mem_outputs u (reader d)).mpr ⟨rowA, hrowA, hmatchA, rfl⟩)
        _ ((mem_outputs u (reader d)).mpr ⟨rowB, hrowB, hmatchB, rfl⟩) hab
    case ties =>
      exact fun d now => (ties_alike_iff u (reader d) dir h haccept hg horder).mpr (halike.ties d now)

theorem pagesAlike_of_enumerates (h : createTable u model schema = .ok t) (haccept : t.Accepted)
    (hparts : filters.mapM ((PlainModel.new u t.schema model).filterPart u display) = .ok parts)
    (hvalues : ∀ d now,
      Select.bind (server d) now (parts.map (·.1)) (parts.map (·.2)) = .ok (values d now))
    (hg : g ∈ model.fields)
    (horder : readIdentifier (underscored u orderBy) = readIdentifier (underscored u g.name))
    (hp : 0 < p) (honce : EnumeratesOnce u display server reader model t rows filters
      (fun d now => (parts.map (·.1)).zip (values d now)) orderBy dir p) :
    PagesAlike u reader model t rows (fun d now => (parts.map (·.1)).zip (values d now)) dir g := by
  have hpages (d : D) (pages : Nat → List CanonicalRow) :
      IsPages u display server reader d model t rows filters orderBy dir p pages ↔ _ :=
    isPages_iff u display server reader h haccept hparts hvalues hg horder
  refine (pagesAlike_iff u reader h haccept hg horder).mpr
    (alike_of_repeatable hp fun d d' answers answers' hanswers hanswers' => ?_)
  have hsame := honce.repeatable d d' _ _ ((hpages d _).mpr ⟨answers, hanswers, rfl⟩)
    ((hpages d' _).mpr ⟨answers', hanswers', rfl⟩)
  funext i
  obtain ⟨now, hanswer⟩ := hanswers i
  obtain ⟨now', hanswer'⟩ := hanswers' i
  exact map_canonical_inj u h haccept
    (fun a ha => length_of_outputs u (reader d) (mem_of_answers hanswer a ha))
    (fun a ha => length_of_outputs u (reader d') (mem_of_answers hanswer' a ha))
    (congrFun hsame i)

theorem enumerates_of_pagesAlike (h : createTable u model schema = .ok t) (haccept : t.Accepted)
    (hparts : filters.mapM ((PlainModel.new u t.schema model).filterPart u display) = .ok parts)
    (hvalues : ∀ d now,
      Select.bind (server d) now (parts.map (·.1)) (parts.map (·.2)) = .ok (values d now))
    (hg : g ∈ model.fields)
    (horder : readIdentifier (underscored u orderBy) = readIdentifier (underscored u g.name))
    (hp : 0 < p) (halike : PagesAlike u reader model t rows
      (fun d now => (parts.map (·.1)).zip (values d now)) dir g) :
    EnumeratesOnce u display server reader model t rows filters
      (fun d now => (parts.map (·.1)).zip (values d now)) orderBy dir p := by
  have hpages (d : D) (pages : Nat → List CanonicalRow) :
      IsPages u display server reader d model t rows filters orderBy dir p pages ↔ _ :=
    isPages_iff u display server reader h haccept hparts hvalues hg horder
  have hpaginates := (paginates_iff hp).mpr ((pagesAlike_iff u reader h haccept hg horder).mp halike)
  constructor
  case exhaustive =>
    intro d pages hisPages
    obtain ⟨answers, hanswers, rfl⟩ := (hpages d pages).mp hisPages
    obtain ⟨n, hnil, hfull, hall⟩ := hpaginates.exhaustive d answers hanswers
    refine ⟨n, List.map_eq_nil_iff.mpr hnil, fun i hi hempty => ?_, fun now => ?_⟩
    · exact hfull i hi (List.map_eq_nil_iff.mp hempty)
    · rw [← List.map_flatMap, ← Multiset.map_coe, hall now, canonical_outputs]
  case repeatable =>
    intro d d' pages pages' hisPages hisPages'
    obtain ⟨answers, hanswers, rfl⟩ := (hpages d pages).mp hisPages
    obtain ⟨answers', hanswers', rfl⟩ := (hpages d' pages').mp hisPages'
    rw [hpaginates.repeatable d d' answers answers' hanswers hanswers']

theorem parts_of_bound [Nonempty D] (hbound : ∀ d now, boundFilters u display (server d) now
      (PlainModel.new u t.schema model) filters = .ok (bound d now)) :
    ∃ parts, filters.mapM ((PlainModel.new u t.schema model).filterPart u display) = .ok parts ∧
      ∃ values : D → Int → List (Option V),
        (∀ d now,
          Select.bind (server d) now (parts.map (·.1)) (parts.map (·.2)) = .ok (values d now)) ∧
        bound = fun d now => (parts.map (·.1)).zip (values d now) := by
  obtain ⟨parts, hparts, -⟩ := bind_eq_ok.mp (hbound (Classical.arbitrary D) 0)
  choose values hvalues hzip using fun d now =>
    boundFilters_ok u display (server d) hparts (hbound d now)
  exact ⟨parts, hparts, values, hvalues, funext fun d => funext fun now => hzip d now⟩

end Pagination

def transferRow (id amount : String) : Row String := fun c =>
  if c = "id" then some id else if c = "amount" then some amount else none

def twoTransfers : Multiset (Row String) := {transferRow "t-1" "7", transferRow "t-2" "7"}

theorem mem_twoTransfers {r : Row String} :
    r ∈ twoTransfers ↔ r = transferRow "t-1" "7" ∨ r = transferRow "t-2" "7" := by
  rw [twoTransfers, Multiset.insert_eq_cons, Multiset.mem_cons, Multiset.mem_singleton]

theorem twoTransfers_held : transfers.Holds twoTransfers where
  admitted := by
    intro r hr
    rcases mem_twoTransfers.mp hr with rfl | rfl <;> decide
  columns := by
    intro r hr c hc
    have hid : c ≠ "id" := by
      rintro rfl
      exact hc (by decide)
    have hamount : c ≠ "amount" := by
      rintro rfl
      exact hc (by decide)
    rcases mem_twoTransfers.mp hr with rfl | rfl <;> rw [transferRow, if_neg hid, if_neg hamount]
  unique := by
    intro k hk
    obtain rfl : "id" = k := Option.some.inj hk
    decide

end SuperqueryNode.Store

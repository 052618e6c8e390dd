import SuperqueryNode.Lib.FirstMatch
import SuperqueryNode.Lib.SqlRun
import SuperqueryNode.Store.Upsert

namespace SuperqueryNode.Store
open Effects Fallible FirstMatch Sql

section Statement
variable {V : Type} (u : Unicode) (display : Json → String) (server : Server V) (link : Link)

def CreateTable.keyOf (t : CreateTable) (row : Row V) : Option V := t.key.bind row

def statementRow (now : Int) (model : EntityModel) (t : CreateTable) (e : Json) :
    Except StoreError (Row V) := do
  let m := PlainModel.new u t.schema model
  ensure t.key.isSome server.refusal
  ensure (decide ((m.upsertStatement u).WellFormed t)) server.refusal
  let row ← Upsert.newRow server now (m.upsertStatement u) (m.upsertParams u display e)
  ensure (t.admits row) server.refusal
  return row

-- The row that the `k`-th statement leaves with the server, whatever its caller hears of it.
def landed (model : EntityModel) (t : CreateTable) (k : Nat) (e : Json) : Option (Row V) :=
  match link.delivery k with
  | .unsent _ => none
  | _ => (statementRow u display server (link.now k) model t e).toOption

def failure (model : EntityModel) (t : CreateTable) (k : Nat) (e : Json) : Option StoreError :=
  match link.delivery k with
  | .answered =>
    match statementRow u display server (link.now k) model t e with
    | .ok _ => none
    | .error err => some err
  | .lost err => some err
  | .unsent err => some err

def landedAll (model : EntityModel) (t : CreateTable) (k : Nat) (entities : List Json) :
    List (Row V) :=
  (entities.zipIdx k).filterMap fun p => landed u display server link model t p.2 p.1

def AtomicUpsert [DecidableEq V] (model : EntityModel) (t : CreateTable) (entities : List Json)
    (rows : Multiset (Row V)) : Prop :=
  ∀ e after, (PlainModel.new u t.schema model).upsert u display (execute server link t) entities
    ⟨rows, 0⟩ = (.error e, after) → after.rows = rows

def AlreadyStored (model : EntityModel) (t : CreateTable) (entities : List Json)
    (rows : Multiset (Row V)) : Prop :=
  ∀ row, LastFor t.keyOf (landedAll u display server link model t 0 entities) row →
    ∃ r ∈ rows, t.keyOf r = t.keyOf row ∧
      ((PlainModel.new u t.schema model).upsertStatement u).assign row r = r

variable {model : EntityModel} {t : CreateTable} {rows : Multiset (Row V)}

def upsertRows [DecidableEq V] (model : EntityModel) (t : CreateTable) :
    List (Row V) → Multiset (Row V) → Multiset (Row V) :=
  upsertAll t.keyOf ((PlainModel.new u t.schema model).upsertStatement u).assign

variable (model t rows) in
theorem exec_eq [DecidableEq V] (now : Int) (e : Json) :
    ((PlainModel.new u t.schema model).upsertStatement u).exec server now t
      ((PlainModel.new u t.schema model).upsertParams u display e) rows =
        (statementRow u display server now model t e).map fun row =>
          upsertRows u model t [row] rows := by
  rw [Upsert.exec, statementRow]
  cases hkey : t.key with
  | none => rfl
  | some k =>
    cases hformed : decide (((PlainModel.new u t.schema model).upsertStatement u).WellFormed t) with
    | false => rfl
    | true =>
      cases hrow : Upsert.newRow server now ((PlainModel.new u t.schema model).upsertStatement u)
        ((PlainModel.new u t.schema model).upsertParams u display e) with
      | error e => rfl
      | ok row =>
        have hrun : upsertRows u model t [row] rows = upsertRow (fun r => r k = row k)
            (((PlainModel.new u t.schema model).upsertStatement u).assign row) row rows := by
          simp only [upsertRows, upsertAll, upsertOne, CreateTable.keyOf, hkey, Option.bind_some]
        change (ensure (t.admits row) server.refusal >>= fun _ => Except.ok _) =
          (ensure (t.admits row) server.refusal >>= fun _ => Except.ok row).map _
        rw [← hrun]
        cases t.admits row <;> rfl

theorem execute_eq [DecidableEq V] (k : Nat) (e : Json) : execute server link t
    ((PlainModel.new u t.schema model).upsertStatement u)
    ((PlainModel.new u t.schema model).upsertParams u display e) ⟨rows, k⟩ =
      ((failure u display server link model t k e).elim (.ok ()) .error,
        ⟨upsertRows u model t (landed u display server link model t k e).toList rows, k + 1⟩) := by
  have hexec := exec_eq u display server model t rows (link.now k) e
  cases hdelivery : link.delivery k <;>
    cases hrow : statementRow u display server (link.now k) model t e <;>
      simp only [hrow] at hexec <;>
        simp only [execute, request, attempt, whole, failure, landed, hdelivery, hrow, hexec] <;> rfl

theorem landedAll_cons (k : Nat) (e : Json) (entities : List Json) :
    landedAll u display server link model t k (e :: entities) =
      (landed u display server link model t k e).toList ++
        landedAll u display server link model t (k + 1) entities := by
  rw [landedAll, List.zipIdx_cons, List.filterMap_cons]
  cases landed u display server link model t k e <;> rfl

theorem upsertRows_append [DecidableEq V] (before later : List (Row V)) :
    upsertRows u model t (before ++ later) rows =
      upsertRows u model t later (upsertRows u model t before rows) :=
  upsertAll_append before later rows

theorem upsert_error_iff [DecidableEq V] {entities : List Json} {k : Nat} {err : StoreError}
    {after : World V} :
    (PlainModel.new u t.schema model).upsert u display (execute server link t) entities ⟨rows, k⟩ =
        (.error err, after) ↔
      ∃ front failing rest, entities = front ++ failing :: rest ∧
        (∀ p ∈ front.zipIdx k, failure u display server link model t p.2 p.1 = none) ∧
        failure u display server link model t (k + front.length) failing = some err ∧
        after = ⟨upsertRows u model t
          (landedAll u display server link model t k (front ++ [failing])) rows,
          k + front.length + 1⟩ := by
  induction entities generalizing rows k with
  | nil =>
    rw [PlainModel.upsert]
    constructor
    · intro h
      cases h
    · rintro ⟨front, failing, rest, hsplit, -⟩
      cases front <;> cases hsplit
  | cons e entities ih =>
    rw [exists_split_cons, PlainModel.upsert, andThen, execute_eq]
    cases hfail : failure u display server link model t k e with
    | some err' =>
      have hlater : ¬∃ front failing rest, entities = front ++ failing :: rest ∧
          (∀ p ∈ (e :: front).zipIdx k, failure u display server link model t p.2 p.1 = none) ∧
          failure u display server link model t (k + (e :: front).length) failing = some err ∧
          after = ⟨upsertRows u model t
            (landedAll u display server link model t k (e :: front ++ [failing])) rows,
            k + (e :: front).length + 1⟩ := by
        rintro ⟨front, failing, rest, -, hquiet, -⟩
        rw [List.zipIdx_cons, List.forall_mem_cons, hfail] at hquiet
        cases hquiet.1
      rw [or_iff_left hlater, List.nil_append, landedAll_cons]
      simp [landedAll, hfail, eq_comm]
    | none =>
      rw [List.length_nil, Nat.add_zero, or_iff_right fun h => (by cases h.2.1)]
      refine ih.trans (exists_congr fun front => exists₂_congr fun failing rest => ?_)
      have hlength : k + (e :: front).length = k + 1 + front.length := by
        rw [List.length_cons]
        omega
      rw [hlength, List.zipIdx_cons, List.forall_mem_cons, hfail, List.cons_append, landedAll_cons,
        upsertRows_append, eq_self_iff_true, true_and]

section Atomic
variable {schema : String}

theorem assigns_of_wellFormed (h : createTable u model schema = .ok t)
    (hformed : ((PlainModel.new u t.schema model).upsertStatement u).WellFormed t) :
    Assigns (t.keyOf (V := V)) ((PlainModel.new u t.schema model).upsertStatement u).assign := by
  have hkey := key_of_target hformed.arbiter
  have hdistinct := (names_columns u h).nodup_iff.mp hformed.distinct
  rw [columnNames_eq u h] at hdistinct
  have hkept : some "id" ∉ Upsert.names ((PlainModel.new u t.schema model).upsertStatement u).set := by
    intro hmem
    obtain ⟨f, hf, hfid, hread⟩ := (mem_names_set u).mp hmem
    obtain ⟨k, hk, hkread⟩ := Option.bind_eq_some_iff.mp hkey
    rw [(createTable_ok h).2.2.2] at hk
    obtain ⟨g, hg, rfl⟩ := Option.map_eq_some_iff.mp hk
    obtain ⟨hgmem, hgid⟩ := List.mem_filter.mp (List.mem_of_getLast? hg)
    have hfg : f = g := List.inj_on_of_nodup_map hdistinct hf hgmem (by rw [hread, hkread])
    exact hfid (hfg ▸ of_decide_eq_true hgid)
  constructor
  case key_set =>
    intro row r
    simp only [CreateTable.keyOf, hkey, Option.bind_some, Upsert.assign, if_neg hkept]
  case set_set =>
    intro a b r
    funext c
    simp only [Upsert.assign]
    split_ifs <;> rfl
  case set_self =>
    intro row
    funext c
    simp only [Upsert.assign, ite_self]

theorem landed_statement {k : Nat} {entities : List Json} {row : Row V}
    (h : row ∈ landedAll u display server link model t k entities) :
    ∃ now e, statementRow u display server now model t e = .ok row := by
  obtain ⟨p, -, hp⟩ := List.mem_filterMap.mp h
  refine ⟨link.now p.2, p.1, ?_⟩
  rw [landed] at hp
  cases hrow : statementRow u display server (link.now p.2) model t p.1 with
  | ok sent =>
    rw [hrow] at hp
    cases hdelivery : link.delivery p.2 <;> rw [hdelivery] at hp <;> cases hp
    all_goals rfl
  | error err =>
    rw [hrow] at hp
    cases hdelivery : link.delivery p.2 <;> rw [hdelivery] at hp <;> cases hp

theorem statementRow_formed {now : Int} {e : Json} {row : Row V}
    (hrow : statementRow u display server now model t e = .ok row) :
    ((PlainModel.new u t.schema model).upsertStatement u).WellFormed t ∧
      Upsert.newRow server now ((PlainModel.new u t.schema model).upsertStatement u)
        ((PlainModel.new u t.schema model).upsertParams u display e) = .ok row := by
  obtain ⟨_, -, hrow⟩ := bind_eq_ok.mp hrow
  obtain ⟨_, hformed, hrow⟩ := bind_eq_ok.mp hrow
  obtain ⟨row', hnew, hrow⟩ := bind_eq_ok.mp hrow
  obtain ⟨_, -, hsame⟩ := bind_eq_ok.mp hrow
  cases hsame
  exact ⟨of_decide_eq_true (ensure_eq_ok.mp hformed), hnew⟩

theorem upsertRows_eq_iff [DecidableEq V] (h : createTable u model schema = .ok t)
    (hrows : t.Holds rows) (entities : List Json) : upsertRows u model t
        (landedAll u display server link model t 0 entities) rows = rows ↔
      AlreadyStored u display server link model t entities rows := by
  rw [AlreadyStored]
  cases hwritten : landedAll u display server link model t 0 entities with
  | nil =>
    constructor
    · rintro - row ⟨before, later, hsplit, -⟩
      cases before <;> cases hsplit
    · exact fun _ => rfl
  | cons row written =>
    obtain ⟨now, e, hrow⟩ := landed_statement u display server link
      (hwritten ▸ List.mem_cons_self : row ∈ landedAll u display server link model t 0 entities)
    have hformed := (statementRow_formed u display server hrow).1
    have hkey := key_of_target hformed.arbiter
    refine upsertAll_eq_iff (assigns_of_wellFormed u h hformed) ?_
    have hkeyOf : (t.keyOf : Row V → Option V) = fun r => r "id" := by
      funext r
      rw [CreateTable.keyOf, hkey, Option.bind_some]
    rw [hkeyOf]
    exact hrows.unique "id" hkey

theorem upsert_atomic_iff [DecidableEq V] (h : createTable u model schema = .ok t)
    (hrows : t.Holds rows) (entities : List Json) :
    AtomicUpsert u display server link model t entities rows ↔
      ∀ front failing rest err, entities = front ++ failing :: rest →
        (∀ p ∈ front.zipIdx, failure u display server link model t p.2 p.1 = none) →
        failure u display server link model t front.length failing = some err →
        AlreadyStored u display server link model t (front ++ [failing]) rows := by
  constructor
  · intro hatomic front failing rest err hsplit hquiet herror
    have hrun : (PlainModel.new u t.schema model).upsert u display (execute server link t) entities
        ⟨rows, 0⟩ = (.error err, _) := (upsert_error_iff u display server link).mpr
      ⟨front, failing, rest, hsplit, hquiet, by rwa [Nat.zero_add], rfl⟩
    exact (upsertRows_eq_iff u display server link h hrows _).mp (hatomic err _ hrun)
  · intro hstored err after hrun
    obtain ⟨front, failing, rest, hsplit, hquiet, herror, rfl⟩ :=
      (upsert_error_iff u display server link).mp hrun
    exact (upsertRows_eq_iff u display server link h hrows _).mpr
      (hstored front failing rest err hsplit hquiet (Nat.zero_add front.length ▸ herror))

end Atomic

end Statement

def paid (amount : String) : Json := .object [("id", .string "t-1"), ("amount", .string amount)]

theorem transfer_model : PlainModel.new .ascii transfers.schema transfer =
    ⟨"app", "transfers", transfer.fields⟩ := by
  rw [PlainModel.new, transfer, transfer_table, transfers]

theorem transfer_statement : (PlainModel.new .ascii transfers.schema transfer).upsertStatement .ascii =
    ⟨"app", "transfers", ["amount", "id"], [.cast .numeric, .bare], "id", ["amount"]⟩ := by
  rw [transfer_model]
  decide

theorem paid_params (amount : String) :
    (PlainModel.new .ascii transfers.schema transfer).upsertParams .ascii (fun _ => "") (paid amount) =
      [some amount, some "t-1"] := by
  rw [transfer_model]
  rfl

-- The columns stand in sorted order, so the amount is cast first.
theorem paid_statementRow {V : Type} {server : Server V} {now : Int} (amount : String) :
    statementRow .ascii (fun _ => "") server now transfer transfers (paid amount) = (do
      let number ← server.literal now .numeric amount
      let id ← server.literal now .text "t-1"
      .ok fun c => ([(some "amount", some number), (some "id", some id)].lookup (some c)).join) := by
  have hformed : Upsert.WellFormed ⟨"app", "transfers", ["amount", "id"], [.cast .numeric, .bare],
      "id", ["amount"]⟩ transfers := by decide
  have hkey : transfers.key.isSome = true := by decide
  simp only [statementRow, transfer_statement, paid_params, decide_eq_true hformed, hkey,
    Upsert.newRow, Upsert.bindParam, List.zip, List.zipWith, List.mapM_cons, Placeholder.input]
  cases server.literal now .numeric amount with
  | error e => rfl
  | ok number =>
    cases server.literal now .text "t-1" with
    | error e => rfl
    | ok id => rfl

abbrev plainServer : Server String := textServer plainFloats

theorem paid_number (now : Int) : plainServer.literal now .numeric "7" = .ok "7" :=
  literal_taken (by decide)

theorem paid_row (now : Int) : ∃ row,
    statementRow .ascii (fun _ => "") plainServer now transfer transfers (paid "7") = .ok row := by
  have hid : plainServer.literal now .text "t-1" = .ok "t-1" := literal_taken (by decide)
  rw [paid_statementRow, paid_number, hid]
  exact ⟨_, rfl⟩

theorem refused_row {now : Int} :
    statementRow .ascii (fun _ => "") plainServer now transfer transfers (paid "much") =
      .error (.postgres ("invalid input syntax for type " ++ SqlType.numeric.keyword)) := by
  have hnumber : plainServer.literal now .numeric "much" = .error _ := literal_refused (by decide)
  rw [paid_statementRow, hnumber]
  rfl

theorem refused_landed (k : Nat) : landed .ascii (fun _ => "") plainServer .quiet transfer transfers
    k (paid "much") = none := by
  rw [landed, refused_row]
  rfl

theorem refused_failure (k : Nat) : failure .ascii (fun _ => "") plainServer .quiet transfer transfers
    k (paid "much") =
      some (.postgres ("invalid input syntax for type " ++ SqlType.numeric.keyword)) := by
  simp only [failure, Link.quiet, refused_row]

theorem refused_first_atomic : AtomicUpsert .ascii (fun _ => "") plainServer .quiet transfer transfers
    [paid "much", paid "7"] 0 := by
  refine (upsert_atomic_iff .ascii (fun _ => "") plainServer .quiet transfer_created
    (CreateTable.holds_zero _) _).mpr ?_
  intro front failing rest err hsplit hquiet herror row hlast
  obtain _ | ⟨e, front⟩ := front
  · cases hsplit
    obtain ⟨before, later, hlanded, -⟩ := hlast
    rw [List.nil_append, landedAll_cons, refused_landed] at hlanded
    cases before <;> cases hlanded
  · obtain rfl : paid "much" = e := (List.cons.inj hsplit).1
    have hnone := hquiet (paid "much", 0) (by rw [List.zipIdx_cons]; exact List.mem_cons_self)
    rw [refused_failure] at hnone
    cases hnone

theorem batch_half_written : ¬∀ (link : Link) (model : EntityModel) (t : CreateTable)
    (rows : Multiset (Row String)) (entities : List Json),
    createTable .ascii model "app" = .ok t → t.Holds rows →
      AtomicUpsert .ascii (fun _ => "") plainServer link model t entities rows := by
  intro h
  obtain ⟨row, hrow⟩ := paid_row 0
  have hlanded : landedAll .ascii (fun _ => "") plainServer .quiet transfer transfers 0
      [paid "7", paid "much"] = [row] := by
    rw [landedAll_cons, landedAll_cons, refused_landed, landed, Link.quiet, hrow]
    rfl
  have hrun : (PlainModel.new .ascii transfers.schema transfer).upsert .ascii (fun _ => "")
      (execute plainServer .quiet transfers) [paid "7", paid "much"] ⟨0, 0⟩ = (.error _, _) :=
    (upsert_error_iff .ascii (fun _ => "") plainServer .quiet).mpr
      ⟨[paid "7"], paid "much", [], rfl, by
      refine List.forall_mem_singleton.mpr ?_
      simp only [failure, Link.quiet, hrow], refused_failure 1, rfl⟩
  have hkept := h .quiet transfer transfers 0 [paid "7", paid "much"] transfer_created
    (CreateTable.holds_zero _) _ _ hrun
  have hstored : row ∈ upsertRows .ascii transfer transfers [row] 0 := by
    simp [upsertRows, upsertAll, upsertOne, upsertRow]
  rw [List.singleton_append, hlanded] at hkept
  have hempty : upsertRows .ascii transfer transfers [row] 0 = 0 := hkept
  rw [hempty] at hstored
  cases hstored

end SuperqueryNode.Store

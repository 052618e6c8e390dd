import Mathlib.Data.List.Pairwise
import Mathlib.Data.List.Sort
import Mathlib.Data.Multiset.Filter
import Mathlib.Data.Nat.Find

namespace Sql

theorem map_eq_map_of_injOn {A B : Type} [Nonempty A] {f : A → B} {s t : Multiset A}
    (hf : Set.InjOn f {a | a ∈ s ∨ a ∈ t}) (h : s.map f = t.map f) : s = t := by
  have hback := hf.leftInvOn_invFunOn
  have hundone (r : Multiset A) (hr : ∀ a ∈ r, a ∈ s ∨ a ∈ t) :
      (r.map f).map (Function.invFunOn f {a | a ∈ s ∨ a ∈ t}) = r := by
    rw [Multiset.map_map]
    exact (Multiset.map_congr rfl fun a ha => hback (hr a ha)).trans (Multiset.map_id' r)
  rw [← hundone s fun _ => .inl, h, hundone t fun _ => .inr]

section Sorting
variable {O : Type} {le : O → O → Prop} {out : Multiset O} {order order' : List O}

structure Arranged (le : O → O → Prop) (out : Multiset O) (order : List O) : Prop where
  rows : ↑order = out
  sorted : order.Pairwise le

variable (le) in
theorem exists_arranged [Std.Total le] [IsTrans O le] (out : Multiset O) :
    ∃ order, Arranged le out order := by
  classical
  induction out using Quotient.inductionOn with
  | h rows =>
    exact ⟨rows.insertionSort le, Multiset.coe_eq_coe.mpr (List.perm_insertionSort le rows),
      List.pairwise_insertionSort le rows⟩

theorem arranged_unique (hties : ∀ a ∈ out, ∀ b ∈ out, le a b → le b a → a = b)
    (h : Arranged le out order) (h' : Arranged le out order') : order = order' := by
  refine List.Perm.eq_of_pairwise ?_ h.sorted h'.sorted
    (Multiset.coe_eq_coe.mp (h.rows.trans h'.rows.symm))
  intro a b ha hb
  exact hties a (h.rows ▸ Multiset.mem_coe.mpr ha) b (h'.rows ▸ Multiset.mem_coe.mpr hb)

theorem orderedInsert_swap_ne [DecidableRel le] [Std.Refl le] [IsTrans O le] {a b : O} (hne : a ≠ b)
    (hab : le a b) (hba : le b a) (l : List O) :
    (l.orderedInsert le b).orderedInsert le a ≠ (l.orderedInsert le a).orderedInsert le b := by
  induction l with
  | nil =>
    rw [List.orderedInsert_nil, List.orderedInsert_nil, List.orderedInsert_cons_of_le _ _ hab,
      List.orderedInsert_cons_of_le _ _ hba]
    exact fun heq => hne (List.cons.inj heq).1
  | cons x l ih =>
    by_cases hx : le b x
    · have hax : le a x := IsTrans.trans a b x hab hx
      rw [List.orderedInsert_cons_of_le _ _ hx, List.orderedInsert_cons_of_le _ _ hax,
        List.orderedInsert_cons_of_le _ _ hab, List.orderedInsert_cons_of_le _ _ hba]
      exact fun heq => hne (List.cons.inj heq).1
    · have hax : ¬le a x := fun hax => hx (IsTrans.trans b a x hba hax)
      rw [List.orderedInsert_of_not_le _ _ hx, List.orderedInsert_of_not_le _ _ hax,
        List.orderedInsert_of_not_le _ _ hax, List.orderedInsert_of_not_le _ _ hx]
      exact fun heq => ih (List.cons.inj heq).2

theorem exists_two_orders [Std.Total le] [IsTrans O le] {a b : O} (ha : a ∈ out) (hb : b ∈ out)
    (hne : a ≠ b) (hab : le a b) (hba : le b a) :
    ∃ order order', Arranged le out order ∧ Arranged le out order' ∧ order ≠ order' := by
  classical
  obtain ⟨others, rfl⟩ := Multiset.exists_cons_of_mem ha
  obtain ⟨rest, rfl⟩ := Multiset.exists_cons_of_mem ((Multiset.mem_cons.mp hb).resolve_left hne.symm)
  obtain ⟨l, rfl, hl⟩ := exists_arranged le rest
  refine ⟨(l.orderedInsert le b).orderedInsert le a, (l.orderedInsert le a).orderedInsert le b,
    ⟨?_, (hl.orderedInsert b l).orderedInsert a _⟩, ⟨?_, (hl.orderedInsert a l).orderedInsert b _⟩,
    orderedInsert_swap_ne hne hab hba l⟩
  · exact Multiset.coe_eq_coe.mpr ((List.perm_orderedInsert le a _).trans
      ((List.perm_orderedInsert le b l).cons a))
  · exact Multiset.coe_eq_coe.mpr (((List.perm_orderedInsert le b _).trans
      ((List.perm_orderedInsert le a l).cons b)).trans (List.Perm.swap a b l))

end Sorting

section Pages
variable {O : Type} {order order' : List O} {p : Nat}

def page (limit offset : Nat) (order : List O) : List O := (order.drop offset).take limit

theorem pages_take (order : List O) (n : Nat) :
    ((List.range n).flatMap fun i => page p (p * i) order) = order.take (p * n) := by
  induction n with
  | zero => simp
  | succ n ih =>
    rw [List.range_succ, List.flatMap_append, ih, List.flatMap_singleton, page, Nat.mul_succ,
      List.take_add]

theorem page_eq_nil (hp : 0 < p) {i : Nat} : page p (p * i) order = [] ↔ order.length ≤ p * i := by
  rw [page, List.take_eq_nil_iff, List.drop_eq_nil_iff]
  exact ⟨fun h => h.resolve_left hp.ne', .inr⟩

theorem pages_inj (hp : 0 < p) (h : ∀ i, page p (p * i) order = page p (p * i) order') :
    order = order' := by
  have hlong (n : Nat) (hn : n ≤ max order.length order'.length) :
      n ≤ p * max order.length order'.length := hn.trans (Nat.le_mul_of_pos_left _ hp)
  have htake : order.take (p * max order.length order'.length) =
      order'.take (p * max order.length order'.length) := by
    rw [← pages_take, ← pages_take]
    exact congrArg (List.flatMap · _) (funext h)
  rwa [List.take_of_length_le (hlong _ (le_max_left ..)),
    List.take_of_length_le (hlong _ (le_max_right ..))] at htake

end Pages

section Pagination
variable {O : Type} {le : O → O → Prop} {out : Multiset O} {p : Nat}

def Answers (le : O → O → Prop) (out : Multiset O) (limit offset : Nat) (answer : List O) : Prop :=
  ∃ order, Arranged le out order ∧ answer = page limit offset order

theorem mem_of_answers {limit offset : Nat} {answer : List O}
    (h : Answers le out limit offset answer) : ∀ a ∈ answer, a ∈ out := by
  obtain ⟨order, horder, rfl⟩ := h
  intro a ha
  rw [← horder.rows]
  exact List.mem_of_mem_drop (List.mem_of_mem_take ha)

section Databases
variable {D M : Type} (le : D → O → O → Prop) (out : D → M → Multiset O)

-- Every query sorts anew, so each page is cut from an order of its own. A database has one order, and
-- the rows it selects may depend on the moment of the query.
structure Paginates (p : Nat) : Prop where
  exhaustive : ∀ d, ∀ pages : Nat → List O,
    (∀ i, ∃ m, Answers (le d) (out d m) p (p * i) (pages i)) →
    ∃ n, pages n = [] ∧ (∀ i < n, pages i ≠ []) ∧
      ∀ m, ↑((List.range n).flatMap pages) = out d m
  repeatable : ∀ d d', ∀ pages pages' : Nat → List O,
    (∀ i, ∃ m, Answers (le d) (out d m) p (p * i) (pages i)) →
    (∀ i, ∃ m, Answers (le d') (out d' m) p (p * i) (pages' i)) → pages = pages'

structure Alike : Prop where
  rows : ∀ d d' m m', out d m = out d' m'
  order : ∀ d d' m, ∀ a ∈ out d m, ∀ b ∈ out d m, le d a b → le d' a b
  ties : ∀ d m, ∀ a ∈ out d m, ∀ b ∈ out d m, le d a b → le d b a → a = b

variable {le out}

theorem alike_of_repeatable [∀ d, Std.Total (le d)] [∀ d, IsTrans O (le d)] (hp : 0 < p)
    (h : ∀ d d', ∀ pages pages' : Nat → List O,
      (∀ i, ∃ m, Answers (le d) (out d m) p (p * i) (pages i)) →
      (∀ i, ∃ m, Answers (le d') (out d' m) p (p * i) (pages' i)) → pages = pages') :
    Alike le out := by
  have hone : ∀ d d' m m' order order', Arranged (le d) (out d m) order →
      Arranged (le d') (out d' m') order' → order = order' := by
    intro d d' m m' order order' horder horder'
    have hpages := h d d' (fun i => page p (p * i) order) (fun i => page p (p * i) order')
      (fun i => ⟨m, order, horder, rfl⟩) fun i => ⟨m', order', horder', rfl⟩
    exact pages_inj hp (congrFun hpages)
  have hties : ∀ d m, ∀ a ∈ out d m, ∀ b ∈ out d m, le d a b → le d b a → a = b := by
    intro d m a ha b hb hab hba
    by_contra hne
    obtain ⟨order, order', horder, horder', hdiffer⟩ := exists_two_orders ha hb hne hab hba
    exact hdiffer (hone d d m m order order' horder horder')
  refine ⟨fun d d' m m' => ?_, fun d d' m a ha b hb hab => ?_, hties⟩
  · obtain ⟨order, horder⟩ := exists_arranged (le d) (out d m)
    obtain ⟨order', horder'⟩ := exists_arranged (le d') (out d' m')
    rw [← horder.rows, ← horder'.rows, hone d d' m m' order order' horder horder']
  · obtain ⟨order, horder⟩ := exists_arranged (le d) (out d m)
    obtain ⟨order', horder'⟩ := exists_arranged (le d') (out d' m)
    obtain rfl := hone d d' m m order order' horder horder'
    have hpairs : order.Pairwise fun x y => (le d x y ∧ le d' x y) ∨ (le d y x ∧ le d' y x) :=
      (horder.sorted.and horder'.sorted).imp Or.inl
    have hsymm : Std.Symm fun x y => (le d x y ∧ le d' x y) ∨ (le d y x ∧ le d' y x) :=
      ⟨fun _ _ => Or.symm⟩
    by_cases hsame : a = b
    · rw [hsame]
      exact (Std.Total.total (r := le d') b b).elim id id
    · have hmem (x : O) (hx : x ∈ out d m) : x ∈ order := Multiset.mem_coe.mp (horder.rows ▸ hx)
      obtain ⟨-, hle⟩ | ⟨hba, -⟩ := hpairs.forall (hmem a ha) (hmem b hb) hsame
      · exact hle
      · exact absurd (hties d m a ha b hb hab hba) hsame

theorem paginates_iff [∀ d, Std.Total (le d)] [∀ d, IsTrans O (le d)] (hp : 0 < p) :
    Paginates le out p ↔ Alike le out := by
  constructor
  · exact fun h => alike_of_repeatable hp h.repeatable
  · intro halike
    have hpages : ∀ d m order, Arranged (le d) (out d m) order → ∀ d', ∀ pages : Nat → List O,
        (∀ i, ∃ m, Answers (le d') (out d' m) p (p * i) (pages i)) →
        pages = fun i => page p (p * i) order := by
      intro d m order horder d' pages hanswers
      funext i
      obtain ⟨m', order', horder', hpage⟩ := hanswers i
      have hother : Arranged (le d) (out d m) order' := by
        refine ⟨horder'.rows.trans (halike.rows ..), horder'.sorted.imp_of_mem ?_⟩
        intro a b ha hb
        exact halike.order d' d m' a (horder'.rows ▸ Multiset.mem_coe.mpr ha)
          b (horder'.rows ▸ Multiset.mem_coe.mpr hb)
      rw [hpage, arranged_unique (halike.ties d m) hother horder]
    constructor
    case exhaustive =>
      intro d pages hanswers
      obtain ⟨m, -⟩ := hanswers 0
      obtain ⟨order, horder⟩ := exists_arranged (le d) (out d m)
      rw [hpages d m order horder d pages hanswers]
      have hend : ∃ n, page p (p * n) order = [] :=
        ⟨order.length, (page_eq_nil hp).mpr (Nat.le_mul_of_pos_left _ hp)⟩
      classical
      refine ⟨Nat.find hend, Nat.find_spec hend, fun i hi => Nat.find_min hend hi, fun m' => ?_⟩
      rw [pages_take, List.take_of_length_le ((page_eq_nil hp).mp (Nat.find_spec hend)), horder.rows,
        halike.rows]
    case repeatable =>
      intro d d' pages pages' hanswers hanswers'
      obtain ⟨m, -⟩ := hanswers 0
      obtain ⟨order, horder⟩ := exists_arranged (le d) (out d m)
      rw [hpages d m order horder d pages hanswers, hpages d m order horder d' pages' hanswers']

end Databases

end Pagination

end Sql

import Mathlib.Data.List.Infix
import Mathlib.Data.List.Sort

namespace FirstMatch

variable {A B : Type*} {p : A → Bool} {xs pre post : List A} {x : A}

def upTo (p : A → Bool) : List A → List A
  | [] => []
  | x :: xs => if p x then [x] else x :: upTo p xs

theorem upTo_split (hpre : ∀ y ∈ pre, p y = false) (hx : p x = true) :
    upTo p (pre ++ x :: post) = pre ++ [x] := by
  induction pre with
  | nil => exact if_pos hx
  | cons y pre ih =>
    have hy := hpre y List.mem_cons_self
    rw [List.cons_append, upTo, hy, ih fun z hz => hpre z (List.mem_cons_of_mem _ hz)]
    rfl

theorem upTo_none (h : ∀ y ∈ xs, p y = false) : upTo p xs = xs := by
  induction xs with
  | nil => rfl
  | cons y xs ih =>
    rw [upTo, h y List.mem_cons_self, ih fun z hz => h z (List.mem_cons_of_mem _ hz)]
    rfl

theorem split_or_none (p : A → Bool) (xs : List A) :
    (∀ y ∈ xs, p y = false) ∨
      ∃ pre x post, xs = pre ++ x :: post ∧ (∀ y ∈ pre, p y = false) ∧ p x = true := by
  induction xs with
  | nil => exact .inl (by simp)
  | cons y xs ih =>
    cases hy : p y with
    | true => exact .inr ⟨[], y, xs, rfl, by simp, hy⟩
    | false =>
      rcases ih with hnone | ⟨pre, x, post, rfl, hpre, hx⟩
      · left
        intro z hz
        rcases List.mem_cons.mp hz with rfl | hz
        · exact hy
        · exact hnone z hz
      · refine .inr ⟨y :: pre, x, post, rfl, ?_, hx⟩
        intro z hz
        rcases List.mem_cons.mp hz with rfl | hz
        · exact hy
        · exact hpre z hz

theorem exists_split_cons {a : A} {P : List A → A → Prop} :
    (∃ pre x post, a :: xs = pre ++ x :: post ∧ P pre x) ↔
      P [] a ∨ ∃ pre x post, xs = pre ++ x :: post ∧ P (a :: pre) x := by
  constructor
  · rintro ⟨pre, x, post, hsplit, hp⟩
    cases pre with
    | nil =>
      cases hsplit
      exact .inl hp
    | cons b pre =>
      cases hsplit
      exact .inr ⟨pre, x, post, rfl, hp⟩
  · rintro (hp | ⟨pre, x, post, rfl, hp⟩)
    · exact ⟨[], a, xs, rfl, hp⟩
    · exact ⟨a :: pre, x, post, rfl, hp⟩

theorem find_zipIdx_split (post : List A) (hpre : ∀ y ∈ pre, p y = false) (hx : p x = true)
    (k : Nat) :
    ((pre ++ x :: post).zipIdx k).find? (fun q => p q.1) = some (x, k + pre.length) := by
  induction pre generalizing k with
  | nil => simp [hx]
  | cons y pre ih =>
    rw [List.cons_append, List.zipIdx_cons, List.find?_cons, hpre y List.mem_cons_self,
      ih fun z hz => hpre z (List.mem_cons_of_mem _ hz)]
    simp only [List.length_cons]
    congr 2
    omega

theorem find_zipIdx_none (h : ∀ y ∈ xs, p y = false) (k : Nat) :
    (xs.zipIdx k).find? (fun q => p q.1) = none := by
  rw [List.find?_eq_none]
  intro q hq
  rw [h q.1 (List.fst_mem_of_mem_zipIdx hq)]
  exact Bool.false_ne_true

theorem findSome_or {f g : A → Option B}
    (h : xs.Pairwise fun x y => (g x).isSome = true → f y = none) :
    xs.findSome? (fun x => (f x).or (g x)) = (xs.findSome? f).or (xs.findSome? g) := by
  induction xs with
  | nil => rfl
  | cons x xs ih =>
    obtain ⟨hx, hxs⟩ := List.pairwise_cons.mp h
    rw [List.findSome?_cons, List.findSome?_cons, List.findSome?_cons, ih hxs]
    cases f x with
    | some b => rfl
    | none =>
      cases hg : g x with
      | none => rfl
      | some b =>
        have hnone : xs.findSome? f = none :=
          List.findSome?_eq_none_iff.mpr fun y hy => hx y hy (by rw [hg]; rfl)
        rw [hnone]
        rfl

theorem findSome_congr {f g : A → Option B} (h : ∀ x ∈ xs, f x = g x) :
    xs.findSome? f = xs.findSome? g := by
  induction xs with
  | nil => rfl
  | cons x xs ih =>
    rw [List.findSome?_cons, List.findSome?_cons, h x List.mem_cons_self,
      ih fun y hy => h y (List.mem_cons_of_mem _ hy)]

theorem findSome_flatMap {C : Type*} (f : A → List B) (g : B → Option C) :
    (xs.flatMap f).findSome? g = xs.findSome? fun x => (f x).findSome? g := by
  induction xs with
  | nil => rfl
  | cons x xs ih =>
    rw [List.flatMap_cons, List.findSome?_append, ih, List.findSome?_cons]
    cases (f x).findSome? g <;> rfl

theorem findSome_insertionSort {f : A → Option B} {r : A → A → Prop} [DecidableRel r]
    (h : ∀ x y, ¬r x y → f x = none ∨ f y = none) :
    (xs.insertionSort r).findSome? f = xs.findSome? f := by
  have hinsert (x : A) (ys : List A) :
      (ys.orderedInsert r x).findSome? f = (x :: ys).findSome? f := by
    induction ys with
    | nil => rfl
    | cons y ys ih =>
      rw [List.orderedInsert]
      split_ifs with hxy
      · rfl
      · rw [List.findSome?_cons, ih]
        simp only [List.findSome?_cons]
        rcases h x y hxy with hx | hy
        · rw [hx]
        · rw [hy]
  induction xs with
  | nil => rfl
  | cons x xs ih => rw [List.insertionSort_cons, hinsert, List.findSome?_cons, List.findSome?_cons, ih]

end FirstMatch

import Mathlib.Data.List.Perm.Basic

namespace Fallible

universe u v
variable {E F : Type u} {A B C : Type v}

theorem ok_bind (a : A) (f : A → Except E B) : (Except.ok a >>= f) = f a := rfl

theorem bind_eq_ok {x : Except E A} {f : A → Except E B} {b : B} :
    (x >>= f) = .ok b ↔ ∃ a, x = .ok a ∧ f a = .ok b := by
  cases x with
  | error e => exact ⟨fun h => (by cases h), fun ⟨_, ha, _⟩ => (by cases ha)⟩
  | ok a => exact ⟨fun h => ⟨a, rfl, h⟩, fun ⟨_, hc, hb⟩ => (by cases hc; exact hb)⟩

@[simp] theorem pure_eq_ok {a b : A} : (pure a : Except E A) = .ok b ↔ a = b :=
  ⟨fun h => (by cases h; rfl), fun h => (by cases h; rfl)⟩

@[simp] theorem ite_error_eq_ok {p : Prop} [Decidable p] {e : E} {x : Except E A} {a : A} :
    (if p then .error e else x) = .ok a ↔ ¬p ∧ x = .ok a := by
  split_ifs with hp
  · exact ⟨fun h => (by cases h), fun h => absurd hp h.1⟩
  · exact ⟨fun h => ⟨hp, h⟩, fun h => h.2⟩

@[simp] theorem ite_ok_eq_ok {p : Prop} [Decidable p] {e : E} {x : Except E A} {a : A} :
    (if p then x else .error e) = .ok a ↔ p ∧ x = .ok a := by
  split_ifs with hp
  · exact ⟨fun h => ⟨hp, h⟩, fun h => h.2⟩
  · exact ⟨fun h => (by cases h), fun h => absurd h.1 hp⟩

def ensure (b : Bool) (e : E) : Except E PUnit := if b then .ok ⟨⟩ else .error e

@[simp] theorem ensure_eq_ok {b : Bool} {e : E} {u : PUnit} :
    ensure b e = .ok u ↔ b = true := by
  rw [ensure, ite_ok_eq_ok]
  exact ⟨fun h => h.1, fun h => ⟨h, rfl⟩⟩

def okOr (x : Option A) (e : E) : Except E A :=
  match x with
  | some a => .ok a
  | none => .error e

@[simp] theorem okOr_eq_ok {x : Option A} {e : E} {a : A} : okOr x e = .ok a ↔ x = some a := by
  cases x with
  | none => exact ⟨fun h => (by cases h), fun h => (by cases h)⟩
  | some b => exact ⟨fun h => (by cases h; rfl), fun h => (by cases h; rfl)⟩

theorem mapError_eq_ok {f : E → F} {x : Except E A} {a : A} :
    x.mapError f = .ok a ↔ x = .ok a := by
  cases x with
  | error e => exact ⟨fun h => (by cases h), fun h => (by cases h)⟩
  | ok b => exact ⟨fun h => (by cases h; rfl), fun h => (by cases h; rfl)⟩

theorem mapM_eq_ok {f : A → Except E B} {xs : List A} {ys : List B} :
    xs.mapM f = .ok ys ↔ List.Forall₂ (fun x y => f x = .ok y) xs ys := by
  induction xs generalizing ys with
  | nil =>
    rw [List.mapM_nil, pure_eq_ok, List.forall₂_nil_left_iff]
    exact eq_comm
  | cons x xs ih =>
    rw [List.mapM_cons, bind_eq_ok, List.forall₂_cons_left_iff]
    constructor
    · rintro ⟨y, hy, h⟩
      obtain ⟨rest, hrest, hys⟩ := bind_eq_ok.mp h
      exact ⟨y, rest, hy, ih.mp hrest, (pure_eq_ok.mp hys).symm⟩
    · rintro ⟨y, rest, hy, hrest, rfl⟩
      exact ⟨y, hy, bind_eq_ok.mpr ⟨rest, ih.mpr hrest, rfl⟩⟩

theorem mapM_perm {f : A → Except E B} {xs zs : List A} {ys : List B} (hp : xs.Perm zs)
    (h : xs.mapM f = .ok ys) : ∃ ws, zs.mapM f = .ok ws ∧ ws.Perm ys := by
  obtain ⟨ws, hws, hperm⟩ := List.perm_comp_forall₂ hp.symm (mapM_eq_ok.mp h)
  exact ⟨ws, mapM_eq_ok.mpr hws, hperm⟩

section Related
variable {R : A → B → Prop} {xs : List A} {ys : List B}

theorem exists_zip (h : List.Forall₂ R xs ys) {x : A} (hx : x ∈ xs) :
    ∃ y, (x, y) ∈ xs.zip ys ∧ R x y := by
  induction h with
  | nil => cases hx
  | cons hxy _ ih =>
    rcases List.mem_cons.mp hx with rfl | hx
    · exact ⟨_, List.mem_cons_self, hxy⟩
    · obtain ⟨y, hy, hr⟩ := ih hx
      exact ⟨y, List.mem_cons_of_mem _ hy, hr⟩

theorem exists_right (h : List.Forall₂ R xs ys) {x : A} (hx : x ∈ xs) : ∃ y ∈ ys, R x y := by
  obtain ⟨y, hy, hr⟩ := exists_zip h hx
  exact ⟨y, (List.of_mem_zip hy).2, hr⟩

theorem exists_left (h : List.Forall₂ R xs ys) {y : B} (hy : y ∈ ys) : ∃ x ∈ xs, R x y :=
  exists_right (R := fun y x => R x y) h.flip hy

end Related

theorem exists_of_mem_mapM {f : A → Except E B} {xs : List A} {ys : List B}
    (h : xs.mapM f = .ok ys) {y : B} (hy : y ∈ ys) : ∃ x ∈ xs, f x = .ok y :=
  exists_left (mapM_eq_ok.mp h) hy

theorem mapM_eq_map {f : A → Except E B} {g : A → B} {xs : List A}
    (h : ∀ x ∈ xs, f x = .ok (g x)) : xs.mapM f = .ok (xs.map g) := by
  induction xs with
  | nil => rfl
  | cons x xs ih =>
    rw [List.mapM_cons, h x List.mem_cons_self, ih fun y hy => h y (List.mem_cons_of_mem _ hy)]
    rfl

theorem map_eq_of_mapM {f : A → Except E B} {xs : List A} {ys : List B} (h : xs.mapM f = .ok ys)
    {g : B → C} {k : A → C} (hg : ∀ x y, f x = .ok y → g y = k x) : ys.map g = xs.map k := by
  have hall := mapM_eq_ok.mp h
  induction hall with
  | nil => rfl
  | cons hxy hrest ih =>
    rw [List.map_cons, List.map_cons, hg _ _ hxy, ih (mapM_eq_ok.mpr hrest)]

theorem forall₂_factor {R : A → B → Prop} {g : B → C} {xs : List A} {zs : List C} :
    List.Forall₂ (fun x z => ∃ y, R x y ∧ g y = z) xs zs ↔
      ∃ ys, List.Forall₂ R xs ys ∧ zs = ys.map g := by
  constructor
  · intro h
    induction h with
    | nil => exact ⟨[], .nil, rfl⟩
    | cons hz _ ih =>
      obtain ⟨y, hy, rfl⟩ := hz
      obtain ⟨ys, hys, rfl⟩ := ih
      exact ⟨y :: ys, .cons hy hys, rfl⟩
  · rintro ⟨ys, hys, rfl⟩
    exact List.forall₂_map_right_iff.mpr (hys.imp fun x y hxy => ⟨y, hxy, rfl⟩)

theorem forall₂_getElem? {R : A → B → Prop} {xs : List A} {ys : List B}
    (h : List.Forall₂ R xs ys) (i : Nat) : Option.Rel R xs[i]? ys[i]? := by
  induction h generalizing i with
  | nil => exact .none
  | cons hr _ ih =>
    cases i with
    | zero => exact .some hr
    | succ i => exact ih i

theorem exists_forall₂ {R : A → B → Prop} {xs : List A} :
    (∃ ys, List.Forall₂ R xs ys) ↔ ∀ x ∈ xs, ∃ y, R x y := by
  constructor
  · rintro ⟨ys, hys⟩ x hx
    obtain ⟨y, -, hxy⟩ := exists_right hys hx
    exact ⟨y, hxy⟩
  · intro h
    induction xs with
    | nil => exact ⟨[], .nil⟩
    | cons x xs ih =>
      obtain ⟨y, hy⟩ := h x List.mem_cons_self
      obtain ⟨ys, hys⟩ := ih fun x' hx' => h x' (List.mem_cons_of_mem _ hx')
      exact ⟨y :: ys, .cons hy hys⟩

end Fallible

import Mathlib.Tactic.Common

namespace Effects

variable {S E A : Type}

abbrev Effect (S E : Type) := S → Except E Unit × S

-- What becomes of a request to another party: it may arrive and only its answer be lost.
inductive Delivery (E : Type) where
  | answered
  | lost (e : E)
  | unsent (e : E)

def whole (f : S → Except E S) : Effect S E := fun s =>
  match f s with
  | .ok t => (.ok (), t)
  | .error e => (.error e, s)

def attempt (delivery : Delivery E) (a : Effect S E) : Effect S E := fun s =>
  match delivery with
  | .answered => a s
  | .lost e => (.error e, (a s).2)
  | .unsent e => (.error e, s)

def andThen (a b : Effect S E) : Effect S E := fun s =>
  match a s with
  | (.ok (), t) => b t
  | (.error e, t) => (.error e, t)

def given (x : Except E A) (f : A → Effect S E) : Effect S E := fun s =>
  match x with
  | .ok a => f a s
  | .error e => (.error e, s)

def all (f : Nat → A → Effect S E) : Nat → List A → Effect S E
  | _, [] => fun s => (.ok (), s)
  | k, a :: as => andThen (f k a) (all f (k + 1) as)

section Success
variable {a b : Effect S E} {f : S → Except E S} {s t : S}

theorem whole_ok : whole f s = (.ok (), t) ↔ f s = .ok t := by
  cases hf : f s <;> simp [whole, hf]

theorem attempt_ok {delivery : Delivery E} :
    attempt delivery a s = (.ok (), t) ↔ delivery = .answered ∧ a s = (.ok (), t) := by
  cases delivery <;> simp [attempt]

theorem andThen_ok :
    andThen a b s = (.ok (), t) ↔ ∃ r, a s = (.ok (), r) ∧ b r = (.ok (), t) := by
  rcases ha : a s with ⟨_ | ⟨⟩, r⟩ <;> simp [andThen, ha]

theorem given_of_ok (y : A) (f : A → Effect S E) : given (.ok y) f = f y := rfl

theorem given_ok {x : Except E A} {g : A → Effect S E} :
    given x g s = (.ok (), t) ↔ ∃ y, x = .ok y ∧ g y s = (.ok (), t) := by
  cases x <;> simp [given]

theorem all_succeeds {g : Nat → A → Effect S E} {as : List A}
    (h : ∀ k, ∀ a ∈ as, ∀ r, ∃ t, g k a r = (.ok (), t)) (k : Nat) (s : S) :
    ∃ t, all g k as s = (.ok (), t) := by
  induction as generalizing k s with
  | nil => exact ⟨s, rfl⟩
  | cons a as ih =>
    obtain ⟨r, hr⟩ := h k a List.mem_cons_self s
    obtain ⟨t, ht⟩ := ih (fun k b hb => h k b (List.mem_cons_of_mem _ hb)) (k + 1) r
    exact ⟨t, andThen_ok.mpr ⟨r, hr, ht⟩⟩

end Success

section Keeps
variable {R : S → S → Prop} {a b : Effect S E}

def Keeps (R : S → S → Prop) (a : Effect S E) : Prop := ∀ s, R s (a s).2

theorem keeps_whole (hrefl : ∀ s, R s s) {f : S → Except E S}
    (h : ∀ s t, f s = .ok t → R s t) : Keeps R (whole f) := by
  intro s
  cases hf : f s with
  | error e => simpa [whole, hf] using hrefl s
  | ok t => simpa [whole, hf] using h s t hf

theorem keeps_attempt (hrefl : ∀ s, R s s) (ha : Keeps R a) (delivery : Delivery E) :
    Keeps R (attempt delivery a) := by
  intro s
  cases delivery with
  | answered => exact ha s
  | lost e => exact ha s
  | unsent e => exact hrefl s

theorem keeps_andThen (htrans : ∀ r s t, R r s → R s t → R r t) (ha : Keeps R a) (hb : Keeps R b) :
    Keeps R (andThen a b) := by
  intro s
  have hs := ha s
  rcases hrun : a s with ⟨_ | ⟨⟩, r⟩
  · simpa [andThen, hrun] using hs
  · rw [hrun] at hs
    simpa [andThen, hrun] using htrans s r _ hs (hb r)

theorem keeps_given (hrefl : ∀ s, R s s) {x : Except E A} {g : A → Effect S E}
    (h : ∀ y, x = .ok y → Keeps R (g y)) : Keeps R (given x g) := by
  intro s
  cases x with
  | error e => exact hrefl s
  | ok y => exact h y rfl s

theorem keeps_all (hrefl : ∀ s, R s s) (htrans : ∀ r s t, R r s → R s t → R r t)
    {f : Nat → A → Effect S E} {as : List A} (h : ∀ k, ∀ a ∈ as, Keeps R (f k a)) (k : Nat) :
    Keeps R (all f k as) := by
  induction as generalizing k with
  | nil => exact hrefl
  | cons a as ih =>
    exact keeps_andThen htrans (h k a List.mem_cons_self)
      (ih (fun k b hb => h k b (List.mem_cons_of_mem _ hb)) (k + 1))

end Keeps

section Rest
variable {a b c : Effect S E} {p q : Prop} {s : S}

theorem andThen_assoc : andThen (andThen a b) c = andThen a (andThen b c) := by
  funext s
  rcases ha : a s with ⟨_ | ⟨⟩, r⟩ <;> simp [andThen, ha]

structure Rests (quiet : Prop) (a : Effect S E) (s : S) : Prop where
  state : (a s).2 = s
  result : (a s).1 = .ok () ↔ quiet

theorem rests_attempt (delivery : Delivery E) (h : a s = (.ok (), s)) :
    Rests (delivery = .answered) (attempt delivery a) s := by
  cases delivery <;> constructor <;> simp [attempt, h]

theorem andThen_of_rests (ha : Rests p a s) (hp : p) : andThen a b s = b s := by
  have hrun : a s = (.ok (), s) := Prod.ext (ha.result.mpr hp) ha.state
  rw [andThen, hrun]

theorem andThen_stopped (ha : Rests p a s) (hp : ¬p) :
    ∃ e, andThen a b s = (.error e, s) := by
  rcases hrun : a s with ⟨e | ⟨⟩, r⟩
  · obtain rfl : r = s := by simpa [hrun] using ha.state
    exact ⟨e, by rw [andThen, hrun]⟩
  · exact absurd (ha.result.mp (by rw [hrun])) hp

theorem rests_andThen (ha : Rests p a s) (hb : Rests q b s) : Rests (p ∧ q) (andThen a b) s := by
  by_cases hp : p
  · have hrun : andThen a b s = b s := andThen_of_rests ha hp
    exact ⟨by rw [hrun, hb.state], by rw [hrun, hb.result, and_iff_right hp]⟩
  · obtain ⟨e, hrun⟩ := andThen_stopped (b := b) ha hp
    exact ⟨by rw [hrun], by simp [hrun, hp]⟩

theorem rests_all {f : Nat → A → Effect S E} {quiet : Nat → Prop} {as : List A}
    (h : ∀ k, ∀ a ∈ as, Rests (quiet k) (f k a) s) (k : Nat) :
    Rests (∀ i < as.length, quiet (k + i)) (all f k as) s := by
  induction as generalizing k with
  | nil => exact ⟨rfl, by simp [all]⟩
  | cons a as ih =>
    have hboth := rests_andThen (h k a List.mem_cons_self)
      (ih (fun k b hb => h k b (List.mem_cons_of_mem _ hb)) (k + 1))
    refine ⟨hboth.state, hboth.result.trans ?_⟩
    rw [List.length_cons, Nat.forall_lt_succ_left]
    simp only [Nat.add_zero, Nat.add_assoc, Nat.add_comm 1]

end Rest

end Effects

import Mathlib.Data.List.Chain
import Mathlib.Data.List.Induction
import Mathlib.Tactic.Common

namespace Linked

variable {A B : Type*} {R : A → A → Prop} {xs : List A} {x y : A}

theorem isChain_concat :
    (xs ++ [x]).IsChain R ↔ xs.IsChain R ∧ ∀ y ∈ xs.getLast?, R y x := by
  rw [List.isChain_append]
  constructor
  · rintro ⟨hxs, _, hlink⟩
    exact ⟨hxs, fun y hy => hlink y hy x rfl⟩
  · rintro ⟨hxs, hlink⟩
    refine ⟨hxs, List.isChain_singleton x, fun y hy z hz => ?_⟩
    obtain rfl := Option.mem_some_iff.mp hz
    exact hlink y hy

section Heights
variable {height : A → Int}

theorem ascending_of_succ (h : xs.IsChain fun a b => height b = height a + 1) :
    xs.Pairwise fun a b => height a < height b := by
  have hlt : xs.IsChain fun a b => height a < height b := h.imp fun a b hab => by omega
  have : Trans (fun a b : A => height a < height b) (fun a b : A => height a < height b)
      (fun a b : A => height a < height b) := ⟨fun hab hbc => Int.lt_trans hab hbc⟩
  exact List.isChain_iff_pairwise.mp hlt

theorem height_getElem (h : xs.IsChain fun a b => height b = height a + 1) {i : Nat}
    (hi : i < xs.length) (h0 : 0 < xs.length) : height xs[i] = height xs[0] + i := by
  induction i with
  | zero => simp
  | succ i ih =>
    have hlink := List.isChain_iff_getElem.mp h i hi
    rw [hlink, ih (by omega)]
    push_cast
    omega

def higher (height : A → Int) (best : Option A) (x : A) : Option A :=
  match best with
  | none => some x
  | some y => if height y < height x then some x else some y

def highest (height : A → Int) (xs : List A) : Option A := xs.foldl (higher height) none

theorem highest_concat (height : A → Int) (xs : List A) (x : A) :
    highest height (xs ++ [x]) = higher height (highest height xs) x :=
  List.foldl_concat ..

theorem higher_le (height : A → Int) (best : Option A) (x : A) :
    ∃ y, higher height best x = some y ∧ height x ≤ height y ∧
      ∀ w, best = some w → height w ≤ height y := by
  cases best with
  | none => exact ⟨x, rfl, Int.le_refl _, fun w hw => (by cases hw)⟩
  | some b =>
    rw [higher]
    split_ifs with hlt
    · refine ⟨x, rfl, Int.le_refl _, fun w hw => ?_⟩
      cases hw
      exact Int.le_of_lt hlt
    · refine ⟨b, rfl, Int.not_lt.mp hlt, fun w hw => ?_⟩
      cases hw
      exact Int.le_refl _

theorem highest_le (hx : x ∈ xs) : ∃ y, highest height xs = some y ∧ height x ≤ height y := by
  induction xs using List.reverseRecOn with
  | nil => cases hx
  | append_singleton xs z ih =>
    obtain ⟨y, hy, hz, hbest⟩ := higher_le height (highest height xs) z
    rw [highest_concat]
    refine ⟨y, hy, ?_⟩
    rcases List.mem_append.mp hx with hx | hx
    · obtain ⟨w, hw, hle⟩ := ih hx
      exact Int.le_trans hle (hbest w hw)
    · exact List.mem_singleton.mp hx ▸ hz

theorem highest_ascending (h : xs.Pairwise fun a b => height a < height b) :
    highest height xs = xs.getLast? := by
  induction xs using List.reverseRecOn with
  | nil => rfl
  | append_singleton xs x ih =>
    obtain ⟨hxs, _, hlt⟩ := List.pairwise_append.mp h
    rw [highest_concat, List.getLast?_concat, ih hxs]
    cases hl : xs.getLast? with
    | none => rfl
    | some y =>
      have := hlt y (List.mem_of_getLast? hl) x (List.mem_singleton_self x)
      exact if_pos this

end Heights
end Linked

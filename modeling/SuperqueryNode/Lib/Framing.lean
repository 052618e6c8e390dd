import Mathlib.Algebra.Group.Nat.Defs
import Mathlib.Data.List.Basic

namespace Framing

section PrefixFree
variable {A B : Type*} {f : A → List B}

def PrefixFree (f : A → List B) : Prop :=
  ∀ a a' r r', f a ++ r = f a' ++ r' → a = a' ∧ r = r'

theorem prefixFree_of_length {width : Nat} (hlength : ∀ a, (f a).length = width)
    (hinj : Function.Injective f) : PrefixFree f := by
  intro a a' r r' h
  obtain ⟨hhead, htail⟩ := List.append_inj h ((hlength a).trans (hlength a').symm)
  exact ⟨hinj hhead, htail⟩

theorem prefixFree_lengthPrefixed {header : Nat → List B} {bound width : Nat}
    (hwidth : ∀ n, (header n).length = width)
    (hheader : ∀ m n, m < bound → n < bound → header m = header n → m = n)
    {payload : A → List B} (hbound : ∀ a, (payload a).length < bound)
    (hpayload : Function.Injective payload) :
    PrefixFree fun a => header (payload a).length ++ payload a := by
  intro a a' r r' h
  simp only [List.append_assoc] at h
  obtain ⟨hhead, hrest⟩ := List.append_inj h ((hwidth _).trans (hwidth _).symm)
  obtain ⟨hsame, htail⟩ := List.append_inj hrest (hheader _ _ (hbound a) (hbound a') hhead)
  exact ⟨hpayload hsame, htail⟩

theorem PrefixFree.flatMap_injective (h : PrefixFree f) (hne : ∀ a, f a ≠ []) :
    Function.Injective fun xs : List A => xs.flatMap f := by
  intro xs
  induction xs with
  | nil =>
    intro ys hys
    cases ys with
    | nil => rfl
    | cons y ys =>
      simp only [List.flatMap_nil, List.flatMap_cons] at hys
      exact absurd (List.append_eq_nil_iff.mp hys.symm).1 (hne y)
  | cons x xs ih =>
    intro ys hys
    cases ys with
    | nil =>
      simp only [List.flatMap_nil, List.flatMap_cons] at hys
      exact absurd (List.append_eq_nil_iff.mp hys).1 (hne x)
    | cons y ys =>
      simp only [List.flatMap_cons] at hys
      obtain ⟨rfl, hrest⟩ := h x y _ _ hys
      rw [ih hrest]

end PrefixFree

def bigEndian : Nat → Nat → List UInt8
  | 0, _ => []
  | width + 1, n => bigEndian width (n / 256) ++ [UInt8.ofNat n]

theorem length_bigEndian (width n : Nat) : (bigEndian width n).length = width := by
  induction width generalizing n with
  | zero => rfl
  | succ width ih => rw [bigEndian, List.length_append, ih, List.length_singleton]

theorem bigEndian_injective (width : Nat) {m n : Nat} (hm : m < 256 ^ width)
    (hn : n < 256 ^ width) (h : bigEndian width m = bigEndian width n) : m = n := by
  induction width generalizing m n with
  | zero => omega
  | succ width ih =>
    rw [bigEndian, bigEndian] at h
    obtain ⟨hhigh, hlow⟩ := List.append_inj h (by rw [length_bigEndian, length_bigEndian])
    rw [Nat.pow_succ] at hm hn
    have hdiv : m / 256 = n / 256 := ih (by omega) (by omega) hhigh
    have hmod : m % 256 = n % 256 := by
      have := congrArg UInt8.toNat (List.singleton_inj.mp hlow)
      simpa using this
    omega

end Framing

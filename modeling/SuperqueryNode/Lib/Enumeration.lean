import Mathlib.Data.List.Sort
import Mathlib.Data.Nat.Find

namespace Enumeration

def enumerate (p : Nat → Bool) (s e : Nat) : List Nat := (List.range' s (e + 1 - s)).filter p

variable {p : Nat → Bool} {s m e : Nat}

@[simp] theorem mem_enumerate {x : Nat} : x ∈ enumerate p s e ↔ (s ≤ x ∧ x ≤ e) ∧ p x = true := by
  simp only [enumerate, List.mem_filter, List.mem_range'_1]
  constructor
  · rintro ⟨hx, hp⟩
    exact ⟨by omega, hp⟩
  · rintro ⟨hx, hp⟩
    exact ⟨by omega, hp⟩

theorem enumerate_ascending (p : Nat → Bool) (s e : Nat) : (enumerate p s e).Pairwise (· < ·) :=
  List.Pairwise.filter p List.pairwise_lt_range'

theorem eq_of_ordered {A : Type*} {r : A → A → Prop} (hasymm : ∀ a b, r a b → ¬r b a)
    {xs ys : List A} (hx : xs.Pairwise r) (hy : ys.Pairwise r) (h : ∀ x, x ∈ xs ↔ x ∈ ys) :
    xs = ys := by
  have hne : ∀ {a b}, r a b → a ≠ b := by
    rintro a b hab rfl
    exact hasymm a a hab hab
  have hperm : xs.Perm ys := (List.perm_ext_iff_of_nodup (hx.imp hne) (hy.imp hne)).mpr h
  exact hperm.eq_of_pairwise (fun a b _ _ hab hba => absurd hba (hasymm a b hab)) hx hy

theorem eq_of_ascending {xs ys : List Nat} (hx : xs.Pairwise (· < ·)) (hy : ys.Pairwise (· < ·))
    (h : ∀ x, x ∈ xs ↔ x ∈ ys) : xs = ys :=
  eq_of_ordered (fun _ _ => Nat.lt_asymm) hx hy h

theorem enumerate_eq_nil (h : ∀ x, s ≤ x → x ≤ e → p x = false) : enumerate p s e = [] := by
  rw [List.eq_nil_iff_forall_not_mem]
  intro x hx
  obtain ⟨⟨hs, he⟩, hp⟩ := mem_enumerate.mp hx
  rw [h x hs he] at hp
  cases hp

theorem enumerate_of_lt (h : e < s) : enumerate p s e = [] :=
  enumerate_eq_nil fun x hs he => by omega

theorem enumerate_split (hs : s ≤ m + 1) (he : m ≤ e) :
    enumerate p s e = enumerate p s m ++ enumerate p (m + 1) e := by
  rw [enumerate]
  have hlen : e + 1 - s = (m + 1 - s) + (e + 1 - (m + 1)) := by omega
  rw [hlen, ← List.range'_append_1, List.filter_append]
  congr 3
  omega

theorem enumerate_skip (hs : s ≤ m) (h : ∀ x, s ≤ x → x < m → p x = false) :
    enumerate p s e = enumerate p m e := by
  apply eq_of_ascending (enumerate_ascending p s e) (enumerate_ascending p m e)
  intro x
  simp only [mem_enumerate]
  constructor
  · rintro ⟨⟨hsx, hxe⟩, hp⟩
    refine ⟨⟨?_, hxe⟩, hp⟩
    by_contra hlt
    rw [h x hsx (by omega)] at hp
    cases hp
  · rintro ⟨⟨hmx, hxe⟩, hp⟩
    exact ⟨⟨by omega, hxe⟩, hp⟩

theorem enumerate_full (h : ∀ x, s ≤ x → x ≤ e → p x = true) :
    enumerate p s e = List.range' s (e + 1 - s) := by
  rw [enumerate]
  rw [List.filter_eq_self]
  intro x hx
  have := List.mem_range'_1.mp hx
  exact h x (by omega) (by omega)

theorem enumerate_cons (hp : p s = true) (he : s ≤ e) :
    enumerate p s e = s :: enumerate p (s + 1) e := by
  rw [enumerate_split (m := s) (by omega) he, enumerate_full (s := s) (e := s) (by
    intro x hs he
    rwa [le_antisymm he hs])]
  simp

theorem enumerate_uncons {h : Nat} {hs : List Nat} (heq : enumerate p s e = h :: hs) :
    (s ≤ h ∧ h ≤ e ∧ p h = true) ∧ hs = enumerate p (h + 1) e := by
  have hmem : h ∈ enumerate p s e := heq ▸ List.mem_cons_self
  obtain ⟨⟨hsh, hhe⟩, hph⟩ := mem_enumerate.mp hmem
  refine ⟨⟨hsh, hhe, hph⟩, ?_⟩
  have hskip : ∀ x, s ≤ x → x < h → p x = false := by
    intro x hsx hxh
    by_contra hpx
    have hx : x ∈ enumerate p s e := mem_enumerate.mpr ⟨⟨hsx, by omega⟩, by simpa using hpx⟩
    have hasc := enumerate_ascending p s e
    rw [heq] at hx hasc
    rcases List.mem_cons.mp hx with rfl | hx
    · omega
    · have := (List.pairwise_cons.mp hasc).1 x hx
      omega
  rw [enumerate_skip hsh hskip, enumerate_cons hph hhe] at heq
  exact (List.cons.inj heq).2.symm

theorem enumerate_shorten {h : Nat} {hs : List Nat} (heq : enumerate p s e = h :: hs)
    (hm : m ≤ e) (hne : enumerate p s m ≠ []) :
    enumerate p s m = h :: enumerate p (h + 1) m := by
  obtain ⟨x, xs, hx⟩ := List.exists_cons_of_ne_nil hne
  obtain ⟨⟨hsx, hxm, _⟩, hxs⟩ := enumerate_uncons hx
  rw [enumerate_split (m := m) (by omega) hm, hx, List.cons_append] at heq
  obtain rfl : x = h := (List.cons.inj heq).1
  rw [hx, hxs]

theorem exists_missing (ks : List Nat) (r : Nat) : ∃ n, r ≤ n ∧ n ∉ ks := by
  refine ⟨r + ks.max?.getD 0 + 1, by omega, fun hmem => ?_⟩
  have := List.le_max?_getD_of_mem (k := 0) hmem
  omega

def firstMissing (ks : List Nat) (r : Nat) : Nat := Nat.find (exists_missing ks r)

variable {ks ls : List Nat} {r n : Nat}

theorem le_firstMissing (ks : List Nat) (r : Nat) : r ≤ firstMissing ks r :=
  (Nat.find_spec (exists_missing ks r)).1

theorem firstMissing_notMem (ks : List Nat) (r : Nat) : firstMissing ks r ∉ ks :=
  (Nat.find_spec (exists_missing ks r)).2

theorem mem_of_lt_firstMissing (hr : r ≤ n) (hn : n < firstMissing ks r) : n ∈ ks := by
  have := Nat.find_min (exists_missing ks r) hn
  by_contra hmem
  exact this ⟨hr, hmem⟩

theorem firstMissing_le (hr : r ≤ n) (hn : n ∉ ks) : firstMissing ks r ≤ n :=
  Nat.find_min' (exists_missing ks r) ⟨hr, hn⟩

theorem firstMissing_eq (hr : r ≤ n) (hn : n ∉ ks) (h : ∀ m, r ≤ m → m < n → m ∈ ks) :
    firstMissing ks r = n := by
  refine le_antisymm (firstMissing_le hr hn) ?_
  by_contra hlt
  exact firstMissing_notMem ks r (h _ (le_firstMissing ks r) (by omega))

theorem firstMissing_congr (h : ∀ x, x ∈ ks ↔ x ∈ ls) : firstMissing ks r = firstMissing ls r :=
  firstMissing_eq (le_firstMissing ls r) (fun hmem => firstMissing_notMem ls r ((h _).mp hmem))
    fun _ hr hn => (h _).mpr (mem_of_lt_firstMissing hr hn)

end Enumeration

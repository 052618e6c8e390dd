import Mathlib.Algebra.GroupWithZero.Nat
import SuperqueryNode.Lib.Ascii
import SuperqueryNode.Lib.Radix

namespace HexText

def strip : List Char → List Char
  | '0' :: 'x' :: digits => digits
  | s => s

def byteLength (s : List Char) : Nat := (s.map Char.utf8Size).sum

def eqIgnoreAsciiCase (a b : List Char) : Bool := a.map Char.toLower == b.map Char.toLower

-- The first `n` bytes, unless they end inside a character or there are fewer.
def getPrefix : Nat → List Char → Option (List Char)
  | 0, _ => some []
  | _ + 1, [] => none
  | n + 1, c :: s =>
    if c.utf8Size ≤ n + 1 then (getPrefix (n + 1 - c.utf8Size) s).map (c :: ·) else none

def isDigit (c : Char) : Bool := (Radix.toDigit 16 c).isSome

def value (s : String) : List Char := (strip s.toList).map Char.toLower

def Spells (s : String) (d : List Char) : Prop :=
  (∀ c ∈ d, isDigit c = true) ∧ (s.toList = d ∨ s.toList = '0' :: 'x' :: d)

def Respelled (s s' : String) : Prop :=
  ∃ d d', Spells s d ∧ Spells s' d' ∧ d.map Char.toLower = d'.map Char.toLower

section Spelling
variable {s s' : String} {a b d : List Char}

theorem strip_digits (h : ∀ c ∈ d, isDigit c = true) : strip d = d := by
  unfold strip
  split
  next digits =>
    have hx : isDigit 'x' = true := h 'x' (by simp)
    exact absurd hx (by decide)
  next => rfl

theorem value_spells (h : Spells s d) : value s = d.map Char.toLower := by
  rw [value]
  rcases h.2 with hs | hs
  · rw [hs, strip_digits h.1]
  · rw [hs]
    rfl

theorem value_respelled (h : Respelled s s') : value s = value s' := by
  obtain ⟨d, d', hs, hs', heq⟩ := h
  rw [value_spells hs, value_spells hs', heq]

theorem byteLength_toLower : byteLength (a.map Char.toLower) = byteLength a := by
  rw [byteLength, byteLength, List.map_map]
  exact congrArg List.sum (List.map_congr_left fun c _ => Ascii.toLower_utf8Size c)

theorem byteLength_append : byteLength (a ++ b) = byteLength a + byteLength b := by
  rw [byteLength, byteLength, byteLength, List.map_append, List.sum_append]

theorem eqIgnoreAsciiCase_iff :
    eqIgnoreAsciiCase a b = true ↔ a.map Char.toLower = b.map Char.toLower := beq_iff_eq

theorem byteLength_of_eq (h : eqIgnoreAsciiCase a b = true) : byteLength a = byteLength b := by
  rw [← byteLength_toLower, eqIgnoreAsciiCase_iff.mp h, byteLength_toLower]

theorem getPrefix_append (a b : List Char) : getPrefix (byteLength a) (a ++ b) = some a := by
  induction a with
  | nil => cases b <;> rfl
  | cons c a ih =>
    have hpos := c.utf8Size_pos
    have hlength : byteLength (c :: a) = byteLength a + (c.utf8Size - 1) + 1 := by
      simp only [byteLength, List.map_cons, List.sum_cons]
      omega
    rw [hlength, List.cons_append, getPrefix, if_pos (by omega)]
    rw [show byteLength a + (c.utf8Size - 1) + 1 - c.utf8Size = byteLength a by omega, ih]
    rfl

theorem getPrefix_eq_some {n : Nat} (h : getPrefix n b = some a) :
    byteLength a = n ∧ a <+: b := by
  induction b generalizing n a with
  | nil =>
    cases n with
    | zero =>
      cases h
      exact ⟨rfl, List.nil_prefix⟩
    | succ n => cases h
  | cons c b ih =>
    cases n with
    | zero =>
      cases h
      exact ⟨rfl, List.nil_prefix⟩
    | succ n =>
      rw [getPrefix] at h
      split_ifs at h with hsize
      obtain ⟨rest, hrest, rfl⟩ := Option.map_eq_some_iff.mp h
      obtain ⟨hlength, hprefix⟩ := ih hrest
      refine ⟨?_, List.cons_prefix_cons.mpr ⟨rfl, hprefix⟩⟩
      simp only [byteLength, List.map_cons, List.sum_cons] at hlength ⊢
      omega

theorem getPrefix_lower : (getPrefix (byteLength a) b).any (fun p => eqIgnoreAsciiCase p a) = true ↔
    a.map Char.toLower <+: b.map Char.toLower := by
  rw [Option.any_eq_true]
  constructor
  · rintro ⟨p, hp, heq⟩
    rw [← eqIgnoreAsciiCase_iff.mp heq]
    exact (getPrefix_eq_some hp).2.map _
  · intro h
    obtain ⟨p, t, rfl, hp⟩ : ∃ p t, b = p ++ t ∧ p.map Char.toLower = a.map Char.toLower := by
      obtain ⟨t, ht⟩ := h
      have htake := congrArg (List.take a.length) ht
      refine ⟨b.take a.length, b.drop a.length, (List.take_append_drop _ _).symm, ?_⟩
      rw [List.map_take, ← htake, List.take_left' (List.length_map _)]
    have heq : eqIgnoreAsciiCase p a = true := eqIgnoreAsciiCase_iff.mpr hp
    exact ⟨p, by rw [← byteLength_of_eq heq, getPrefix_append], heq⟩

end Spelling
end HexText

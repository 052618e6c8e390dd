import SuperqueryNode.Evm.Rpc

namespace SuperqueryNode.Evm
open Unsigned Radix ChainApi

inductive IsQuantity : Json → Nat → Prop
  | zero : IsQuantity (.string "0x0") 0
  | digits (c : Char) (cs : List Char) (n : Nat) (hlead : c ≠ '0')
      (hvalue : digitsValue 16 0 (c :: cs) = some n) (hn : n ≤ maxValue 64) :
      IsQuantity (.string ("0x" ++ String.ofList (c :: cs))) n

inductive SignedAs : Json → Nat → Prop
  | plus (c : Char) (cs : List Char) (n : Nat) (hvalue : digitsValue 16 0 (c :: cs) = some n)
      (hn : n ≤ maxValue 64) : SignedAs (.string ("0x+" ++ String.ofList (c :: cs))) n

def SignedQuantity (value : Json) : Prop := ∃ n, SignedAs value n

structure MeetsGrammar (value : Json) : Prop where
  accepts : ∀ n, quantity value = .ok n ↔ IsQuantity value n
  rejects : (∀ n, ¬IsQuantity value n) → ∃ text, quantity value = .error (.decode text)

def formatQuantity (n : Nat) : String := "0x" ++ String.ofList (Nat.toDigits 16 n)

theorem stripHexMarker_eq_some {s raw : String} :
    stripHexMarker s = some raw ↔ s = "0x" ++ raw := by
  rw [stripHexMarker, ← String.toList_inj, String.toList_append]
  change _ ↔ s.toList = '0' :: 'x' :: raw.toList
  split
  next digits heq =>
    rw [heq, Option.some.injEq, ← String.toList_inj, String.toList_ofList]
    simp
  next hno => exact ⟨fun h => (by cases h), fun h => absurd h (hno raw.toList)⟩

theorem lone_zero_iff (cs : List Char) :
    (String.ofList ('0' :: cs)).utf8ByteSize = 1 ↔ cs = [] := by
  have hsplit : String.ofList ('0' :: cs) = String.singleton '0' ++ String.ofList cs := by
    rw [← String.toList_inj, String.toList_append, String.toList_ofList, String.toList_ofList]
    rfl
  have hzero : (String.singleton '0').utf8ByteSize = 1 := by decide
  rw [hsplit, String.utf8ByteSize_append, hzero, ← String.ofList_eq_empty_iff,
    ← String.utf8ByteSize_eq_zero_iff]
  omega

theorem quantityDigits_eq_some {value : Json} {raw : String} :
    quantityDigits value = some raw ↔ value = .string ("0x" ++ raw) ∧
      (raw.toList = ['0'] ∨ ∃ c cs, raw.toList = c :: cs ∧ c ≠ '0') := by
  rw [quantityDigits, Option.filter_eq_some_iff, Option.bind_eq_some_iff, decide_eq_true_eq]
  have hvalue : (∃ s, value.asStr = some s ∧ stripHexMarker s = some raw) ↔
      value = .string ("0x" ++ raw) := by
    cases value <;> simp [Json.asStr, stripHexMarker_eq_some]
  have hform : (raw ≠ "" ∧ (raw.utf8ByteSize = 1 ∨ raw.front? ≠ some '0')) ↔
      (raw.toList = ['0'] ∨ ∃ c cs, raw.toList = c :: cs ∧ c ≠ '0') := by
    obtain ⟨cs, rfl⟩ : ∃ cs, raw = String.ofList cs := ⟨raw.toList, by simp⟩
    rw [String.front?_eq, String.toList_ofList]
    cases cs with
    | nil => simp
    | cons c cs =>
      by_cases hc : c = '0'
      · subst hc
        rw [lone_zero_iff]
        simp
      · simp [hc]
  rw [hvalue, hform]

theorem fromStrRadix_eq_some {raw : String} {n : Nat} :
    fromStrRadix 64 16 raw = some n ↔ ∃ c cs, unsignedDigits raw.toList = c :: cs ∧
      digitsValue 16 0 (c :: cs) = some n ∧ n ≤ maxValue 64 := by
  rw [fromStrRadix]
  split
  next heq => simp [heq]
  next hne =>
    obtain ⟨c, cs, heq⟩ := List.exists_cons_of_ne_nil hne
    rw [heq, Option.filter_eq_some_iff, decide_eq_true_eq]
    constructor
    · exact fun h => ⟨c, cs, rfl, h⟩
    · rintro ⟨_, _, heq', h⟩
      cases heq'
      exact h

theorem unsignedDigits_eq_cons {raw : List Char} {c : Char} {cs : List Char} (hc : c ≠ '+') :
    unsignedDigits raw = c :: cs ↔ raw = c :: cs ∨ raw = '+' :: c :: cs := by
  rw [unsignedDigits.eq_def]
  split
  next => simp [Ne.symm hc]
  next hno =>
    constructor
    · exact .inl
    · rintro (rfl | rfl)
      · rfl
      · exact absurd rfl (hno _)

theorem not_plus_of_digitsValue {c : Char} {cs : List Char} {n : Nat}
    (h : digitsValue 16 0 (c :: cs) = some n) : c ≠ '+' := by
  rintro rfl
  cases h

theorem quantity_parses {value : Json} {n : Nat} : quantity value = .ok n ↔
    ∃ raw, quantityDigits value = some raw ∧ fromStrRadix 64 16 raw = some n := by
  rw [quantity]
  cases quantityDigits value with
  | none => simp
  | some raw => cases hradix : fromStrRadix 64 16 raw <;> simp [hradix]

theorem quantity_spelled {value : Json} {n : Nat} (h : quantity value = .ok n) :
    IsQuantity value n ∨ SignedAs value n := by
  obtain ⟨raw, hraw, hradix⟩ := quantity_parses.mp h
  obtain ⟨rfl, hform⟩ := quantityDigits_eq_some.mp hraw
  obtain ⟨c, cs, hdigits, hvalue, hn⟩ := fromStrRadix_eq_some.mp hradix
  have hplain : ∀ ds, raw.toList = ds → raw = String.ofList ds := fun ds h => by simp [← h]
  rcases (unsignedDigits_eq_cons (not_plus_of_digitsValue hvalue)).mp hdigits with heq | heq
  · rw [hplain _ heq]
    rcases hform with hzero | ⟨d, ds, hlead, hd⟩
    · rw [heq] at hzero
      cases hzero
      cases hvalue
      exact .inl .zero
    · rw [heq] at hlead
      cases hlead
      exact .inl (.digits c cs n hd hvalue hn)
  · right
    have hsigned : "0x" ++ raw = "0x+" ++ String.ofList (c :: cs) := by
      rw [hplain _ heq, ← String.toList_inj]
      simp
    rw [hsigned]
    exact .plus c cs n hvalue hn

theorem quantity_of_grammar {value : Json} {n : Nat} (h : IsQuantity value n) :
    quantity value = .ok n := by
  rw [quantity_parses]
  cases h with
  | zero => exact ⟨"0", by decide, by decide⟩
  | digits c cs n hlead hvalue hn =>
    have hdigits : unsignedDigits (c :: cs) = c :: cs :=
      (unsignedDigits_eq_cons (not_plus_of_digitsValue hvalue)).mpr (.inl rfl)
    refine ⟨_, quantityDigits_eq_some.mpr ⟨rfl, .inr ⟨c, cs, by simp, hlead⟩⟩,
      fromStrRadix_eq_some.mpr ⟨c, cs, ?_, hvalue, hn⟩⟩
    rw [String.toList_ofList, hdigits]

theorem quantity_of_signed {value : Json} {n : Nat} (h : SignedAs value n) :
    quantity value = .ok n := by
  rw [quantity_parses]
  cases h with
  | plus c cs n hvalue hn =>
    have hdigits : unsignedDigits ('+' :: c :: cs) = c :: cs :=
      (unsignedDigits_eq_cons (not_plus_of_digitsValue hvalue)).mpr (.inr rfl)
    refine ⟨String.ofList ('+' :: c :: cs), quantityDigits_eq_some.mpr
      ⟨?_, .inr ⟨'+', c :: cs, by simp, by decide⟩⟩,
      fromStrRadix_eq_some.mpr ⟨c, cs, ?_, hvalue, hn⟩⟩
    · rw [Json.string.injEq, ← String.toList_inj]
      simp
    · rw [String.toList_ofList, hdigits]

theorem quantity_eq_ok {value : Json} {n : Nat} :
    quantity value = .ok n ↔ IsQuantity value n ∨ SignedAs value n :=
  ⟨quantity_spelled, fun h => h.elim quantity_of_grammar quantity_of_signed⟩

theorem quantity_error {value : Json} (h : ∀ n, quantity value ≠ .ok n) :
    ∃ text, quantity value = .error (.decode text) := by
  rw [quantity] at h ⊢
  split
  next => exact ⟨_, rfl⟩
  next heq =>
    rw [heq] at h
    split
    next => exact ⟨_, rfl⟩
    next n hn => exact absurd (by simp [hn]) (h n)

theorem signed_not_quantity {value : Json} {m : Nat} (hs : SignedAs value m) (n : Nat) :
    ¬IsQuantity value n := by
  intro hq
  cases hs with
  | plus c cs m hvalue hm =>
    generalize hstring : Json.string ("0x+" ++ String.ofList (c :: cs)) = value at hq
    cases hq with
    | zero =>
      rw [Json.string.injEq, ← String.toList_inj] at hstring
      simp at hstring
    | digits d ds n hlead hdigits hn =>
      rw [Json.string.injEq, ← String.toList_inj] at hstring
      simp only [String.toList_append, String.toList_ofList] at hstring
      cases hstring
      cases hdigits

theorem meetsGrammar_iff (value : Json) : MeetsGrammar value ↔ ¬SignedQuantity value := by
  constructor
  · rintro h ⟨n, hs⟩
    exact signed_not_quantity hs n ((h.accepts n).mp (quantity_eq_ok.mpr (.inr hs)))
  · intro h
    have hok : ∀ n, quantity value = .ok n ↔ IsQuantity value n := fun n =>
      quantity_eq_ok.trans (or_iff_left fun hs => h ⟨n, hs⟩)
    exact ⟨hok, fun hno => quantity_error fun n hn => hno n ((hok n).mp hn)⟩

theorem isQuantity_lowered {s : String} {n : Nat} (h : IsQuantity (.string s) n) :
    s.toList.map Char.toLower = (formatQuantity n).toList := by
  cases h with
  | zero => decide
  | digits c cs n hlead hvalue hn =>
    have hlower := (toLower_of_digitsValue (by decide) (by decide) hlead hvalue).2
    simp only [formatQuantity, String.toList_append, String.toList_ofList, List.map_append, hlower]
    rfl

theorem isQuantity_format {n : Nat} (hn : n ≤ maxValue 64) :
    IsQuantity (.string (formatQuantity n)) n := by
  by_cases hz : n = 0
  · subst hz
    exact .zero
  · obtain ⟨c, cs, heq, hlead⟩ : ∃ c cs, Nat.toDigits 16 n = c :: cs ∧ c ≠ '0' :=
      toDigits_leading (by decide) (by decide) (Nat.pos_of_ne_zero hz)
    have hvalue : digitsValue 16 0 (Nat.toDigits 16 n) = some n :=
      digitsValue_toDigits (by decide) (by decide) n
    rw [heq] at hvalue
    rw [formatQuantity, heq]
    exact .digits c cs n hlead hvalue hn

theorem quantity_meets_grammar_iff (value : Json) :
    (MeetsGrammar value ↔ ¬SignedQuantity value) ∧
    (∀ n ≤ maxValue 64, quantity (.string (formatQuantity n)) = .ok n) ∧
    ∀ s t n, ¬SignedQuantity (.string s) → ¬SignedQuantity (.string t) →
      quantity (.string s) = .ok n → quantity (.string t) = .ok n →
      s.toList.map Char.toLower = t.toList.map Char.toLower := by
  refine ⟨meetsGrammar_iff value, fun n hn => quantity_eq_ok.mpr (.inl (isQuantity_format hn)), ?_⟩
  intro s t n hs ht hsn htn
  have hsq := (((meetsGrammar_iff _).mpr hs).accepts n).mp hsn
  have htq := (((meetsGrammar_iff _).mpr ht).accepts n).mp htn
  rw [isQuantity_lowered hsq, isQuantity_lowered htq]

theorem mixed_case_meets_grammar : MeetsGrammar (.string "0xFf") := by
  refine (quantity_meets_grammar_iff (.string "0xFf")).1.mpr ?_
  rintro ⟨n, hs⟩
  generalize hstring : Json.string "0xFf" = value at hs
  cases hs with
  | plus c cs n hvalue hn =>
    rw [Json.string.injEq, ← String.toList_inj] at hstring
    simp at hstring

theorem signed_quantity_accepted :
    quantity (.string "0x+5") = .ok 5 ∧ ¬MeetsGrammar (.string "0x+5") := by
  refine ⟨by decide, fun h => (meetsGrammar_iff _).mp h ⟨5, ?_⟩⟩
  have hs : SignedAs (.string ("0x+" ++ String.ofList ['5'])) 5 := .plus '5' [] 5 (by decide) (by decide)
  exact hs

end SuperqueryNode.Evm

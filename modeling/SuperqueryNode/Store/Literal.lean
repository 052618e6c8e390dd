import Mathlib.Data.String.Basic
import SuperqueryNode.Lib.JsonText
import SuperqueryNode.Lib.SqlLiteral
import SuperqueryNode.Store.PlainModel

namespace SuperqueryNode.Store
open Sql JsonText

-- What the server makes of bound texts; a timestamp may depend on the moment of the statement.
structure Server (V : Type) where
  literal : Int → SqlType → String → Except StoreError V
  decode : String → Except StoreError V
  refusal : StoreError
  steady : ∀ now now' ty text, ty ≠ .timestamp → literal now ty text = literal now' ty text

-- What the server makes of stored values: `=`, the two renderings, and the order of texts.
structure Reader (V : Type) where
  same : V → V → Bool
  text : V → String
  hex : V → String
  collates : String → String → Bool
  same_refl : ∀ v, same v v = true
  same_symm : ∀ v w, same v w = true → same w v = true
  same_trans : ∀ v w x, same v w = true → same w x = true → same v x = true
  collates_total : ∀ a b, collates a b = true ∨ collates b a = true
  collates_trans : ∀ a b c, collates a b = true → collates b c = true → collates a c = true
  collates_antisymm : ∀ a b, collates a b = true → collates b a = true → a = b

namespace Placeholder

def result : Placeholder → SqlType
  | bare => .text
  | cast target => target
  | decodeHex => .bytea

def input {V : Type} (server : Server V) (now : Int) : Placeholder → String → Except StoreError V
  | bare, text => server.literal now .text text
  | cast target, text => server.literal now target text
  | decodeHex, text => server.decode text

theorem input_steady {V : Type} {server : Server V} {p : Placeholder} (h : p ≠ .cast .timestamp)
    (now now' : Int) (text : String) : p.input server now text = p.input server now' text := by
  cases p with
  | bare => exact server.steady now now' .text text (by decide)
  | cast target => exact server.steady now now' target text fun heq => h (heq ▸ rfl)
  | decodeHex => rfl

end Placeholder

def castTo : SqlType → Placeholder
  | .text => .bare
  | .bytea => .decodeHex
  | ty => .cast ty

theorem placeholder_castTo {f : EntityField} {ty : SqlType} (h : columnType f = .ok ty) :
    PlainModel.placeholder f = castTo ty := by
  rw [columnType] at h
  rw [PlainModel.placeholder]
  split_ifs at h ⊢ with harray
  · cases h
    rfl
  · split at h <;> cases h <;> simp_all [castTo]

theorem placeholder_result {f : EntityField} {ty : SqlType} (h : columnType f = .ok ty) :
    (PlainModel.placeholder f).result = ty := by
  rw [placeholder_castTo h]
  cases ty <;> rfl

theorem bytes_iff {f : EntityField} {ty : SqlType} (h : columnType f = .ok ty) :
    (f.baseType = "Bytes" ∧ f.isArray = false) ↔ ty = .bytea := by
  rw [columnType] at h
  split_ifs at h with harray
  · cases h
    simp [harray]
  · split at h <;> cases h <;> simp_all

theorem json_iff {f : EntityField} {ty : SqlType} (h : columnType f = .ok ty) :
    (f.baseType = "Json" ∨ f.isArray = true) ↔ ty = .jsonb := by
  rw [columnType] at h
  split_ifs at h with harray
  · cases h
    simp [harray]
  · split at h <;> cases h <;> simp_all

section Json
variable (floats : FloatText)

-- `Value::to_string`.
def display (v : Json) : String := String.ofList (print floats v)

def parseText (text : String) : Option Json := parse floats text.toList

-- No string and no key has a character that PostgreSQL's texts cannot hold.
def NulFree (v : Json) : Prop := ∀ s ∈ v.strings, '\x00' ∉ s.toList

instance (v : Json) : Decidable (NulFree v) := List.decidableBAll _ v.strings

variable {floats} {v : Json}

theorem parse_display (hv : v.WellFormed) : parseText floats (display floats v) = some v := by
  rw [parseText, display, String.toList_ofList, parse_print hv]

end Json

-- The values the columns hold, apart from how anything writes them.
inductive Datum where
  | text (s : String)
  | integer (n : Int)
  | numeric (q : ℚ)
  | double (bits : BitVec 64)
  | boolean (b : Bool)
  | bytes (bytes : List (BitVec 8))
  | timestamp (t : Timestamp)
  | json (v : Json)

section Values
variable (floats : FloatText)

def fits32 (n : Int) : Bool := -2 ^ 31 ≤ n && n < 2 ^ 31

def datumOf : SqlType → String → Option Datum
  | .text, s => if '\x00' ∈ s.toList then none else some (.text s)
  | .integer, s => ((integer s.toList).filter fits32).map .integer
  | .numeric, s => (decimal s.toList).map .numeric
  | .doublePrecision, s => ((floats.read s.toList).filter fun bits => decide (FiniteDouble bits)).map
    .double
  | .boolean, s => if s = "true" then some (.boolean true)
    else if s = "false" then some (.boolean false) else none
  | .bytea, s => (hexBytes s.toList).map .bytes
  | .timestamp, s => (timestamp s.toList).map .timestamp
  | .jsonb, s => ((parseText floats s).filter fun v => decide (NulFree v)).map .json

inductive Datum.Same : Datum → Datum → Prop
  | refl (d : Datum) : Same d d
  | json {v w : Json} : JsonText.Same floats v w → Same (.json v) (.json w)

def toInt : JsonNumber → Option Int
  | .posInt n => some n
  | .negInt i => some i
  | .float _ => none

inductive Means : SqlType → Json → Datum → Prop
  | text {s : String} : '\x00' ∉ s.toList → Means .text (.string s) (.text s)
  | integer {n : JsonNumber} {i : Int} : Valid n → toInt n = some i → fits32 i = true →
      Means .integer (.number n) (.integer i)
  | numeric {n : JsonNumber} {i : Int} : Valid n → toInt n = some i →
      Means .numeric (.number n) (.numeric i)
  | decimal {s : String} {q : ℚ} : decimal s.toList = some q →
      Means .numeric (.string s) (.numeric q)
  | double {n : JsonNumber} {bits : BitVec 64} : Valid n → asDouble floats n = some bits →
      FiniteDouble bits → Means .doublePrecision (.number n) (.double bits)
  | boolean (b : Bool) : Means .boolean (.bool b) (.boolean b)
  | bytes {s : String} {bytes : List (BitVec 8)} : hexBytes s.toList = some bytes →
      Means .bytea (.string s) (.bytes bytes)
  | marked {s : String} {digits : List Char} {bytes : List (BitVec 8)} :
      s.toList = '0' :: 'x' :: digits → hexBytes digits = some bytes →
      Means .bytea (.string s) (.bytes bytes)
  | timestamp {s : String} {t : Timestamp} : timestamp s.toList = some t →
      Means .timestamp (.string s) (.timestamp t)
  | json {v : Json} : v ≠ .null → v.WellFormed → NulFree v → Means .jsonb v (.json v)

def FieldMeans (f : EntityField) (v : Json) (d : Datum) : Prop :=
  (f.isArray = true → ∃ items, v = .array items) ∧
    ∃ ty, columnType f = .ok ty ∧ Means floats ty v d

variable {V : Type} (server : Server V) (reader : Reader V)

def Reader.shows (ty : SqlType) (x : V) : String :=
  if ty = .bytea then reader.hex x else reader.text x

def Shows (ty : SqlType) (x : V) (d : Datum) : Prop :=
  ∃ d', datumOf floats ty (reader.shows ty x) = some d' ∧ d'.Same floats d

-- What PostgreSQL documents of these types: a text that spells a value is taken, and the value
-- is rendered as a text that spells the same one.
structure Casts : Prop where
  text : ∀ now s, '\x00' ∉ s.toList → ∃ x, server.literal now .text s = .ok x ∧ reader.text x = s
  spelled : ∀ now ty s d, ty ∈ [.integer, .numeric, .boolean, .timestamp] →
    datumOf floats ty s = some d → ∃ x, server.literal now ty s = .ok x ∧ Shows floats reader ty x d
  double : ∀ now n bits, Valid n → asDouble floats n = some bits → FiniteDouble bits →
    ∃ x, server.literal now .doublePrecision (String.ofList (numberText floats n)) = .ok x ∧
      Shows floats reader .doublePrecision x (.double bits)
  bytes : ∀ s bytes, hexBytes s.toList = some bytes → ∃ x, server.decode s = .ok x ∧
    Shows floats reader .bytea x (.bytes bytes)
  json : ∀ now s v, parseText floats s = some v → v.WellFormed → NulFree v →
    ∃ x, server.literal now .jsonb s = .ok x ∧ Shows floats reader .jsonb x (.json v)

variable {floats server reader} {f : EntityField} {v : Json} {d : Datum} {ty : SqlType}

theorem fieldMeans_ne_null (h : FieldMeans floats f v d) : v ≠ .null := by
  obtain ⟨-, ty, -, hmeans⟩ := h
  cases hmeans with
  | json hnull => exact hnull
  | _ => exact nofun

theorem print_number (n : JsonNumber) :
    display floats (.number n) = String.ofList (numberText floats n) := by
  rw [display, print, tokens, texts, List.flatMap_singleton]
  rfl

theorem numberText_integer {n : JsonNumber} {i : Int} (hn : Valid n) (h : toInt n = some i) :
    integer (numberText floats n) = some i := by
  cases n with
  | posInt n =>
    cases h
    exact integer_toDigits n
  | negInt j =>
    cases h
    rw [numberText, integer_negative]
    have hneg := hn.2
    congr 1
    omega
  | float bits => cases h

theorem lt_wholeDigits {n : Nat} (h : n ≤ 2 ^ 64) : n < 10 ^ wholeDigits := by
  have hroom : 10 ^ 20 ≤ 10 ^ wholeDigits := Nat.pow_le_pow_right (by decide) (by decide)
  omega

theorem numberText_decimal {n : JsonNumber} {i : Int} (hn : Valid n) (h : toInt n = some i) :
    decimal (numberText floats n) = some (i : ℚ) := by
  cases n with
  | posInt n =>
    cases h
    rw [numberText, decimal_toDigits (lt_wholeDigits (Nat.le_of_lt hn))]
    rfl
  | negInt j =>
    obtain ⟨hlow, hneg⟩ := hn
    have hsmall : j.natAbs ≤ 2 ^ 64 := by omega
    have habs : i = -(j.natAbs : Int) := by
      rw [← Option.some.inj h]
      omega
    rw [numberText, decimal_negative (lt_wholeDigits hsmall), habs, Int.cast_neg, Int.cast_natCast]
  | float bits => cases h

section Encode
variable {s : String} {now : Int}

theorem encode_string (hty : columnType f = .ok ty) (hne : ty ≠ .bytea) (harray : f.isArray = false) :
    PlainModel.encode (display floats) f (.string s) = some s := by
  rw [PlainModel.encode, if_neg fun hbytes => hne ((bytes_iff hty).mp ⟨hbytes, harray⟩)]

theorem single_of_type (hty : columnType f = .ok ty) (hne : ty ≠ .jsonb) : f.isArray = false := by
  cases harray : f.isArray with
  | false => rfl
  | true => exact absurd ((json_iff hty).mp (.inr harray)) hne

theorem shows_text {x : V} (htext : '\x00' ∉ s.toList) (hx : reader.text x = s) :
    Shows floats reader .text x (.text s) := by
  refine ⟨.text s, ?_, .refl _⟩
  rw [Reader.shows, if_neg (by decide), hx, datumOf, if_neg htext]

theorem hex_of_marked {digits : List Char} (hs : s.toList = '0' :: 'x' :: digits) :
    (PlainModel.stripHexPrefix s).toList = digits := by
  simp only [PlainModel.stripHexPrefix, hs, String.toList_ofList]

theorem hex_of_plain {bytes : List (BitVec 8)} (h : hexBytes s.toList = some bytes) :
    PlainModel.stripHexPrefix s = s := by
  unfold PlainModel.stripHexPrefix
  split
  next digits hs =>
    rw [hs, hexBytes] at h
    cases h
  next => rfl

theorem encode_means (hcasts : Casts floats server reader) (hty : columnType f = .ok ty)
    (hmeans : FieldMeans floats f v d) (hjson : f.baseType = "Json" → f.isArray = true) (now : Int) :
    ∃ text x, PlainModel.encode (display floats) f v = some text ∧
      (PlainModel.placeholder f).input server now text = .ok x ∧ Shows floats reader ty x d := by
  obtain ⟨hlist, ty', hty', hmeans⟩ := hmeans
  obtain rfl : ty = ty' := Except.ok.inj (hty.symm.trans hty')
  rw [placeholder_castTo hty]
  cases hmeans with
  | @text s hs =>
    obtain ⟨x, hx, htext⟩ := hcasts.text now s hs
    exact ⟨s, x, encode_string hty (by decide) (single_of_type hty (by decide)), hx,
      shows_text hs htext⟩
  | @integer n i hn hi hfits =>
    obtain ⟨x, hx, hshows⟩ := hcasts.spelled now .integer (display floats (.number n)) (.integer i)
      (by decide) (by
        rw [print_number, datumOf, String.toList_ofList, numberText_integer hn hi]
        simp [hfits])
    exact ⟨_, x, rfl, hx, hshows⟩
  | @numeric n i hn hi =>
    obtain ⟨x, hx, hshows⟩ := hcasts.spelled now .numeric (display floats (.number n)) (.numeric i)
      (by decide) (by
        rw [print_number, datumOf, String.toList_ofList, numberText_decimal hn hi]
        rfl)
    exact ⟨_, x, rfl, hx, hshows⟩
  | @decimal s q hq =>
    obtain ⟨x, hx, hshows⟩ := hcasts.spelled now .numeric s (.numeric q) (by decide) (by
      rw [datumOf, hq, Option.map_some])
    exact ⟨s, x, encode_string hty (by decide) (single_of_type hty (by decide)), hx, hshows⟩
  | @double n bits hn hbits hfinite =>
    obtain ⟨x, hx, hshows⟩ := hcasts.double now n bits hn hbits hfinite
    exact ⟨_, x, congrArg some (print_number n), hx, hshows⟩
  | boolean b =>
    obtain ⟨x, hx, hshows⟩ := hcasts.spelled now .boolean (if b then "true" else "false")
      (.boolean b) (by decide) (by cases b <;> rfl)
    exact ⟨_, x, rfl, hx, hshows⟩
  | @bytes s bytes hs =>
    obtain ⟨x, hx, hshows⟩ := hcasts.bytes s bytes hs
    obtain ⟨hbytes, -⟩ := (bytes_iff hty).mpr rfl
    refine ⟨s, x, ?_, hx, hshows⟩
    rw [PlainModel.encode, if_pos hbytes, hex_of_plain hs]
  | @marked s digits bytes hs hdigits =>
    obtain ⟨x, hx, hshows⟩ := hcasts.bytes (PlainModel.stripHexPrefix s) bytes (by
      rw [hex_of_marked hs, hdigits])
    obtain ⟨hbytes, -⟩ := (bytes_iff hty).mpr rfl
    refine ⟨_, x, ?_, hx, hshows⟩
    rw [PlainModel.encode, if_pos hbytes]
  | @timestamp s t ht =>
    obtain ⟨x, hx, hshows⟩ := hcasts.spelled now .timestamp s (.timestamp t) (by decide) (by
      rw [datumOf, ht, Option.map_some])
    exact ⟨s, x, encode_string hty (by decide) (single_of_type hty (by decide)), hx, hshows⟩
  | @json v hnull hv hnul =>
    obtain ⟨items, rfl⟩ : ∃ items, v = .array items :=
      hlist (((json_iff hty).mpr rfl).elim hjson id)
    obtain ⟨x, hx, hshows⟩ := hcasts.json now _ _ (parse_display hv) hv hnul
    exact ⟨_, x, rfl, hx, hshows⟩

end Encode

theorem shows_json {x : V} (h : Shows floats reader .jsonb x (.json v)) :
    ∃ stored, parseText floats (reader.text x) = some stored ∧ JsonText.Same floats stored v := by
  obtain ⟨d, hd, hsame⟩ := h
  rw [Reader.shows, if_neg (by decide), datumOf] at hd
  obtain ⟨stored, hstored, rfl⟩ := Option.map_eq_some_iff.mp hd
  refine ⟨stored, (Option.filter_eq_some_iff.mp hstored).1, ?_⟩
  cases hsame with
  | refl => exact same_refl floats _
  | json hsame => exact hsame

end Values

section Fixture

-- Doubles as integers with a point: enough for values that hold none.
def plainFloats : FloatText where
  write bits := Nat.toDigits 10 bits.toNat ++ ['.', '0']
  read text := (numeral text).map fun r => BitVec.ofNat 64 r.whole
  written bits _ := ⟨_, numeral_point bits.toNat, rfl⟩
  read_write bits _ := by
    rw [numeral_point, Option.map_some, BitVec.ofNat_toNat, BitVec.setWidth_eq]

def textServer (floats : FloatText) : Server String where
  literal _ ty s := if (datumOf floats ty s).isSome then .ok s
    else .error (.postgres ("invalid input syntax for type " ++ ty.keyword))
  decode s := if (hexBytes s.toList).isSome then .ok s
    else .error (.postgres "invalid hexadecimal data")
  refusal := .postgres "statement rejected"
  steady _ _ _ _ _ := rfl

def textReader : Reader String where
  same := (· == ·)
  text := id
  hex := id
  collates := fun a b => decide (a ≤ b)
  same_refl := fun v => beq_self_eq_true v
  same_symm := fun v w h => beq_iff_eq.mpr (beq_iff_eq.mp h).symm
  same_trans := fun v w x h h' => beq_iff_eq.mpr ((beq_iff_eq.mp h).trans (beq_iff_eq.mp h'))
  collates_total := fun a b => by simpa using le_total a b
  collates_trans := fun a b c => by simpa using le_trans
  collates_antisymm := fun a b => by simpa using le_antisymm

variable {floats : FloatText}

theorem literal_taken {now : Int} {ty : SqlType} {s : String}
    (h : (datumOf floats ty s).isSome = true) : (textServer floats).literal now ty s = .ok s :=
  if_pos h

theorem literal_refused {now : Int} {ty : SqlType} {s : String}
    (h : (datumOf floats ty s).isSome = false) : (textServer floats).literal now ty s =
      .error (.postgres ("invalid input syntax for type " ++ ty.keyword)) :=
  if_neg (by rw [h]; exact Bool.false_ne_true)

theorem literal_datum {now : Int} {ty : SqlType} {s : String} {d : Datum}
    (h : datumOf floats ty s = some d) : (textServer floats).literal now ty s = .ok s :=
  literal_taken (by rw [h]; rfl)

theorem shows_datum {ty : SqlType} {s : String} {d : Datum} (h : datumOf floats ty s = some d) :
    Shows floats textReader ty s d := by
  refine ⟨d, ?_, .refl d⟩
  rw [Reader.shows]
  split_ifs <;> exact h

theorem text_casts (floats : FloatText) : Casts floats (textServer floats) textReader where
  text now s hs := ⟨s, literal_datum (if_neg hs), rfl⟩
  spelled now ty s d _ h := ⟨s, literal_datum h, shows_datum h⟩
  double now n bits _ hbits hfinite := by
    have hread : datumOf floats .doublePrecision (String.ofList (numberText floats n)) =
        some (.double bits) := by
      have hbits : floats.read (numberText floats n) = some bits := hbits
      simp [datumOf, hbits, hfinite]
    exact ⟨_, literal_datum hread, shows_datum hread⟩
  bytes s bytes h := by
    have hread : datumOf floats .bytea s = some (.bytes bytes) := by
      rw [datumOf, h, Option.map_some]
    exact ⟨s, if_pos (by rw [h]; rfl), shows_datum hread⟩
  json now s v h _ hnul := by
    have hread : datumOf floats .jsonb s = some (.json v) := by simp [datumOf, h, hnul]
    exact ⟨s, literal_datum hread, shows_datum hread⟩

end Fixture

end SuperqueryNode.Store

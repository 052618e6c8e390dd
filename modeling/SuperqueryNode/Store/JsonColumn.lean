import SuperqueryNode.Store.Batch
import SuperqueryNode.Store.Query

namespace SuperqueryNode.Store
open JsonText

section Column
variable {V : Type} (floats : FloatText)

-- What PostgreSQL documents of the type jsonb.
structure StoresJson (server : Server V) (reader : Reader V) : Prop where
  stored : ∀ now text v, parseText floats text = some v → v.WellFormed → NulFree v →
    ∃ x w, server.literal now .jsonb text = .ok x ∧
      parseText floats (reader.text x) = some w ∧ Same floats w v
  refused : ∀ now text v, parseText floats text = some v → v.WellFormed → ¬ NulFree v →
    ∃ e, server.literal now .jsonb text = .error e

variable (server : Server V) (reader : Reader V)

def Survives (field : EntityField) (v : Json) : Prop :=
  ∃ text, PlainModel.encode (display floats) field v = some text ∧ parseText floats text = some v ∧
    ∀ now, ∃ x w, (PlainModel.placeholder field).input server now text = .ok x ∧
      parseText floats (if (PlainModel.selectExpr field "").hex then reader.hex x
        else reader.text x) = some w ∧ Same floats w v

variable {floats server reader} {field : EntityField} {v : Json}

theorem jsonb_field (h : columnType field = .ok .jsonb) :
    PlainModel.placeholder field = .cast .jsonb ∧
      ∀ col, (PlainModel.selectExpr field col).hex = false := by
  cases harray : field.isArray with
  | true => simp [PlainModel.placeholder, PlainModel.selectExpr, harray]
  | false =>
    have hjson : field.baseType = "Json" := by
      simp only [columnType, harray, Bool.false_eq_true, if_false] at h
      split at h <;> first | assumption | cases h
    simp [PlainModel.placeholder, PlainModel.selectExpr, harray, hjson]

theorem encode_display (hnull : v ≠ .null) (hstring : ∀ s, v ≠ .string s) :
    PlainModel.encode (display floats) field v = some (display floats v) := by
  cases v with
  | null => exact absurd rfl hnull
  | bool b => cases b <;> rfl
  | string s => exact absurd rfl (hstring s)
  | _ => rfl

theorem stripHexPrefix_length (s : String) : (PlainModel.stripHexPrefix s).length ≤ s.length := by
  unfold PlainModel.stripHexPrefix
  split
  next digits hs =>
    rw [String.length_ofList, ← String.length_toList, hs]
    exact Nat.le_add_right _ 2
  next => exact Nat.le_refl _

-- A string is bound as it is, too short to be its own text.
theorem encode_string_shorter {s text : String}
    (h : PlainModel.encode (display floats) field (.string s) = some text) :
    parseText floats text ≠ some (.string s) := by
  intro hparse
  have hlonger := parse_string hparse
  rw [String.length_toList] at hlonger
  have hshorter : text.length ≤ s.length := by
    cases h
    split_ifs
    · exact stripHexPrefix_length s
    · exact Nat.le_refl _
  omega

theorem json_survives_iff (hserver : StoresJson floats server reader)
    (hfield : columnType field = .ok .jsonb) (hv : v.WellFormed) (hnull : v ≠ .null) :
    Survives floats server reader field v ↔ (∀ s, v ≠ .string s) ∧ NulFree v := by
  obtain ⟨hcast, hhex⟩ := jsonb_field hfield
  have hread (x : V) : (if (PlainModel.selectExpr field "").hex then reader.hex x
      else reader.text x) = reader.text x := by
    rw [hhex, if_neg Bool.false_ne_true]
  constructor
  · rintro ⟨text, htext, hparse, hstores⟩
    obtain ⟨x, w, hstored, -⟩ := hstores 0
    constructor
    · rintro s rfl
      exact encode_string_shorter htext hparse
    · by_contra hnul
      obtain ⟨e, he⟩ := hserver.refused 0 text v hparse hv hnul
      rw [hcast, Placeholder.input, he] at hstored
      cases hstored
  · rintro ⟨hstring, hnul⟩
    have hparse : parseText floats (display floats v) = some v := parse_display hv
    refine ⟨display floats v, encode_display hnull hstring, hparse, fun now => ?_⟩
    obtain ⟨x, w, hstored, hback, hsame⟩ := hserver.stored now _ v hparse hv hnul
    refine ⟨x, w, ?_, ?_, hsame⟩
    · rw [hcast, Placeholder.input, hstored]
    · rw [hread, hback]

end Column

section Fixture

theorem plainServer_stores : StoresJson plainFloats plainServer textReader where
  stored now text v hparse _ hnul :=
    ⟨text, v, literal_taken (by simp [datumOf, hparse, hnul]), hparse, same_refl plainFloats v⟩
  refused now text v hparse _ hnul :=
    ⟨_, literal_refused (by simp [datumOf, hparse, hnul])⟩

def tagsField : EntityField := ⟨"tags", "String", true, false⟩

def payloadField : EntityField := ⟨"payload", "Json", false, false⟩

theorem tags_survive : Survives plainFloats plainServer textReader tagsField
    (.array [.string "a", .number (.posInt 1)]) := by
  refine (json_survives_iff plainServer_stores rfl (.array ?_) nofun).mpr ⟨nofun, by decide⟩
  exact List.forall_mem_cons.mpr ⟨.string "a",
    List.forall_mem_singleton.mpr (.number (by decide))⟩

theorem string_comes_back_number :
    ¬ (∀ field v, columnType field = .ok .jsonb → v.WellFormed → v ≠ .null →
      Survives plainFloats plainServer textReader field v) ∧
    PlainModel.encode (display plainFloats) payloadField (.string "1") = some "1" ∧
    (PlainModel.placeholder payloadField).input plainServer 0 "1" = .ok "1" ∧
    parseText plainFloats (textReader.text "1") = some (.number (.posInt 1)) := by
  refine ⟨fun h => ?_, rfl, rfl, rfl⟩
  obtain ⟨text, htext, hparse, -⟩ := h payloadField (.string "1") rfl (.string "1") nofun
  exact encode_string_shorter htext hparse

end Fixture

end SuperqueryNode.Store

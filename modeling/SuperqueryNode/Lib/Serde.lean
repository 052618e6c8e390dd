import Mathlib.Data.Option.Basic
import SuperqueryNode.Lib.Json

structure Codec (A : Type) where
  toValue : A → Json
  fromValue : Json → Option A
  fromValue_toValue : ∀ a, fromValue (toValue a) = some a

namespace Codec
variable {A : Type}

def string : Codec String := ⟨Json.string, Json.asStr, fun _ => rfl⟩

def toOption (c : Codec A) : Option A → Json
  | none => .null
  | some a => c.toValue a

def fromOption (c : Codec A) : Json → Option (Option A)
  | .null => some none
  | v => (c.fromValue v).map some

-- `None` is `null`, so no present value may be written as `null`.
def option (c : Codec A) (present : ∀ a, c.toValue a ≠ .null) : Codec (Option A) where
  toValue := c.toOption
  fromValue := c.fromOption
  fromValue_toValue := by
    rintro (_ | a)
    · rfl
    · have hpresent := present a
      have hread := c.fromValue_toValue a
      rw [toOption]
      cases hvalue : c.toValue a with
      | null => exact absurd hvalue hpresent
      | _ =>
        rw [hvalue] at hread
        rw [fromOption, hread, Option.map_some]
        simp

def list (c : Codec A) : Codec (List A) where
  toValue l := .array (l.map c.toValue)
  fromValue v := v.asArray.bind fun items => items.mapM c.fromValue
  fromValue_toValue := by
    intro l
    simp only [Json.asArray, Option.bind_some]
    induction l with
    | nil => rfl
    | cons a l ih =>
      rw [List.map_cons, List.mapM_cons, c.fromValue_toValue, ih]
      rfl

def optionString : Codec (Option String) := string.option fun _ h => by cases h

-- A field of type `Option` that is missing from an object is `None`.
def optionField (c : Codec (Option A)) (fields : List (String × Json)) (key : String) :
    Option (Option A) :=
  match fields.lookup key with
  | none => some none
  | some v => c.fromValue v

def defaultField (c : Codec A) (default : A) (fields : List (String × Json)) (key : String) :
    Option A :=
  match fields.lookup key with
  | none => some default
  | some v => c.fromValue v

end Codec

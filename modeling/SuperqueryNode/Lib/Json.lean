import Mathlib.Data.List.Defs

inductive JsonNumber where
  | posInt (n : Nat)
  | negInt (n : Int)
  | float (bits : BitVec 64)
deriving DecidableEq, Repr

inductive Json where
  | null
  | bool (b : Bool)
  | number (n : JsonNumber)
  | string (s : String)
  | array (items : List Json)
  | object (fields : List (String × Json))

namespace Json

-- Reading a missing key, or a key of something that is no object, gives `null`.
def get (j : Json) (key : String) : Json :=
  match j with
  | object fields => (fields.lookup key).getD null
  | _ => null

def isNull : Json → Bool
  | null => true
  | _ => false

def asBool : Json → Option Bool
  | bool b => some b
  | _ => none

def asStr : Json → Option String
  | string s => some s
  | _ => none

def asArray : Json → Option (List Json)
  | array items => some items
  | _ => none

@[simp] theorem asArray_eq_some {j : Json} {items : List Json} :
    j.asArray = some items ↔ j = array items := by
  cases j <;> simp [asArray]

end Json

import GatedForms.Binary64
import GatedForms.KeyMap

/-! # JSON values

The values of a form, and the documents that describe forms, are JSON. Members of an object are
kept sorted by their keys, so two objects with the same members are the same list.
-/

namespace GatedForms

/-- A JSON value. Whole numbers and numbers with a fraction are different values: `1` is not
    `1.0`. -/
inductive Json where
  | null
  | bool (b : Bool)
  | int (n : Int)
  | float (x : Binary64)
  | text (s : String)
  | array (items : List Json)
  /-- Members in ascending order of their keys. -/
  | object (members : List (String × Json))
  deriving Inhabited

namespace Json

/-- An object from its members; of equal keys the last one stays. -/
def ofMembers (members : List (String × Json)) : Json := .object (KeyMap.ofList members)

/-- An object from members that may be absent. -/
def ofOptionalMembers (members : List (Option (String × Json))) : Json :=
  ofMembers (members.filterMap id)

def member? (key : String) : Json → Option Json
  | .object members => KeyMap.find? key members
  | _ => none

def item? (index : Nat) : Json → Option Json
  | .array items => items[index]?
  | _ => none

/-- The array stored here; anything else counts as an empty one. -/
def itemsOrEmpty : Option Json → List Json
  | some (.array items) => items
  | _ => []

mutual

/-- Equality of values. It differs from identity only in that the two floating-point zeros are
    equal. -/
def same : Json → Json → Bool
  | .null, .null => true
  | .bool a, .bool b => a == b
  | .int a, .int b => a == b
  | .float a, .float b => a.same b
  | .text a, .text b => a == b
  | .array a, .array b => sameItems a b
  | .object a, .object b => sameMembers a b
  | _, _ => false

def sameItems : List Json → List Json → Bool
  | [], [] => true
  | a :: as, b :: bs => same a b && sameItems as bs
  | _, _ => false

def sameMembers : List (String × Json) → List (String × Json) → Bool
  | [], [] => true
  | (k, a) :: as, (l, b) :: bs => k == l && same a b && sameMembers as bs
  | _, _ => false

end

def occursIn (value : Json) (items : List Json) : Bool := items.any fun item => same item value

end Json

end GatedForms

import GatedForms.Json.Basic
import GatedForms.Path

/-! # The tree of form values

The values of a form are one JSON object. A path reads, writes or removes a value in it. Writing
creates the objects and arrays on the way, and replaces whatever else stands in their place.
-/

namespace GatedForms

namespace Json

/-- The value at some steps below this one. -/
def get? : List Segment → Json → Option Json
  | [], value => some value
  | .key name :: rest, value => (value.member? name).bind (get? rest)
  | .index position :: rest, value => (value.item? position).bind (get? rest)

/-- Members of an object; anything else has none. -/
def membersOrEmpty : Option Json → List (String × Json)
  | some (.object members) => members
  | _ => []

/-- Elements padded with nulls, so that there is one at `position`. -/
def padded (items : List Json) (position : Nat) : List Json :=
  items ++ List.replicate (position + 1 - items.length) .null

/-- The value that stands in the place of `old` after `value` is written some steps below it. -/
def write (value : Json) : List Segment → Option Json → Json
  | [], _ => value
  | .key name :: rest, old =>
      let members := membersOrEmpty old
      .object (KeyMap.insert name (write value rest (KeyMap.find? name members)) members)
  | .index position :: rest, old =>
      let items := itemsOrEmpty old
      .array ((padded items position).set position (write value rest items[position]?))

/-- Remove the value at some steps below this one: the value removed, and what is left. There is
    none if nothing stands there. Elements of an array move down. -/
def remove? : List Segment → Json → Option (Json × Json)
  | [], _ => none
  | [.key name], .object members =>
      (KeyMap.find? name members).map fun removed => (removed, .object (KeyMap.erase name members))
  | [.index position], .array items =>
      items[position]?.map fun removed => (removed, .array (items.eraseIdx position))
  | .key name :: rest, .object members => do
      let child ← KeyMap.find? name members
      let (removed, left) ← remove? rest child
      return (removed, .object (KeyMap.insert name left members))
  | .index position :: rest, .array items => do
      let child ← items[position]?
      let (removed, left) ← remove? rest child
      return (removed, .array (items.set position left))
  | _, _ => none

end Json

/-- The values of a form: the members of the root object. -/
structure Values where
  members : List (String × Json)

namespace Values

def empty : Values := ⟨[]⟩

/-- The values of a document; anything but an object starts an empty tree. -/
def ofJson : Json → Values
  | .object members => ⟨members⟩
  | _ => empty

/-- The tree as one value. -/
def toJson (values : Values) : Json := .object values.members

def get? (values : Values) (path : Path) : Option Json :=
  (KeyMap.find? path.root values.members).bind (Json.get? path.below)

def set (values : Values) (path : Path) (value : Json) : Values :=
  ⟨KeyMap.insert path.root
    (Json.write value path.below (KeyMap.find? path.root values.members)) values.members⟩

/-- Remove the value at a path: the value, and the tree without it. A path at which nothing stands
    leaves the tree alone. -/
def remove (values : Values) (path : Path) : Option Json × Values :=
  match Json.remove? path.segments values.toJson with
  | some (removed, .object members) => (some removed, ⟨members⟩)
  | _ => (none, values)

/-- Why a path cannot be written at all. -/
inductive PaddingFault where
  /-- The length of a padded array, one more than the index, does not fit 64 bits. -/
  | lengthOverflow (position : Nat)
  /-- No memory holds an array of this length. -/
  | tooLong (position : Nat)
  deriving Repr, DecidableEq, BEq

/-- Arrays are shorter than this bound, `2 ^ 58`. -/
def lengthBound : Nat := 0x400000000000000

/-- Length to which an array is padded for an index. -/
def paddedLength (position : Nat) : Except PaddingFault Nat :=
  if Text.naturalBound ≤ position + 1 then .error (.lengthOverflow position)
  else if lengthBound ≤ position + 1 then .error (.tooLong position)
  else .ok (position + 1)

/-- The first index of a path to which no array can be padded. -/
def paddingFault? : List Segment → Option PaddingFault
  | [] => none
  | .key _ :: rest => paddingFault? rest
  | .index position :: rest =>
      match paddedLength position with
      | .error fault => some fault
      | .ok _ => paddingFault? rest

/-- Write a value at a path whose arrays can be padded. -/
def trySet (values : Values) (path : Path) (value : Json) : Except PaddingFault Values :=
  match paddingFault? path.below with
  | some fault => .error fault
  | none => .ok (values.set path value)

end Values

end GatedForms

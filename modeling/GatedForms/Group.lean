import GatedForms.Directive

/-! # Dynamic groups

The value of a dynamic group is an array with one record per repetition. Repetitions are appended at
the end and removed anywhere.
-/

namespace GatedForms

/-- Why a group cannot be changed. -/
inductive GroupError where
  /-- The field is no dynamic group. -/
  | notDynamic (field : String)
  /-- The field has no name. -/
  | unbound (field : String)
  /-- There is no such repetition. -/
  | outOfRange (path : String) (index length : Nat)
  deriving Repr, DecidableEq, BEq

namespace GroupError

def message : GroupError → String
  | .notDynamic field => "field `" ++ field ++ "` is not a dynamic group"
  | .unbound field => "field `" ++ field ++ "` has no name to bind values to"
  | .outOfRange path index length =>
      "repetition " ++ toString index ++ " out of range for `" ++ path ++ "` (len "
        ++ toString length ++ ")"

end GroupError

namespace Field

/-- The path and the template of a dynamic group. -/
def group (f : Field) : Except GroupError (Path × List NestedField) :=
  match f.kind with
  | .dynamic nested _ =>
      match f.name with
      | some path => .ok (path, nested)
      | none => .error (.unbound f.displayName)
  | _ => .error (.notDynamic f.displayName)

end Field

namespace Values

def records (values : Values) (path : Path) : List Json := Json.itemsOrEmpty (values.get? path)

end Values

namespace Field

def repetitionCount (f : Field) (values : Values) : Except GroupError Nat := do
  let (path, _) ← f.group
  return (values.records path).length

/-- The path at which the next repetition is written, and its index. -/
def nextRepetition (f : Field) (values : Values) : Except GroupError (Nat × Path) := do
  let (path, _) ← f.group
  let index := (values.records path).length
  return (index, path.index index)

/-- Append an empty repetition: its index, and the values with it. -/
def appendRepetition (f : Field) (values : Values) : Except GroupError (Nat × Values) := do
  let (index, path) ← f.nextRepetition values
  return (index, values.set path (.object []))

/-- Remove a repetition; later ones move down. The record removed, and the values without it. -/
def removeRepetition (f : Field) (values : Values) (index : Nat) :
    Except GroupError (Json × Values) := do
  let (path, _) ← f.group
  let length := (values.records path).length
  if length ≤ index then .error (.outOfRange path.display index length)
  else
    let (removed, left) := values.remove (path.index index)
    return (removed.getD .null, left)

/-- The repetitions of a group as they are shown. -/
def resolveGroup (viewer : Viewer) (values : Values) (messages : Messages) (f : Field) :
    Except GroupError (List Repetition) := do
  let (path, nested) ← f.group
  let locked := f.isLockedFor viewer
  return (List.range (values.records path).length).map fun i =>
    ⟨i, path.index i, NestedField.resolveAll viewer values messages (path.index i) locked (i == 0)
      nested⟩

end Field

end GatedForms

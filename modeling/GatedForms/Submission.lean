import GatedForms.Directive

/-! # Submission payloads

What a form submits is a tree of its own: the values of all bound fields that the viewer may edit,
with revealed fields only while they are revealed.
-/

namespace GatedForms

namespace Json

/-- A record of a dynamic group without the values at some paths. -/
def strip (locked : List Path) : Json → Json
  | .object members =>
      (locked.foldl (fun left path => (left.remove path).2) (⟨members⟩ : Values)).toJson
  | value => value

end Json

/-- Names of the nested fields that a viewer may not edit. -/
def NestedField.lockedNames (viewer : Viewer) (nested : List NestedField) : List Path :=
  nested.filterMap fun spec => if spec.field.isLockedFor viewer then spec.field.name else none

mutual

/-- What a field adds to the payload: paths and values, in the order in which they are written. A
    radio adds what its selected option reveals before its own value. -/
def Field.entries (viewer : Viewer) (values : Values) : Field → List (Path × Json)
  | ⟨none, _, _, _, _⟩ => []
  | ⟨some name, _, _, adminOnly, kind⟩ =>
      if adminOnly && !viewer.isPrivileged then []
      else FieldKind.entries viewer values name kind

/-- What a field of some kind adds to the payload. -/
def FieldKind.entries (viewer : Viewer) (values : Values) (name : Path) :
    FieldKind → List (Path × Json)
  | .text _ _ => [(name, (values.get? name).getD .null)]
  | .radio options =>
      let current := (values.get? name).getD .null
      FieldOption.revealedEntries viewer values current options ++ [(name, current)]
  | .checkbox _ => [(name, (values.get? name).getD .null)]
  | .toggle => [(name, .bool (Json.isTruthy (values.get? name)))]
  | .dynamic nested _ =>
      let locked := NestedField.lockedNames viewer nested
      [(name, .array ((Json.itemsOrEmpty (values.get? name)).map (Json.strip locked)))]
  | .button _ _ => []
  | .static _ => []

/-- What the first option with the current value reveals adds to the payload. -/
def FieldOption.revealedEntries (viewer : Viewer) (values : Values) (current : Json) :
    List FieldOption → List (Path × Json)
  | [] => []
  | ⟨_, value, reveals⟩ :: rest =>
      if value.same current then
        match reveals with
        | some f => Field.entries viewer values f
        | none => []
      else FieldOption.revealedEntries viewer values current rest

end

namespace Schema

/-- What all fields add to the payload, in order. -/
def entries (viewer : Viewer) (values : Values) (s : Schema) : List (Path × Json) :=
  s.fields.flatMap (Field.entries viewer values)

def submission (viewer : Viewer) (values : Values) (s : Schema) : Values :=
  (s.entries viewer values).foldl (fun payload entry => payload.set entry.1 entry.2) Values.empty

end Schema

end GatedForms

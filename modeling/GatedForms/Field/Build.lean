import GatedForms.Field.Basic

/-! # Building fields in code

One constructor per kind. Where a field needs a name, the name is read as a key-only path.
-/

namespace GatedForms.Field

/-- A field without tooltip that anyone may edit. -/
def ofKind (name : Option Path) (label : String) (kind : FieldKind) : Field :=
  ⟨name, label, none, false, kind⟩

/-- A field of some kind with a name. -/
def named (name label : String) (kind : FieldKind) : Except PathError Field := do
  let path ← Path.parseName name
  return ofKind (some path) label kind

/-- A line of text. -/
def text (name label : String) : Except PathError Field :=
  named name label (.text .plain none)

/-- A text field for numbers. -/
def number (name label : String) : Except PathError Field :=
  named name label (.text .number none)

/-- A choice between options. -/
def radio (name label : String) (options : List FieldOption) : Except PathError Field :=
  named name label (.radio options)

/-- A single box to check. -/
def checkbox (name label : String) : Except PathError Field :=
  named name label (.checkbox none)

/-- A switch. -/
def toggle (name label : String) : Except PathError Field :=
  named name label .toggle

/-- A repeatable group. -/
def dynamic (name label : String) (nested : List NestedField) (addButtonLabel : String) :
    Except PathError Field :=
  named name label (.dynamic nested addButtonLabel)

/-- A button whose id is derived from its place. -/
def button (label : String) (action : ButtonAction) : Field :=
  ofKind none label (.button action none)

def static (content : String) : Field :=
  ofKind none "" (.static content)

def withTooltip (f : Field) (tooltip : String) : Field := { f with tooltip := some tooltip }

/-- The same button with an id of its own; fields of other kinds stay as they are. -/
def withId (f : Field) (id : ButtonId) : Field :=
  match f.kind with
  | .button action _ => { f with kind := .button action (some id) }
  | _ => f

end GatedForms.Field

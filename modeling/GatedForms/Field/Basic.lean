import GatedForms.Json.Basic
import GatedForms.Path

/-! # Fields of a form

A field has a name that binds it to the value tree, a label, and one of seven kinds. Options of a
radio may reveal a further field, and a dynamic group repeats a template of nested fields.
-/

namespace GatedForms

/-- What a button does. -/
inductive ButtonAction where
  | next
  | previous
  | submit
  | custom
  deriving Repr, DecidableEq, BEq

namespace ButtonAction

/-- All actions, in the order in which they are listed. -/
def all : List ButtonAction := [.next, .previous, .submit, .custom]

/-- Name of an action in documents and button ids. -/
def name : ButtonAction → String
  | .next => "NEXT"
  | .previous => "PREVIOUS"
  | .submit => "SUBMIT"
  | .custom => "CUSTOM"

def ofName? (name : String) : Option ButtonAction := all.find? fun action => action.name = name

/-- Whether the form is validated before the action runs. -/
def validates : ButtonAction → Bool
  | .next => true
  | .submit => true
  | .previous => false
  | .custom => false

end ButtonAction

/-- How a text field is edited. -/
inductive TextInput where
  | plain
  | number
  /-- Hidden on screen only; the stored value is plain. -/
  | secret
  | multiline
  deriving Repr, DecidableEq, BEq

namespace TextInput

/-- All inputs, in the order in which they are listed. -/
def all : List TextInput := [.plain, .number, .secret, .multiline]

def name : TextInput → String
  | .plain => "plain"
  | .number => "number"
  | .secret => "secret"
  | .multiline => "multiline"

def ofName? (name : String) : Option TextInput := all.find? fun input => input.name = name

end TextInput

/-- Identifies a button within one form. -/
abbrev ButtonId := String

namespace ButtonId

/-- Id of a button that is declared without one, by its place and its action. -/
def derived (sectionIndex fieldIndex : Nat) (action : ButtonAction) : ButtonId :=
  toString sectionIndex ++ ":" ++ toString fieldIndex ++ ":" ++ action.name

end ButtonId

mutual

/-- Declarative description of a form field. -/
structure Field where
  /-- Place in the value tree. -/
  name : Option Path
  label : String
  tooltip : Option String
  /-- Only privileged viewers may edit the field. Set by gating. -/
  adminOnly : Bool
  kind : FieldKind

/-- The kinds of fields, each with what only it has. -/
inductive FieldKind where
  | text (input : TextInput) (placeholder : Option String)
  /-- One of several values. -/
  | radio (options : List FieldOption)
  /-- A boolean, or with options an array of the checked values. -/
  | checkbox (options : Option (List FieldOption))
  /-- A boolean that is never absent. -/
  | toggle
  /-- An array of records, each with the nested fields. -/
  | dynamic (nested : List NestedField) (addButtonLabel : String)
  | button (action : ButtonAction) (id : Option ButtonId)
  /-- Text without a value. -/
  | static (content : String)

/-- One selectable value. -/
structure FieldOption where
  label : String
  value : Json
  /-- Field shown while this option of a radio is selected. -/
  reveals : Option Field

/-- A field in the template of a dynamic group. -/
structure NestedField where
  field : Field
  /-- The first repetition shows the field read-only. -/
  disableOnFirst : Bool

end

/-- Kind of a field without its parts. -/
inductive KindTag where
  | text
  | radio
  | checkbox
  | toggle
  | dynamic
  | button
  | static
  deriving Repr, DecidableEq, BEq

namespace KindTag

/-- All kinds, in the order in which they are listed. -/
def all : List KindTag := [.text, .radio, .checkbox, .toggle, .dynamic, .button, .static]

def name : KindTag → String
  | .text => "text"
  | .radio => "radio"
  | .checkbox => "checkbox"
  | .toggle => "toggle"
  | .dynamic => "dynamic"
  | .button => "button"
  | .static => "static"

def ofName? (name : String) : Option KindTag := all.find? fun tag => tag.name = name

/-- Whether fields of this kind hold a value, and so need a name. -/
def isBound : KindTag → Bool
  | .button => false
  | .static => false
  | _ => true

/-- Whether fields of this kind may stand in a dynamic group. -/
def canBeNested : KindTag → Bool
  | .dynamic => false
  | .button => false
  | _ => true

end KindTag

namespace FieldKind

def tag : FieldKind → KindTag
  | .text _ _ => .text
  | .radio _ => .radio
  | .checkbox _ => .checkbox
  | .toggle => .toggle
  | .dynamic _ _ => .dynamic
  | .button _ _ => .button
  | .static _ => .static

end FieldKind

namespace Field

def tag (f : Field) : KindTag := f.kind.tag

/-- Whether the field holds a value. -/
def isBound (f : Field) : Bool := f.tag.isBound

def isButton (f : Field) : Bool := f.tag == .button

def isDynamic (f : Field) : Bool := f.tag == .dynamic

/-- What error messages call the field: its name, else its label, else its kind. -/
def displayName (f : Field) : String :=
  match f.name with
  | some name => name.display
  | none => if f.label.isEmpty then "<" ++ f.tag.name ++ ">" else f.label

/-- Whether the printed name of the field is `name`. -/
def hasName (f : Field) (name : String) : Bool := f.name.any fun path => path.display = name

/-- Options of a radio or of a checkbox that has some. -/
def options? (f : Field) : Option (List FieldOption) :=
  match f.kind with
  | .radio options => some options
  | .checkbox options => options
  | _ => none

end Field

namespace FieldOption

/-- The first option whose value equals `value`. -/
def select? (options : List FieldOption) (value : Json) : Option FieldOption :=
  options.find? fun option => option.value.same value

end FieldOption

mutual

/-- Equality of fields; option values are compared as values. -/
def Field.same : Field → Field → Bool
  | ⟨n, l, t, a, k⟩, ⟨n', l', t', a', k'⟩ =>
      n == n' && l == l' && t == t' && a == a' && FieldKind.same k k'

/-- Equality of kinds with all their parts. -/
def FieldKind.same : FieldKind → FieldKind → Bool
  | .text i p, .text i' p' => i == i' && p == p'
  | .radio os, .radio os' => FieldOption.sameAll os os'
  | .checkbox none, .checkbox none => true
  | .checkbox (some os), .checkbox (some os') => FieldOption.sameAll os os'
  | .toggle, .toggle => true
  | .dynamic ns l, .dynamic ns' l' => NestedField.sameAll ns ns' && l == l'
  | .button a i, .button a' i' => a == a' && i == i'
  | .static c, .static c' => c == c'
  | _, _ => false

def FieldOption.sameAll : List FieldOption → List FieldOption → Bool
  | [], [] => true
  | ⟨l, v, none⟩ :: os, ⟨l', v', none⟩ :: os' => l == l' && v.same v' && FieldOption.sameAll os os'
  | ⟨l, v, some f⟩ :: os, ⟨l', v', some f'⟩ :: os' =>
      l == l' && v.same v' && Field.same f f' && FieldOption.sameAll os os'
  | _, _ => false

def NestedField.sameAll : List NestedField → List NestedField → Bool
  | [], [] => true
  | ⟨f, d⟩ :: ns, ⟨f', d'⟩ :: ns' => Field.same f f' && d == d' && NestedField.sameAll ns ns'
  | _, _ => false

end

end GatedForms

import GatedForms.Messages
import GatedForms.Schema.Basic
import GatedForms.Values

/-! # Render directives

A directive tells a renderer everything about one field: where its value goes, what it shows and
whether it can be edited. It is computed from the field, the viewer, the values and the messages
alone.
-/

namespace GatedForms

/-- Who looks at a form. -/
structure Viewer where
  isPrivileged : Bool
  deriving Repr, DecidableEq, BEq

/-- What stands in the place of the label. -/
inductive LabelSlot where
  | inline (label : String)
  /-- The tooltip takes the place; the label stands beside the info marker. -/
  | tooltip (tooltip label : String)
  deriving Repr, DecidableEq, BEq

/-- Message of a field. -/
inductive FieldMessage where
  /-- The viewer may not edit the field. -/
  | adminOnly
  /-- A validation message. -/
  | invalid (text : String)
  deriving Repr, DecidableEq, BEq

namespace FieldMessage

def display : FieldMessage → String
  | .adminOnly => "(Admin only field)"
  | .invalid text => text

end FieldMessage

/-- An option as it is shown. -/
structure OptionView where
  label : String
  value : Json

mutual

/-- What to show for one field. -/
structure Directive where
  /-- Place in the value tree that a change goes to; none for buttons and static text. -/
  path : Option Path
  label : LabelSlot
  message : Option FieldMessage
  editable : Bool
  /-- The field is admin-only and the viewer is not privileged. -/
  adminLocked : Bool
  body : DirectiveBody

/-- What to show for a field of each kind. -/
inductive DirectiveBody where
  | text (value : Json) (input : TextInput) (placeholder : Option String)
  /-- Position of the selected option, and the field that it reveals. -/
  | radio (options : List OptionView) (selected : Option Nat) (revealed : Option Field)
  /-- Positions of the checked options. -/
  | checkbox (value : Json) (options : List OptionView) (checked : List Nat)
  | toggle (isOn : Bool)
  | dynamic (addButtonLabel : String) (repetitions : List Repetition)
  | button (id : Option ButtonId) (action : ButtonAction)
  | static (content : String)

/-- One record of a dynamic group. -/
structure Repetition where
  index : Nat
  path : Path
  fields : List Directive

end

/-- What to show for a section. -/
structure SectionDirective where
  title : Option String
  backendKey : String
  layout : SectionLayout
  fields : List Directive

namespace Json

/-- Whether a toggle with this stored value is on: absent values, null, false, zero and the texts
    `""` and `"false"` are off. -/
def isTruthy : Option Json → Bool
  | none => false
  | some .null => false
  | some (.bool b) => b
  | some (.int n) => n ≠ 0
  | some (.float x) => !x.isZero
  | some (.text s) => s ≠ "" ∧ s ≠ "false"
  | some (.array _) => true
  | some (.object _) => true

end Json

namespace FieldOption

def view (option : FieldOption) : OptionView := ⟨option.label, option.value⟩

/-- Position of the first option whose value equals `value`. -/
def selected? (options : List FieldOption) (value : Json) : Option Nat :=
  options.findIdx? fun option => option.value.same value

/-- Positions of the options whose values occur in a stored array, counted from `position`. -/
def checkedFrom (position : Nat) (items : List Json) : List FieldOption → List Nat
  | [] => []
  | option :: rest =>
      if option.value.occursIn items then position :: checkedFrom (position + 1) items rest
      else checkedFrom (position + 1) items rest

end FieldOption

namespace Field

def labelSlot (label : String) : Option String → LabelSlot
  | some tooltip => .tooltip tooltip label
  | none => .inline label

/-- Whether a viewer is kept from editing a field. -/
def isLockedFor (viewer : Viewer) (f : Field) : Bool := f.adminOnly && !viewer.isPrivileged

/-- The message of a field that is shown at a path: the admin-only marker takes precedence. -/
def messageAt (adminLocked : Bool) (messages : Messages) (path : Option Path) :
    Option FieldMessage :=
  if adminLocked then some .adminOnly
  else path.bind fun p => (messages.get? p.display).map .invalid

end Field

mutual

/-- The directive of a field that is bound to `path`; `locked` makes it read-only. -/
def Field.resolveAt (viewer : Viewer) (values : Values) (messages : Messages)
    (path : Option Path) (locked : Bool) : Field → Directive
  | ⟨_, label, tooltip, adminOnly, kind⟩ =>
      let adminLocked := adminOnly && !viewer.isPrivileged
      { path := if kind.tag.isBound then path else none
        label := Field.labelSlot label tooltip
        message := Field.messageAt adminLocked messages path
        editable := !adminLocked && !locked && kind.tag != .static
        adminLocked := adminLocked
        body := FieldKind.bodyAt viewer values messages path (adminLocked || locked) kind }

/-- The body of a field of some kind that is bound to `path`. -/
def FieldKind.bodyAt (viewer : Viewer) (values : Values) (messages : Messages)
    (path : Option Path) (locked : Bool) : FieldKind → DirectiveBody
  | .text input placeholder => .text ((path.bind values.get?).getD .null) input placeholder
  | .radio options =>
      let selected := FieldOption.selected? options ((path.bind values.get?).getD .null)
      .radio (options.map FieldOption.view) selected
        (selected.bind fun position => options[position]?.bind FieldOption.reveals)
  | .checkbox options =>
      let stored := path.bind values.get?
      let options := options.getD []
      .checkbox (stored.getD .null) (options.map FieldOption.view)
        (FieldOption.checkedFrom 0 (Json.itemsOrEmpty stored) options)
  | .toggle => .toggle (Json.isTruthy (path.bind values.get?))
  | .dynamic nested addButtonLabel =>
      match path with
      | none => .dynamic addButtonLabel []
      | some group =>
          let count := (Json.itemsOrEmpty (values.get? group)).length
          .dynamic addButtonLabel ((List.range count).map fun i =>
            ⟨i, group.index i, NestedField.resolveAll viewer values messages (group.index i) locked
              (i == 0) nested⟩)
  | .button action id => .button id action
  | .static content => .static content

/-- The directives of the nested fields of one repetition. -/
def NestedField.resolveAll (viewer : Viewer) (values : Values) (messages : Messages)
    (base : Path) (locked isFirst : Bool) : List NestedField → List Directive
  | [] => []
  | ⟨f, disableOnFirst⟩ :: rest =>
      Field.resolveAt viewer values messages (f.name.map base.join)
          (locked || (isFirst && disableOnFirst)) f
        :: NestedField.resolveAll viewer values messages base locked isFirst rest

end

namespace Field

/-- The directive of a field that is bound to its own name. -/
def resolve (viewer : Viewer) (values : Values) (messages : Messages) (f : Field) : Directive :=
  f.resolveAt viewer values messages f.name false

/-- The directive of the field that the selected option of a radio reveals. There is none while
    nothing is stored for the radio. -/
def resolveRevealed? (viewer : Viewer) (values : Values) (messages : Messages) (f : Field) :
    Option Directive :=
  match f.kind with
  | .radio options => do
      let current ← f.name.bind values.get?
      let option ← FieldOption.select? options current
      let revealed ← option.reveals
      return revealed.resolve viewer values messages
  | _ => none

end Field

namespace FormSection

def resolve (viewer : Viewer) (values : Values) (messages : Messages) (s : FormSection) :
    SectionDirective :=
  ⟨s.title, s.backendKey, s.layout, s.fields.map (Field.resolve viewer values messages)⟩

end FormSection

namespace Schema

def resolve (viewer : Viewer) (values : Values) (messages : Messages) (s : Schema) :
    List SectionDirective :=
  s.sections.map (FormSection.resolve viewer values messages)

end Schema

end GatedForms

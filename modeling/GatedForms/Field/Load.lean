import GatedForms.Load

/-! # Loading fields

The members that all fields have are read first, then the kind, and then the members that only this
kind has. Members that mean nothing to the kind are passed over.
-/

namespace GatedForms

/-- What was read so far of the members that all fields have. -/
structure CommonParts where
  name : Option (Option Path) := none
  label : Option String := none
  tooltip : Option (Option String) := none
  adminOnly : Option Bool := none

namespace CommonParts

/-- Read one member. Members of the kind must be readable, but are not converted yet. -/
def step (parts : CommonParts) (key : String) (doc : Document) : Except LoadError CommonParts :=
  match key with
  | "name" => do
      Document.once key parts.name
      let name ← doc.loadOptionalPath
      .ok { parts with name := some name }
  | "label" => do
      Document.once key parts.label
      let label ← doc.loadText
      .ok { parts with label := some label }
  | "tooltip" => do
      Document.once key parts.tooltip
      let tooltip ← doc.loadOptionalText
      .ok { parts with tooltip := some tooltip }
  | "admin_only" => do
      Document.once key parts.adminOnly
      let adminOnly ← doc.loadBool
      .ok { parts with adminOnly := some adminOnly }
  | _ => do
      let _ ← doc.loadJson
      .ok parts

end CommonParts

namespace KindTag

def names : List String := all.map name

/-- Read a kind, by its name or by its place in the list of kinds. -/
def load : Document → Except LoadError KindTag
  | .text name =>
      match ofName? name with
      | some tag => .ok tag
      | none => .error (.unknownName name names)
  | .int n =>
      if n < 0 then .error .wrongType
      else match all[n.toNat]? with
        | some tag => .ok tag
        | none => .error .wrongType
  | doc => doc.wrongType

/-- Read the kind among the members of a field. -/
def loadFrom (found : Option KindTag) :
    List (Option String × Document) → Except LoadError KindTag
  | [] => Document.required "kind" found
  | (some "kind", doc) :: rest => do
      Document.once "kind" found
      let tag ← load doc
      loadFrom (some tag) rest
  | _ :: rest => loadFrom found rest

end KindTag

/-- What was read so far of the members of a kind. -/
structure KindParts where
  input : Option TextInput := none
  placeholder : Option (Option String) := none
  options : Option (Option (List FieldOption)) := none
  nested : Option (List NestedField) := none
  addButtonLabel : Option String := none
  action : Option ButtonAction := none
  id : Option (Option ButtonId) := none
  content : Option String := none

namespace KindParts

/-- Read one member that does not hold fields. -/
def step (tag : KindTag) (parts : KindParts) (key : String) (doc : Document) :
    Except LoadError KindParts :=
  match tag, key with
  | .text, "input" => do
      Document.once key parts.input
      let input ← doc.loadName TextInput.ofName? (TextInput.all.map TextInput.name)
      .ok { parts with input := some input }
  | .text, "placeholder" => do
      Document.once key parts.placeholder
      let placeholder ← doc.loadOptionalText
      .ok { parts with placeholder := some placeholder }
  | .dynamic, "add_button_label" => do
      Document.once key parts.addButtonLabel
      let label ← doc.loadText
      .ok { parts with addButtonLabel := some label }
  | .button, "action" => do
      Document.once key parts.action
      let action ← doc.loadName ButtonAction.ofName? (ButtonAction.all.map ButtonAction.name)
      .ok { parts with action := some action }
  | .button, "id" => do
      Document.once key parts.id
      let id ← doc.loadOptionalText
      .ok { parts with id := some id }
  | .static, "content" => do
      Document.once key parts.content
      let content ← doc.loadText
      .ok { parts with content := some content }
  | _, _ => .ok parts

/-- The kind of the members read. -/
def finish (parts : KindParts) : KindTag → Except LoadError FieldKind
  | .text => .ok (.text (parts.input.getD .plain) (parts.placeholder.getD none))
  | .radio => do
      let options ← Document.required "options" parts.options
      .ok (.radio (options.getD []))
  | .checkbox => .ok (.checkbox (parts.options.getD none))
  | .toggle => .ok .toggle
  | .dynamic => do
      let nested ← Document.required "nested_fields" parts.nested
      let label ← Document.required "add_button_label" parts.addButtonLabel
      .ok (.dynamic nested label)
  | .button => do
      let action ← Document.required "action" parts.action
      .ok (.button action (parts.id.getD none))
  | .static => do
      let content ← Document.required "content" parts.content
      .ok (.static content)

end KindParts

/-- What was read so far of an option. -/
structure OptionParts where
  label : Option String := none
  value : Option Json := none
  reveals : Option (Option Field) := none

namespace OptionParts

/-- The option of the members read. -/
def finish (parts : OptionParts) : Except LoadError FieldOption := do
  let label ← Document.required "label" parts.label
  let value ← Document.required "value" parts.value
  .ok ⟨label, value, parts.reveals.getD none⟩

end OptionParts

/-- The mark for the first repetition among the members of a nested field. -/
def NestedField.loadMark (found : Option Bool) :
    List (Option String × Document) → Except LoadError Bool
  | [] => .ok (found.getD false)
  | (some "disable_on_first", doc) :: rest => do
      Document.once "disable_on_first" found
      let mark ← doc.loadBool
      NestedField.loadMark (some mark) rest
  | _ :: rest => NestedField.loadMark found rest

mutual

def Field.load : Document → Except LoadError Field
  | .object members stop => do
      let common ← Document.loadMembers CommonParts.step {} members
      Document.close stop
      let tag ← KindTag.loadFrom none members
      let parts ← KindParts.load tag {} members
      let kind ← parts.finish tag
      .ok ⟨common.name.getD none, common.label.getD "", common.tooltip.getD none,
        common.adminOnly.getD false, kind⟩
  | doc => doc.wrongType

def KindParts.load (tag : KindTag) (parts : KindParts) :
    List (Option String × Document) → Except LoadError KindParts
  | [] => .ok parts
  | (some "options", doc) :: rest =>
      match tag, doc with
      | .radio, .array items stop => do
          Document.once "options" parts.options
          let options ← FieldOption.loadAll items
          Document.close stop
          KindParts.load tag { parts with options := some (some options) } rest
      | .radio, doc => do
          Document.once "options" parts.options
          doc.wrongType
      | .checkbox, .array items stop => do
          Document.once "options" parts.options
          let options ← FieldOption.loadAll items
          Document.close stop
          KindParts.load tag { parts with options := some (some options) } rest
      | .checkbox, .null => do
          Document.once "options" parts.options
          KindParts.load tag { parts with options := some none } rest
      | .checkbox, doc => do
          Document.once "options" parts.options
          doc.wrongType
      | _, _ => KindParts.load tag parts rest
  | (some "nested_fields", doc) :: rest =>
      match tag, doc with
      | .dynamic, .array items stop => do
          Document.once "nested_fields" parts.nested
          let nested ← NestedField.loadAll items
          Document.close stop
          KindParts.load tag { parts with nested := some nested } rest
      | .dynamic, doc => do
          Document.once "nested_fields" parts.nested
          doc.wrongType
      | _, _ => KindParts.load tag parts rest
  | (some key, doc) :: rest => do
      let next ← parts.step tag key doc
      KindParts.load tag next rest
  | (none, _) :: _ => .error (.text .malformed)

def FieldOption.loadAll : List Document → Except LoadError (List FieldOption)
  | [] => .ok []
  | item :: rest => do
      let option ← FieldOption.load item
      let others ← FieldOption.loadAll rest
      .ok (option :: others)

/-- Load an option, from a record or from the list of its members. -/
def FieldOption.load : Document → Except LoadError FieldOption
  | .object members stop => do
      let parts ← OptionParts.load {} members
      Document.close stop
      parts.finish
  | .array [] _ => .error .wrongType
  | .array [label] _ => do
      let _ ← label.loadText
      .error .wrongType
  | .array [label, value] stop => do
      let label ← label.loadText
      let value ← value.loadJson
      Document.close stop
      .ok ⟨label, value, none⟩
  | .array (label :: value :: reveals :: more) stop => do
      let label ← label.loadText
      let value ← value.loadJson
      let reveals ← match reveals with
        | .null => .ok none
        | other => (Field.load other).map some
      Document.close stop
      if more.isEmpty then .ok ⟨label, value, reveals⟩ else .error .wrongType
  | doc => doc.wrongType

def OptionParts.load (parts : OptionParts) :
    List (Option String × Document) → Except LoadError OptionParts
  | [] => .ok parts
  | (some "label", doc) :: rest => do
      Document.once "label" parts.label
      let label ← doc.loadText
      OptionParts.load { parts with label := some label } rest
  | (some "value", doc) :: rest => do
      Document.once "value" parts.value
      let value ← doc.loadJson
      OptionParts.load { parts with value := some value } rest
  | (some "reveals", doc) :: rest => do
      Document.once "reveals" parts.reveals
      let reveals ← match doc with
        | .null => .ok none
        | other => (Field.load other).map some
      OptionParts.load { parts with reveals := some reveals } rest
  | (some _, _) :: rest => OptionParts.load parts rest
  | (none, _) :: _ => .error (.text .malformed)

def NestedField.loadAll : List Document → Except LoadError (List NestedField)
  | [] => .ok []
  | item :: rest => do
      let nested ← NestedField.load item
      let others ← NestedField.loadAll rest
      .ok (nested :: others)

/-- Load a nested field: the mark for the first repetition, then the field. -/
def NestedField.load : Document → Except LoadError NestedField
  | .object members stop => do
      let mark ← NestedField.loadMark none members
      let common ← Document.loadMembers CommonParts.step {} members
      Document.close stop
      let tag ← KindTag.loadFrom none members
      let parts ← KindParts.load tag {} members
      let kind ← parts.finish tag
      let f : Field := ⟨common.name.getD none, common.label.getD "", common.tooltip.getD none,
        common.adminOnly.getD false, kind⟩
      .ok ⟨f, mark⟩
  | doc => doc.wrongType

end

end GatedForms

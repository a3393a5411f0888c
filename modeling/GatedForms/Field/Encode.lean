import GatedForms.Field.Basic

/-! # Documents of fields

What is absent is left out of the document, and so is the admin-only mark of a field without it.
-/

namespace GatedForms

/-- A text member that may be absent. -/
def Json.optionalText (key : String) (value : Option String) : Option (String × Json) :=
  value.map fun s => (key, .text s)

/-- The members that fields of all kinds have. -/
def Field.commonMembers (name : Option Path) (label : String) (tooltip : Option String)
    (adminOnly : Bool) (tag : KindTag) : List (Option (String × Json)) :=
  [ Json.optionalText "name" (name.map Path.display)
  , some ("label", .text label)
  , Json.optionalText "tooltip" tooltip
  , if adminOnly then some ("admin_only", .bool true) else none
  , some ("kind", .text tag.name) ]

mutual

/-- The members of the document of a field. -/
def Field.members : Field → List (Option (String × Json))
  | ⟨name, label, tooltip, adminOnly, kind⟩ =>
      Field.commonMembers name label tooltip adminOnly kind.tag ++ FieldKind.members kind

/-- The members that only fields of one kind have. -/
def FieldKind.members : FieldKind → List (Option (String × Json))
  | .text input placeholder =>
      [some ("input", .text input.name), Json.optionalText "placeholder" placeholder]
  | .radio options => [some ("options", .array (FieldOption.allToJson options))]
  | .checkbox none => []
  | .checkbox (some options) => [some ("options", .array (FieldOption.allToJson options))]
  | .toggle => []
  | .dynamic nested addButtonLabel =>
      [ some ("nested_fields", .array (NestedField.allToJson nested))
      , some ("add_button_label", .text addButtonLabel) ]
  | .button action id => [some ("action", .text action.name), Json.optionalText "id" id]
  | .static content => [some ("content", .text content)]

/-- The members of the document of an option. -/
def FieldOption.members : FieldOption → List (Option (String × Json))
  | ⟨label, value, none⟩ => [some ("label", .text label), some ("value", value)]
  | ⟨label, value, some f⟩ =>
      [ some ("label", .text label), some ("value", value)
      , some ("reveals", Json.ofOptionalMembers (Field.members f)) ]

def FieldOption.allToJson : List FieldOption → List Json
  | [] => []
  | option :: rest =>
      Json.ofOptionalMembers (FieldOption.members option) :: FieldOption.allToJson rest

/-- The members of the document of a nested field. -/
def NestedField.members : NestedField → List (Option (String × Json))
  | ⟨f, disableOnFirst⟩ => some ("disable_on_first", .bool disableOnFirst) :: Field.members f

def NestedField.allToJson : List NestedField → List Json
  | [] => []
  | nested :: rest =>
      Json.ofOptionalMembers (NestedField.members nested) :: NestedField.allToJson rest

end

def Field.toJson (f : Field) : Json := Json.ofOptionalMembers f.members

def NestedField.toJson (nested : NestedField) : Json := Json.ofOptionalMembers nested.members

end GatedForms

import GatedForms.Directive
import GatedForms.Field.Encode

/-! # Documents of render directives -/

namespace GatedForms

def Json.nat (n : Nat) : Json := .int n

/-- A text, or null. -/
def Json.textOrNull : Option String → Json
  | some s => .text s
  | none => .null

def LabelSlot.toJson : LabelSlot → Json
  | .inline label => Json.ofMembers [("slot", .text "inline"), ("label", .text label)]
  | .tooltip hint label =>
      Json.ofMembers
        [("slot", .text "tooltip"), ("tooltip", .text hint), ("label", .text label)]

def FieldMessage.toJson : FieldMessage → Json
  | .adminOnly => Json.ofMembers [("type", .text "admin_only")]
  | .invalid text => Json.ofMembers [("type", .text "invalid"), ("text", .text text)]

/-- The document of an option that is shown. -/
def OptionView.toJson (option : OptionView) : Json :=
  Json.ofMembers [("label", .text option.label), ("value", option.value)]

/-- An array that is left out if it is empty. -/
def Json.optionalArray (key : String) (items : List Json) : Option (String × Json) :=
  if items.isEmpty then none else some (key, .array items)

mutual

def Directive.toJson : Directive → Json
  | ⟨path, label, message, editable, adminLocked, body⟩ =>
      Json.ofOptionalMembers
        [ some ("path", Json.textOrNull (path.map Path.display))
        , some ("label", label.toJson)
        , message.map fun shown => ("message", shown.toJson)
        , some ("editable", .bool editable)
        , some ("admin_locked", .bool adminLocked)
        , some ("body", DirectiveBody.toJson body) ]

def DirectiveBody.toJson : DirectiveBody → Json
  | .text value input placeholder =>
      Json.ofOptionalMembers
        [ some ("kind", .text "text"), some ("value", value), some ("input", .text input.name)
        , Json.optionalText "placeholder" placeholder ]
  | .radio options selected revealed =>
      Json.ofOptionalMembers
        [ some ("kind", .text "radio")
        , some ("options", .array (options.map OptionView.toJson))
        , some ("selected", (selected.map Json.nat).getD .null)
        , revealed.map fun f => ("revealed", f.toJson) ]
  | .checkbox value options checked =>
      Json.ofOptionalMembers
        [ some ("kind", .text "checkbox"), some ("value", value)
        , Json.optionalArray "options" (options.map OptionView.toJson)
        , Json.optionalArray "checked" (checked.map Json.nat) ]
  | .toggle isOn => Json.ofMembers [("kind", .text "toggle"), ("on", .bool isOn)]
  | .dynamic addButtonLabel repetitions =>
      Json.ofMembers
        [ ("kind", .text "dynamic"), ("add_button_label", .text addButtonLabel)
        , ("repetitions", .array (Repetition.allToJson repetitions)) ]
  | .button id action =>
      Json.ofMembers
        [("kind", .text "button"), ("id", Json.textOrNull id), ("action", .text action.name)]
  | .static content => Json.ofMembers [("kind", .text "static"), ("content", .text content)]

def Repetition.allToJson : List Repetition → List Json
  | [] => []
  | ⟨index, path, fields⟩ :: rest =>
      Json.ofMembers
        [ ("index", Json.nat index), ("path", .text path.display)
        , ("fields", .array (Directive.allToJson fields)) ]
        :: Repetition.allToJson rest

def Directive.allToJson : List Directive → List Json
  | [] => []
  | directive :: rest => Directive.toJson directive :: Directive.allToJson rest

end

/-- The document of the directives of a section. -/
def SectionDirective.toJson (s : SectionDirective) : Json :=
  Json.ofMembers
    [ ("title", Json.textOrNull s.title)
    , ("backend_key", .text s.backendKey)
    , ("layout", .text s.layout.name)
    , ("fields", .array (Directive.allToJson s.fields)) ]

end GatedForms

import GatedForms.Field.Basic

/-! # Checking fields

A schema is refused if one of its fields cannot work: a radio without options, a group without
nested fields, a value without a name. Errors name the first thing wrong in document order.
-/

namespace GatedForms

/-- Why a schema is refused. -/
inductive SchemaError where
  /-- A field name holds an index. -/
  | invalidName (sectionKey : String) (cause : PathError)
  /-- A radio has no options. -/
  | missingOptions (field : String)
  /-- An option of a checkbox reveals a field. -/
  | revealOnCheckbox (field : String)
  /-- A dynamic group has no nested fields. -/
  | missingNestedFields (field : String)
  /-- A field that holds a value has no name. -/
  | missingName (field : String) (kind : KindTag)
  /-- A dynamic group or a button stands in a dynamic group. -/
  | unsupportedNestedKind (field : String) (kind : KindTag)
  /-- Two sections have the same key. -/
  | duplicateSection (sectionKey : String)
  /-- Two buttons have the same id. -/
  | duplicateButton (id : ButtonId)
  deriving Repr, DecidableEq, BEq

namespace SchemaError

def message : SchemaError → String
  | .invalidName sectionKey cause =>
      "invalid field name in section `" ++ sectionKey ++ "`: " ++ cause.message
  | .missingOptions field => "radio field `" ++ field ++ "` has no options"
  | .revealOnCheckbox field =>
      "checkbox field `" ++ field ++ "` has an option that reveals a field; only radio options can"
  | .missingNestedFields field => "dynamic field `" ++ field ++ "` has no nested fields"
  | .missingName field kind =>
      "field `" ++ field ++ "` of kind `" ++ kind.name ++ "` must have a name"
  | .unsupportedNestedKind field kind =>
      "field `" ++ field ++ "` of kind `" ++ kind.name ++ "` cannot be nested in a dynamic group"
  | .duplicateSection sectionKey => "duplicate section backend key: " ++ sectionKey
  | .duplicateButton id => "duplicate button id: " ++ id

end SchemaError

namespace Field

/-- A field that has a name has a key-only one. -/
def checkName (sectionKey : String) (f : Field) : Except SchemaError Unit :=
  match f.name with
  | none => .ok ()
  | some name =>
      match name.checkKeyOnly with
      | .ok () => .ok ()
      | .error cause => .error (.invalidName sectionKey cause)

/-- A field that holds a value has a name. -/
def checkBound (f : Field) : Except SchemaError Unit :=
  if f.isBound && f.name.isNone then .error (.missingName f.displayName f.tag) else .ok ()

end Field

mutual

/-- Check a field of a section and all fields in it: first its own name, then its parts, last that
    it has a name if it needs one. -/
def Field.check (sectionKey : String) : Field → Except SchemaError Unit
  | ⟨name, label, tooltip, adminOnly, kind⟩ => do
      let f : Field := ⟨name, label, tooltip, adminOnly, kind⟩
      f.checkName sectionKey
      kind.check sectionKey f.displayName
      f.checkBound

/-- Check what only the kind of a field has. -/
def FieldKind.check (sectionKey : String) (owner : String) : FieldKind → Except SchemaError Unit
  | .radio options =>
      if options.isEmpty then .error (.missingOptions owner)
      else FieldOption.checkRevealed sectionKey options
  | .dynamic nested _ =>
      if nested.isEmpty then .error (.missingNestedFields owner)
      else NestedField.checkAll sectionKey nested
  | .checkbox (some options) =>
      if options.any fun option => option.reveals.isSome then .error (.revealOnCheckbox owner)
      else .ok ()
  | _ => .ok ()

def FieldOption.checkRevealed (sectionKey : String) : List FieldOption → Except SchemaError Unit
  | [] => .ok ()
  | ⟨_, _, none⟩ :: rest => FieldOption.checkRevealed sectionKey rest
  | ⟨_, _, some f⟩ :: rest => do
      f.check sectionKey
      FieldOption.checkRevealed sectionKey rest

/-- Check the nested fields of a dynamic group. -/
def NestedField.checkAll (sectionKey : String) : List NestedField → Except SchemaError Unit
  | [] => .ok ()
  | ⟨f, _⟩ :: rest => do
      if f.tag.canBeNested then f.check sectionKey
      else .error (.unsupportedNestedKind f.displayName f.tag)
      NestedField.checkAll sectionKey rest

end

end GatedForms

import GatedForms.Field.Check

/-! # Schemas

A schema is a list of sections, each with a list of fields. `Schema.build` accepts exactly the
documents whose fields and ids are in order, and gives every top-level button an id.
-/

namespace GatedForms

/-- How the fields of a section are laid out. -/
inductive SectionLayout where
  /-- A row of buttons. -/
  | horizontal
  | vertical
  deriving Repr, DecidableEq, BEq

namespace SectionLayout

def name : SectionLayout → String
  | .horizontal => "horizontal"
  | .vertical => "vertical"

end SectionLayout

/-- A section of a form. -/
structure FormSection where
  title : Option String
  backendKey : String
  fields : List Field

namespace FormSection

/-- A section whose fields are all buttons is a row; without fields it is not. -/
def layout (s : FormSection) : SectionLayout :=
  if !s.fields.isEmpty && s.fields.all Field.isButton then .horizontal else .vertical

/-- Equality of sections, field by field. -/
def same (s t : FormSection) : Bool :=
  s.title == t.title && s.backendKey == t.backendKey && sameFields s.fields t.fields
where
  /-- Equality of field lists. -/
  sameFields : List Field → List Field → Bool
    | [], [] => true
    | f :: fs, g :: gs => f.same g && sameFields fs gs
    | _, _ => false

end FormSection

/-- A form: titled sections in order. -/
structure Schema where
  title : String
  backendKey : String
  sections : List FormSection

/-- A top-level button with its place. -/
structure ButtonPlace where
  sectionIndex : Nat
  fieldIndex : Nat
  id : ButtonId
  action : ButtonAction
  deriving Repr, DecidableEq, BEq

namespace Field

/-- The button that stands at a place, once it has an id. -/
def button? (sectionIndex fieldIndex : Nat) (f : Field) : Option ButtonPlace :=
  match f.kind with
  | .button action (some id) => some ⟨sectionIndex, fieldIndex, id, action⟩
  | _ => none

/-- A button without an id gets the one of its place. -/
def fillId (sectionIndex fieldIndex : Nat) (f : Field) : Field :=
  match f.kind with
  | .button action none =>
      { f with kind := .button action (some (ButtonId.derived sectionIndex fieldIndex action)) }
  | _ => f

def buttonId? (f : Field) : Option ButtonId :=
  match f.kind with
  | .button _ id => id
  | _ => none

end Field

namespace Schema

/-- Equality of schemas, section by section. -/
def same (s t : Schema) : Bool :=
  s.title == t.title && s.backendKey == t.backendKey && sameSections s.sections t.sections
where
  /-- Equality of section lists. -/
  sameSections : List FormSection → List FormSection → Bool
    | [], [] => true
    | a :: as, b :: bs => a.same b && sameSections as bs
    | _, _ => false

def fields (s : Schema) : List Field := s.sections.flatMap FormSection.fields

def sectionByKey? (s : Schema) (key : String) : Option FormSection :=
  s.sections.find? fun formSection => formSection.backendKey = key

/-- The first top-level field of a printed name. -/
def fieldByName? (s : Schema) (name : String) : Option Field :=
  s.fields.find? fun f => f.hasName name

/-- The buttons among the fields of a section, counted from `fieldIndex`. -/
def fieldButtons (sectionIndex fieldIndex : Nat) : List Field → List ButtonPlace
  | [] => []
  | f :: rest =>
      (f.button? sectionIndex fieldIndex).toList ++ fieldButtons sectionIndex (fieldIndex + 1) rest

/-- The top-level buttons of sections, counted from `sectionIndex`. -/
def sectionButtons (sectionIndex : Nat) : List FormSection → List ButtonPlace
  | [] => []
  | s :: rest => fieldButtons sectionIndex 0 s.fields ++ sectionButtons (sectionIndex + 1) rest

def buttons (s : Schema) : List ButtonPlace := sectionButtons 0 s.sections

def button? (s : Schema) (id : ButtonId) : Option ButtonPlace :=
  s.buttons.find? fun place => place.id = id

/-- Check the fields of a section and fill in button ids. `ids` are the button ids before them; with
    the fields come all ids up to here. -/
def buildFields (sectionKey : String) (sectionIndex fieldIndex : Nat) (ids : List ButtonId) :
    List Field → Except SchemaError (List Field × List ButtonId)
  | [] => .ok ([], ids)
  | f :: rest => do
      f.check sectionKey
      let filled := f.fillId sectionIndex fieldIndex
      let ids ← match filled.buttonId? with
        | none => .ok ids
        | some id => if id ∈ ids then .error (.duplicateButton id) else .ok (id :: ids)
      let (others, ids) ← buildFields sectionKey sectionIndex (fieldIndex + 1) ids rest
      .ok (filled :: others, ids)

/-- Check sections in order. `keys` are the section keys and `ids` the button ids before them. -/
def buildSections (sectionIndex : Nat) (keys : List String) (ids : List ButtonId) :
    List FormSection → Except SchemaError (List FormSection)
  | [] => .ok []
  | s :: rest =>
      if s.backendKey ∈ keys then .error (.duplicateSection s.backendKey)
      else do
        let (fields, ids) ← buildFields s.backendKey sectionIndex 0 ids s.fields
        let others ← buildSections (sectionIndex + 1) (s.backendKey :: keys) ids rest
        .ok ({ s with fields := fields } :: others)

/-- A schema from its parts, or the first thing wrong with them. -/
def build (title backendKey : String) (sections : List FormSection) :
    Except SchemaError Schema := do
  let checked ← buildSections 0 [] [] sections
  .ok ⟨title, backendKey, checked⟩

end Schema

end GatedForms

import GatedForms.Field.Encode
import GatedForms.Field.Load
import GatedForms.Json.Reader
import GatedForms.Schema.Basic

/-! # Documents of schemas

The checks of a schema run once its whole document was read.
-/

namespace GatedForms

namespace FormSection

def toJson (s : FormSection) : Json :=
  Json.ofOptionalMembers
    [ Json.optionalText "title" s.title
    , some ("backend_key", .text s.backendKey)
    , some ("fields", .array (s.fields.map Field.toJson)) ]

/-- What was read so far of a section. -/
structure Parts where
  title : Option (Option String) := none
  backendKey : Option String := none
  fields : Option (List Field) := none

def Parts.step (parts : Parts) (key : String) (doc : Document) : Except LoadError Parts :=
  match key with
  | "title" => do
      Document.once key parts.title
      let title ← doc.loadOptionalText
      .ok { parts with title := some title }
  | "backend_key" => do
      Document.once key parts.backendKey
      let backendKey ← doc.loadText
      .ok { parts with backendKey := some backendKey }
  | "fields" => do
      Document.once key parts.fields
      let fields ← doc.loadArray Field.load
      .ok { parts with fields := some fields }
  | _ => do
      doc.skip
      .ok parts

/-- Load a section, from a record or from the list of its members. `surplus` is the error for a list
    with too many of them. -/
def load (surplus : LoadError) : Document → Except LoadError FormSection
  | .object members stop => do
      let parts ← Document.loadMembers Parts.step {} members
      Document.close stop
      let backendKey ← Document.required "backend_key" parts.backendKey
      let fields ← Document.required "fields" parts.fields
      .ok ⟨parts.title.getD none, backendKey, fields⟩
  | .array (title :: backendKey :: fields :: more) stop => do
      let title ← title.loadOptionalText
      let backendKey ← backendKey.loadText
      let fields ← fields.loadArray Field.load
      if more.isEmpty then do
        Document.close stop
        .ok ⟨title, backendKey, fields⟩
      else .error surplus
  | .array [title, backendKey] stop => do
      let _ ← title.loadOptionalText
      let _ ← backendKey.loadText
      Document.close stop
      .error .wrongType
  | .array [title] stop => do
      let _ ← title.loadOptionalText
      Document.close stop
      .error .wrongType
  | .array [] stop => do
      Document.close stop
      .error .wrongType
  | doc => doc.wrongType

end FormSection

namespace Schema

def toJson (s : Schema) : Json :=
  Json.ofMembers
    [ ("title", .text s.title)
    , ("backend_key", .text s.backendKey)
    , ("sections", .array (s.sections.map FormSection.toJson)) ]

/-- What was read so far of a schema. -/
structure Parts where
  title : Option String := none
  backendKey : Option String := none
  sections : Option (List FormSection) := none

def Parts.step (surplus : LoadError) (parts : Parts) (key : String) (doc : Document) :
    Except LoadError Parts :=
  match key with
  | "title" => do
      Document.once key parts.title
      let title ← doc.loadText
      .ok { parts with title := some title }
  | "backend_key" => do
      Document.once key parts.backendKey
      let backendKey ← doc.loadText
      .ok { parts with backendKey := some backendKey }
  | "sections" => do
      Document.once key parts.sections
      let sections ← doc.loadArray (FormSection.load surplus)
      .ok { parts with sections := some sections }
  | _ => do
      doc.skip
      .ok parts

def buildLoaded (title backendKey : String) (sections : List FormSection) :
    Except LoadError Schema :=
  match build title backendKey sections with
  | .ok schema => .ok schema
  | .error cause => .error (.schema cause)

/-- Load a schema, from a record or from the list of its members. `surplus` is the error for a list
    with too many of them. -/
def load (surplus : LoadError) : Document → Except LoadError Schema
  | .object members stop => do
      let parts ← Document.loadMembers (Parts.step surplus) {} members
      Document.close stop
      let title ← Document.required "title" parts.title
      let backendKey ← Document.required "backend_key" parts.backendKey
      let sections ← Document.required "sections" parts.sections
      buildLoaded title backendKey sections
  | .array (title :: backendKey :: sections :: more) stop => do
      let title ← title.loadText
      let backendKey ← backendKey.loadText
      let sections ← sections.loadArray (FormSection.load surplus)
      if more.isEmpty then do
        Document.close stop
        buildLoaded title backendKey sections
      else .error surplus
  | .array [title, backendKey] stop => do
      let _ ← title.loadText
      let _ ← backendKey.loadText
      Document.close stop
      .error .wrongType
  | .array [title] stop => do
      let _ ← title.loadText
      Document.close stop
      .error .wrongType
  | .array [] stop => do
      Document.close stop
      .error .wrongType
  | doc => doc.wrongType

/-- Load a schema from a value, in which a list that is too long has the wrong type. -/
def ofJson (value : Json) : Except LoadError Schema := load .wrongType (Document.ofJson value)

/-- Load a schema from a text, in which a list that is too long is malformed, and behind which
    nothing else may stand. -/
def ofText (s : String) : Except LoadError Schema := do
  let scanned := DocumentText.ofString s
  let schema ← load (.text .malformed) scanned.document
  Document.close scanned.trailing
  .ok schema

end Schema

end GatedForms

import GatedForms.Load
import GatedForms.Messages

/-! # Documents of validation messages -/

namespace GatedForms.Messages

/-- The document of messages; those about the form are left out if there are none. -/
def toJson (messages : Messages) : Json :=
  Json.ofOptionalMembers
    [ some ("fields", .object (messages.fields.map fun (path, text) => (path, .text text)))
    , if messages.form.isEmpty then none
      else some ("global", .array (messages.form.map Json.text)) ]

/-- Read the messages of paths; of repeated paths the last one stays. -/
def loadFields : Document → Except LoadError (List (String × String))
  | .object members stop => do
      let fields ← Document.loadMembers
        (fun fields path doc => do
          let text ← doc.loadText
          .ok (KeyMap.insert path text fields)) [] members
      Document.close stop
      .ok fields
  | doc => doc.wrongType

/-- What was read so far of messages. -/
structure Parts where
  fields : Option (List (String × String)) := none
  form : Option (List String) := none

def Parts.step (parts : Parts) (key : String) (doc : Document) : Except LoadError Parts :=
  match key with
  | "fields" => do
      Document.once key parts.fields
      let fields ← loadFields doc
      .ok { parts with fields := some fields }
  | "global" => do
      Document.once key parts.form
      let form ← doc.loadArray Document.loadText
      .ok { parts with form := some form }
  | _ => do
      doc.skip
      .ok parts

/-- Load messages, from a record or from the list of its members. -/
def load : Document → Except LoadError Messages
  | .object members stop => do
      let parts ← Document.loadMembers Parts.step {} members
      Document.close stop
      let fields ← Document.required "fields" parts.fields
      .ok ⟨fields, parts.form.getD []⟩
  | .array [] stop => do
      Document.close stop
      .error .wrongType
  | .array [fields] stop => do
      let fields ← loadFields fields
      Document.close stop
      .ok ⟨fields, []⟩
  | .array (fields :: form :: more) stop => do
      let fields ← loadFields fields
      let form ← form.loadArray Document.loadText
      if more.isEmpty then do
        Document.close stop
        .ok ⟨fields, form⟩
      else .error .wrongType
  | doc => doc.wrongType

def ofJson (value : Json) : Except LoadError Messages := load (Document.ofJson value)

end GatedForms.Messages

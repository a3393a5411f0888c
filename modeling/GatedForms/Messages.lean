import GatedForms.KeyMap

/-! # Validation messages

What a validator has to say about a form: at most one message per path, and messages about the form
as a whole.
-/

namespace GatedForms

/-- Validation messages, in the order of their paths. -/
structure Messages where
  fields : List (String × String)
  form : List String
  deriving Repr, DecidableEq, BEq

namespace Messages

def empty : Messages := ⟨[], []⟩

def insert (messages : Messages) (path : String) (text : String) : Messages :=
  { messages with fields := KeyMap.insert path text messages.fields }

def addForm (messages : Messages) (text : String) : Messages :=
  { messages with form := messages.form ++ [text] }

def get? (messages : Messages) (path : String) : Option String :=
  KeyMap.find? path messages.fields

def count (messages : Messages) : Nat := messages.fields.length + messages.form.length

def isEmpty (messages : Messages) : Bool := messages.fields.isEmpty && messages.form.isEmpty

end Messages

end GatedForms

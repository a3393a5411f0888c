import GatedForms.Json.Basic

/-! # JSON documents

A document is JSON as its text shows it: members in written order, repeated keys kept, and the place
where the text stops being JSON. Whoever reads a document goes through it from left to right, so a
fault of the text is reported only if nothing before it was wrong.
-/

namespace GatedForms

/-- Why a text is not JSON. -/
inductive TextFault where
  /-- A character that cannot stand where it does. -/
  | malformed
  /-- The text ends too early. -/
  | truncated
  deriving Repr, DecidableEq, BEq

/-- A JSON document, read as far as its text allows. -/
inductive Document where
  | null
  | bool (b : Bool)
  | int (n : Int)
  | float (x : Binary64)
  | text (s : String)
  /-- An array, and the fault behind its last readable element, if any. -/
  | array (items : List Document) (stop : Option TextFault)
  /-- An object, and the fault behind its last readable member, if any. A key that has no text is
      `none`. -/
  | object (members : List (Option String × Document)) (stop : Option TextFault)
  /-- A value that cannot be read. `skipped` is the fault that remains for someone who only passes
      over it. -/
  | flawed (fault : TextFault) (skipped : Option TextFault)
  deriving Inhabited

namespace Document

mutual

def ofJson : Json → Document
  | .null => .null
  | .bool b => .bool b
  | .int n => .int n
  | .float x => .float x
  | .text s => .text s
  | .array items => .array (ofItems items) none
  | .object members => .object (ofMembers members) none

/-- The documents of the elements of an array. -/
def ofItems : List Json → List Document
  | [] => []
  | item :: rest => ofJson item :: ofItems rest

/-- The documents of the members of an object. -/
def ofMembers : List (String × Json) → List (Option String × Document)
  | [] => []
  | (key, value) :: rest => (some key, ofJson value) :: ofMembers rest

end

mutual

/-- The value of a document, or the first fault of its text. Of repeated keys the last one stays. -/
def value : Document → Except TextFault Json
  | .null => .ok .null
  | .bool b => .ok (.bool b)
  | .int n => .ok (.int n)
  | .float x => .ok (.float x)
  | .text s => .ok (.text s)
  | .array items stop => do
      let read ← itemValues items
      match stop with
      | some fault => .error fault
      | none => .ok (.array read)
  | .object members stop => do
      let read ← memberValues members
      match stop with
      | some fault => .error fault
      | none => .ok (Json.ofMembers read)
  | .flawed fault _ => .error fault

/-- The values of the elements of an array. -/
def itemValues : List Document → Except TextFault (List Json)
  | [] => .ok []
  | item :: rest => do
      let first ← value item
      let others ← itemValues rest
      .ok (first :: others)

/-- The values of the members of an object, in written order. -/
def memberValues : List (Option String × Document) → Except TextFault (List (String × Json))
  | [] => .ok []
  | (none, _) :: _ => .error .malformed
  | (some key, member) :: rest => do
      let first ← value member
      let others ← memberValues rest
      .ok ((key, first) :: others)

end

mutual

/-- The fault met by passing over a document without reading it. -/
def skipFault? : Document → Option TextFault
  | .array items stop => (itemsSkipFault? items).or stop
  | .object members stop => (membersSkipFault? members).or stop
  | .flawed _ skipped => skipped
  | _ => none

/-- The first fault met by passing over the elements of an array. -/
def itemsSkipFault? : List Document → Option TextFault
  | [] => none
  | item :: rest => (skipFault? item).or (itemsSkipFault? rest)

/-- The first fault met by passing over the members of an object. -/
def membersSkipFault? : List (Option String × Document) → Option TextFault
  | [] => none
  | (_, member) :: rest => (skipFault? member).or (membersSkipFault? rest)

end

end Document

end GatedForms

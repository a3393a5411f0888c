import GatedForms.Field.Check
import GatedForms.Json.Document

/-! # Loading documents

A document is read member by member, in the order in which it was written. Every value is converted
as it is met, so the first defect in that order is the one reported; members that are missing are
found at the end. Records may also be written as the list of their members.
-/

namespace GatedForms

/-- Why a document cannot be loaded. -/
inductive LoadError where
  /-- The text is not JSON. -/
  | text (fault : TextFault)
  /-- A value has the wrong type. -/
  | wrongType
  /-- A record lacks a member. -/
  | missingMember (name : String)
  /-- A record has a member twice. -/
  | repeatedMember (name : String)
  /-- A name is none of those expected. -/
  | unknownName (name : String) (expected : List String)
  /-- A field name is no path. -/
  | path (cause : PathError)
  /-- The schema is refused. -/
  | schema (cause : SchemaError)
  deriving Repr, DecidableEq, BEq

namespace LoadError

/-- Whether a text is a position: a line and a column. -/
def isPosition (cs : List Char) : Bool :=
  let opening := " at line ".toList
  let middle := " column ".toList
  let isDigit (c : Char) : Bool := (Text.digit? c).isSome
  let isCount (ds : List Char) : Bool :=
    match Text.digits? ds with
    | some n => decide (n < Text.naturalBound)
    | none => false
  let line := (cs.drop opening.length).takeWhile isDigit
  let behind := (cs.drop opening.length).dropWhile isDigit
  opening.isPrefixOf cs && isCount line && middle.isPrefixOf behind
    && isCount (behind.drop middle.length)

/-- Without a position at the end. -/
def dropPosition : List Char → List Char
  | [] => []
  | c :: rest => if isPosition (c :: rest) then [] else c :: dropPosition rest

/-- A wording without a position at its end. -/
def withoutPosition (s : String) : String := String.ofList (dropPosition s.toList)

/-- Wording of the error; the faults of text and type have none. A wording tells no position in the
    text, so the refusal of a path or a schema loses what looks like one at its end. -/
def message? : LoadError → Option String
  | .text _ => none
  | .wrongType => none
  | .missingMember name => some ("missing field `" ++ name ++ "`")
  | .repeatedMember name => some ("duplicate field `" ++ name ++ "`")
  | .unknownName name expected =>
      some ("unknown variant `" ++ name ++ "`, expected one of "
        ++ ", ".intercalate (expected.map fun known => "`" ++ known ++ "`"))
  | .path cause => some (withoutPosition cause.message)
  | .schema cause => some (withoutPosition cause.message)

end LoadError

namespace Document

/-- A fault of the text is a reason not to load it. -/
def liftText {α : Type} : Except TextFault α → Except LoadError α
  | .ok value => .ok value
  | .error fault => .error (.text fault)

def loadJson (doc : Document) : Except LoadError Json := liftText doc.value

/-- Pass over a value. -/
def skip (doc : Document) : Except LoadError Unit :=
  match doc.skipFault? with
  | some fault => .error (.text fault)
  | none => .ok ()

/-- The error for a value of another type than the one expected. -/
def wrongType {α : Type} : Document → Except LoadError α
  | .flawed fault _ => .error (.text fault)
  | _ => .error .wrongType

def loadText : Document → Except LoadError String
  | .text s => .ok s
  | doc => doc.wrongType

def loadBool : Document → Except LoadError Bool
  | .bool b => .ok b
  | doc => doc.wrongType

/-- Read a text that may be null. -/
def loadOptionalText : Document → Except LoadError (Option String)
  | .null => .ok none
  | doc => doc.loadText.map some

/-- Read a path that may be null. -/
def loadOptionalPath (doc : Document) : Except LoadError (Option Path) := do
  match ← doc.loadOptionalText with
  | none => .ok none
  | some raw =>
      match Path.parse raw with
      | .ok path => .ok (some path)
      | .error cause => .error (.path cause)

/-- The end of a container whose text may be broken off. -/
def close : Option TextFault → Except LoadError Unit
  | some fault => .error (.text fault)
  | none => .ok ()

/-- A member that was not read before. -/
def once {α : Type} (name : String) (before : Option α) : Except LoadError Unit :=
  if before.isSome then .error (.repeatedMember name) else .ok ()

/-- A member that must have been read. -/
def required {α : Type} (name : String) : Option α → Except LoadError α
  | some value => .ok value
  | none => .error (.missingMember name)

/-- Read the members of a record one after the other, carrying along what was read so far. -/
def loadMembers {α : Type} (step : α → String → Document → Except LoadError α) (soFar : α) :
    List (Option String × Document) → Except LoadError α
  | [] => .ok soFar
  | (none, _) :: _ => .error (.text .malformed)
  | (some key, member) :: rest => do
      let next ← step soFar key member
      loadMembers step next rest

def loadItems {α : Type} (read : Document → Except LoadError α) :
    List Document → Except LoadError (List α)
  | [] => .ok []
  | item :: rest => do
      let first ← read item
      let others ← loadItems read rest
      .ok (first :: others)

def loadArray {α : Type} (read : Document → Except LoadError α) : Document →
    Except LoadError (List α)
  | .array items stop => do
      let loaded ← loadItems read items
      close stop
      .ok loaded
  | doc => doc.wrongType

/-- Read a name out of a fixed list. A name may also stand as the only key of an object, whose value
    is then null or an empty object. -/
def loadName {α : Type} (ofName? : String → Option α) (expected : List String) :
    Document → Except LoadError α
  | .text name => known name
  | .object [(some name, content)] none => do
      let found ← known name
      match content with
      | .null => .ok found
      | .object [] none => .ok found
      | other => other.wrongType
  | doc => doc.wrongType
where
  /-- A name out of the list. -/
  known (name : String) : Except LoadError α :=
    match ofName? name with
    | some found => .ok found
    | none => .error (.unknownName name expected)

end Document

end GatedForms

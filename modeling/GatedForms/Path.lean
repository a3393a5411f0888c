import GatedForms.Text

/-! # Paths into the value tree

A field is bound to a place in the tree of form values by a path such as `steps[2].gap`: keys joined
by dots, each followed by any number of indices in brackets. A path always starts with a key,
because the tree's root is an object.
-/

namespace GatedForms

/-- One step of a path. -/
inductive Segment where
  /-- Member of an object. -/
  | key (name : String)
  /-- Element of an array. -/
  | index (position : Nat)
  deriving Repr, DecidableEq, BEq

/-- A path into the value tree: a member of the root, and the steps below it. -/
structure Path where
  root : String
  below : List Segment
  deriving Repr, DecidableEq, BEq

/-- Why a text is no path. -/
inductive PathError where
  /-- There is no text. -/
  | empty
  /-- A part between two dots has no key. -/
  | emptySegment (raw : String)
  /-- The brackets of a part are malformed. -/
  | badIndex (raw : String)
  /-- A field name holds an index. -/
  | indexInName (path : String)
  deriving Repr, DecidableEq, BEq

namespace PathError

def message : PathError → String
  | .empty => "empty path"
  | .emptySegment raw => "empty segment in path `" ++ raw ++ "`"
  | .badIndex raw => "malformed index in path `" ++ raw ++ "`"
  | .indexInName path => "index segments are not allowed in field names: `" ++ path ++ "`"

end PathError

namespace Path

/-- All steps from the root of the tree. -/
def segments (p : Path) : List Segment := .key p.root :: p.below

def length (p : Path) : Nat := p.segments.length

/-- The path of the first key and further steps. -/
def ofSegments? : List Segment → Option Path
  | .key root :: below => some ⟨root, below⟩
  | _ => none

def keyOf? : Segment → Option String
  | .key name => some name
  | .index _ => none

/-- The keys among the steps, in order. -/
def keys (p : Path) : List String := p.segments.filterMap keyOf?

def isIndex : Segment → Bool
  | .key _ => false
  | .index _ => true

def isKeyOnly (p : Path) : Bool := !p.below.any isIndex

/-- The path of an element of the array at this path. -/
def index (p : Path) (position : Nat) : Path := ⟨p.root, p.below ++ [.index position]⟩

/-- The path `q` taken from this path on. -/
def join (p q : Path) : Path := ⟨p.root, p.below ++ q.segments⟩

/-- Whether the first steps of this path are those of `q`. -/
def startsWith (p q : Path) : Bool := q.segments.isPrefixOf p.segments

/-- Text of a step that is not the first. -/
def segmentChars : Segment → List Char
  | .key name => '.' :: name.toList
  | .index position => '[' :: (Nat.toDigits 10 position ++ [']'])

def toChars (p : Path) : List Char := p.root.toList ++ p.below.flatMap segmentChars

def display (p : Path) : String := String.ofList p.toChars

/-- What can be wrong with one part of a path. -/
inductive PartFault where
  | noKey
  | badBrackets
  deriving Repr, DecidableEq, BEq

/-- Bracket groups up to the end of a part. Inside of brackets, `inside` holds what stands there so
    far, in reverse. -/
def indices? (inside : Option (List Char)) : List Char → Option (List Segment)
  | [] => if inside.isNone then some [] else none
  | c :: cs =>
      match inside with
      | none => if c = '[' then indices? (some []) cs else none
      | some done =>
          if c = ']' then do
            let position ← Text.natural? done.reverse
            let others ← indices? none cs
            return .index position :: others
          else indices? (some (c :: done)) cs

/-- One part between two dots: a key and bracket groups. -/
def part (cs : List Char) : Except PartFault (List Segment) :=
  let key := cs.takeWhile (· ≠ '[')
  if key.isEmpty then .error .noKey
  else if ']' ∈ key then .error .badBrackets
  else match indices? none (cs.dropWhile (· ≠ '[')) with
    | some indices => .ok (.key (String.ofList key) :: indices)
    | none => .error .badBrackets

/-- All parts in order; the first bad one decides. -/
def parts : List (List Char) → Except PartFault (List Segment)
  | [] => .ok []
  | first :: rest => do
      let segments ← part first
      let others ← parts rest
      .ok (segments ++ others)

def parse (raw : String) : Except PathError Path :=
  if raw.isEmpty then .error .empty
  else match parts (Text.splitOn '.' raw.toList) with
    | .error .noKey => .error (.emptySegment raw)
    | .error .badBrackets => .error (.badIndex raw)
    | .ok segments =>
        match ofSegments? segments with
        | some path => .ok path
        | none => .error .empty

/-- A field name is a path without indices. -/
def checkKeyOnly (p : Path) : Except PathError Unit :=
  if p.isKeyOnly then .ok () else .error (.indexInName p.display)

def parseName (raw : String) : Except PathError Path := do
  let path ← parse raw
  path.checkKeyOnly
  return path

end Path

end GatedForms

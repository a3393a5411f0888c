import GatedForms.Binary64.Shortest
import GatedForms.Json.Basic

/-! # Writing JSON text

Compact text has no blanks. Indented text puts every element and member on a line of its own, two
spaces per level; empty containers stay closed.
-/

namespace GatedForms.Json

def hexChar (n : Nat) : Char := (Nat.toDigits 16 n).headD '0'

/-- A character inside of a string: quotes, backslashes and control characters are escaped. -/
def escapeChar (c : Char) : List Char :=
  if c = '"' then ['\\', '"']
  else if c = '\\' then ['\\', '\\']
  else if c = '\x08' then ['\\', 'b']
  else if c = '\x0c' then ['\\', 'f']
  else if c = '\n' then ['\\', 'n']
  else if c = '\r' then ['\\', 'r']
  else if c = '\t' then ['\\', 't']
  else if c < ' ' then ['\\', 'u', '0', '0', hexChar (c.toNat / 16), hexChar (c.toNat % 16)]
  else [c]

def quote (s : String) : String :=
  String.ofList ('"' :: s.toList.flatMap escapeChar ++ ['"'])

/-- An exponent with its mark and its sign, also in front of a positive one. -/
def exponentChars (e : Int) : List Char :=
  if e < 0 then 'e' :: '-' :: Nat.toDigits 10 e.natAbs else 'e' :: '+' :: Nat.toDigits 10 e.natAbs

/-- A decimal with a point or an exponent: positional if the leading digit stands between the fifth
    place behind and the sixteenth before the point, with an exponent otherwise. -/
def decimalChars (d : Decimal) : List Char :=
  let ds := Decimal.digitChars d.digits
  let point : Int := ds.length + d.exponent
  if 0 ≤ d.exponent ∧ point ≤ 16 then d.positional ++ ['.', '0']
  else if -5 < point ∧ point ≤ 16 then d.positional
  else
    let mantissa := match ds with
      | [] => []
      | [lead] => [lead]
      | lead :: others => lead :: '.' :: others
    mantissa ++ exponentChars (point - 1)

/-- A floating-point number by its shortest decimal. -/
def floatText (x : Binary64) : String :=
  let sign := if x.isNegative then ['-'] else []
  let absolute := if x.isZero then ['0', '.', '0'] else decimalChars (x.shortest .toEven)
  String.ofList (sign ++ absolute)

/-- Text of a value that has no parts, and of the empty containers. -/
def atomText : Json → String
  | .null => "null"
  | .bool true => "true"
  | .bool false => "false"
  | .int n => toString n
  | .float x => floatText x
  | .text s => quote s
  | .array _ => "[]"
  | .object _ => "\x7b\x7d"

mutual

def compact : Json → String
  | .array items => "[" ++ ",".intercalate (compactItems items) ++ "]"
  | .object members => "\x7b" ++ ",".intercalate (compactMembers members) ++ "\x7d"
  | atom => atomText atom

/-- Compact texts of the elements of an array. -/
def compactItems : List Json → List String
  | [] => []
  | item :: rest => compact item :: compactItems rest

/-- Compact texts of the members of an object. -/
def compactMembers : List (String × Json) → List String
  | [] => []
  | (key, value) :: rest => (quote key ++ ":" ++ compact value) :: compactMembers rest

end

/-- A line end and the indentation of a level. -/
def newLine (level : Nat) : String := "\n" ++ String.ofList (List.replicate (2 * level) ' ')

/-- Lines between the brackets of a container that is not empty. -/
def lines (level : Nat) (entries : List String) : String :=
  newLine (level + 1) ++ ("," ++ newLine (level + 1)).intercalate entries ++ newLine level

mutual

/-- Indented text of a value that stands at `level`. -/
def indentedAt (level : Nat) : Json → String
  | .array (item :: rest) =>
      "[" ++ lines level (indentedAt (level + 1) item :: indentedItems (level + 1) rest) ++ "]"
  | .object ((key, value) :: rest) =>
      let first := quote key ++ ": " ++ indentedAt (level + 1) value
      "\x7b" ++ lines level (first :: indentedMembers (level + 1) rest) ++ "\x7d"
  | atom => atomText atom

/-- Indented texts of the elements of an array. -/
def indentedItems (level : Nat) : List Json → List String
  | [] => []
  | item :: rest => indentedAt level item :: indentedItems level rest

/-- Indented texts of the members of an object. -/
def indentedMembers (level : Nat) : List (String × Json) → List String
  | [] => []
  | (key, value) :: rest =>
      (quote key ++ ": " ++ indentedAt level value) :: indentedMembers level rest

end

def indented (value : Json) : String := indentedAt 0 value

end GatedForms.Json

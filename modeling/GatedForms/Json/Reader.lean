import GatedForms.Json.Document
import GatedForms.Text

/-! # Reading JSON text

The scanner turns characters into a `Document`. It never gives up: what it cannot make sense of
becomes a `flawed` value or the `stop` of its container, so that the reader of the document decides
which fault counts.
-/

namespace GatedForms

/-- One scanned value and the characters behind it; `none` if the scan cannot go on. -/
structure Scan where
  document : Document
  rest : Option (List Char)

namespace Scan

/-- Nothing can be read from here on. -/
def stopped (fault : TextFault) : Scan := ⟨.flawed fault (some fault), none⟩

/-- Containers may be nested this deep, less one. -/
def maxDepth : Nat := 128

/-- Space, tab and the two line ends. -/
def isBlank (c : Char) : Bool := c = ' ' || c = '\t' || c = '\n' || c = '\r'

/-- The text from its first character that is not blank. -/
def skipBlanks (cs : List Char) : List Char := cs.dropWhile isBlank

/-- The rest of `null`, `true` or `false`. -/
def word (document : Document) : List Char → List Char → Scan
  | [], cs => ⟨document, some cs⟩
  | _ :: _, [] => stopped .truncated
  | expected :: more, c :: cs => if c = expected then word document more cs else stopped .malformed

/-- Values of the leading decimal digits, and the text behind them. -/
def digits : List Char → List Nat × List Char
  | [] => ([], [])
  | c :: cs =>
      match Text.digit? c with
      | some d => (d :: (digits cs).1, (digits cs).2)
      | none => ([], c :: cs)

/-- Digits appended to a significand as long as it fits 64 bits; with them the digits left
    over. -/
def appendDigits (significand : Nat) : List Nat → Nat × List Nat
  | [] => (significand, [])
  | d :: rest =>
      if significand * 10 + d < Text.naturalBound then appendDigits (significand * 10 + d) rest
      else (significand, d :: rest)

/-- The parts of a number as written. -/
structure Numeral where
  negative : Bool
  whole : List Nat
  /-- Digits behind the point, if there is one. -/
  fraction : Option (List Nat)
  /-- The exponent, if there is one. -/
  power : Option Int

/-- A number with sign. -/
def signed (negative : Bool) (x : Binary64) : Binary64 := if negative then x.negate else x

/-- The value of a numeral, none if it is too large. Without point and exponent it is a whole number
    if it fits 64 bits; negative zero and all else is a floating-point number. Digits that no longer
    fit the significand only count as places. -/
def Numeral.value? (n : Numeral) : Option Document :=
  let whole := appendDigits 0 n.whole
  let fraction := appendDigits whole.1 (n.fraction.getD [])
  let kept := (n.fraction.getD []).length - fraction.2.length
  let exponent : Int := whole.2.length - kept + n.power.getD 0
  if n.fraction.isNone ∧ n.power.isNone ∧ whole.2.isEmpty
      ∧ (!n.negative ∨ (0 < whole.1 ∧ whole.1 ≤ Text.integerBound)) then
    some (.int (if n.negative then -whole.1 else whole.1))
  else
    (Binary64.ofDecimal? fraction.1 exponent).map fun x => .float (signed n.negative x)

/-- A numeral with all its parts scanned. A number that is too large is flawed, but can be passed
    over. -/
def finish (n : Numeral) (rest : List Char) : Scan :=
  match n.value? with
  | some document => ⟨document, some rest⟩
  | none => ⟨.flawed .malformed none, some rest⟩

/-- A digit is missing: at the end of the text this reads as a text that is too short. -/
def missingDigit (cs : List Char) : Scan :=
  if cs.isEmpty then ⟨.flawed .truncated (some .malformed), none⟩ else stopped .malformed

/-- Natural number of a list of digits. -/
def ofDigits (ds : List Nat) : Nat := ds.foldl (fun n d => n * 10 + d) 0

/-- An exponent behind its mark. -/
def exponent (n : Numeral) (cs : List Char) : Scan :=
  let (negative, cs) := match cs with
    | '+' :: rest => (false, rest)
    | '-' :: rest => (true, rest)
    | _ => (false, cs)
  match digits cs with
  | ([], rest) => missingDigit rest
  | (ds, rest) =>
      let size : Int := ofDigits ds
      finish { n with power := some (if negative then -size else size) } rest

/-- What follows the digits before or behind the point. -/
def afterDigits (n : Numeral) : List Char → Scan
  | 'e' :: rest => exponent n rest
  | 'E' :: rest => exponent n rest
  | rest => finish n rest

/-- What follows the digits before the point. -/
def afterWhole (n : Numeral) : List Char → Scan
  | '.' :: rest =>
      match digits rest with
      | ([], rest) => missingDigit rest
      | (ds, rest) => afterDigits { n with fraction := some ds } rest
  | rest => afterDigits n rest

/-- A number behind its sign; a leading zero stands alone. -/
def number (negative : Bool) (cs : List Char) : Scan :=
  match digits cs with
  | ([], rest) => missingDigit rest
  | (0 :: _ :: _, _) => stopped .malformed
  | (ds, rest) => afterWhole ⟨negative, ds, none, none⟩ rest

/-- A scanned string. -/
inductive Quoted where
  /-- Closed; `none` if half a surrogate pair stands in it alone. -/
  | closed (s : Option String) (rest : List Char)
  /-- Not closed; `lone` if half a surrogate pair stood alone before the fault. -/
  | broken (fault : TextFault) (lone : Bool)

/-- The character that an escape letter stands for. -/
def escaped? : Char → Option Char
  | '"' => some '"'
  | '\\' => some '\\'
  | '/' => some '/'
  | 'b' => some '\x08'
  | 'f' => some '\x0c'
  | 'n' => some '\n'
  | 'r' => some '\r'
  | 't' => some '\t'
  | _ => none

/-- Four hexadecimal digits as a UTF-16 unit. -/
def unit? (a b c d : Char) : Option Nat := do
  let a ← Text.hexDigit? a
  let b ← Text.hexDigit? b
  let c ← Text.hexDigit? c
  let d ← Text.hexDigit? d
  return ((a * 16 + b) * 16 + c) * 16 + d

/-- First half of a surrogate pair. -/
def isHigh (u : Nat) : Bool := 0xD800 ≤ u && u ≤ 0xDBFF

/-- Second half of a surrogate pair. -/
def isLow (u : Nat) : Bool := 0xDC00 ≤ u && u ≤ 0xDFFF

/-- The fault of an escape without four hexadecimal digits: too short a text if fewer than four
    bytes are left. -/
def unitFault (cs : List Char) : TextFault :=
  if (String.ofList cs).utf8ByteSize < 4 then .truncated else .malformed

/-- A string behind its opening quote. `done` holds its characters in reverse, `high` the first half
    of a surrogate pair that waits for the second, `lone` tells that some half stood alone. -/
def quoted (done : List Char) (high : Option Nat) (lone : Bool) : List Char → Quoted
  | [] => .broken .truncated lone
  | '"' :: rest =>
      .closed (if lone || high.isSome then none else some (String.ofList done.reverse)) rest
  | '\\' :: 'u' :: a :: b :: c :: d :: rest =>
      match unit? a b c d with
      | none => .broken (unitFault (a :: b :: c :: d :: rest)) lone
      | some u =>
          match high with
          | some h =>
              if isLow u then
                quoted (Char.ofNat (0x10000 + (h - 0xD800) * 0x400 + (u - 0xDC00)) :: done)
                  none lone rest
              else quoted done none true rest
          | none =>
              if isHigh u then quoted done (some u) lone rest
              else if isLow u then quoted done none true rest
              else quoted (Char.ofNat u :: done) none lone rest
  | '\\' :: 'u' :: rest => .broken (unitFault rest) lone
  | ['\\'] => .broken .truncated lone
  | '\\' :: c :: rest =>
      match escaped? c with
      | some e => quoted (e :: done) none (lone || high.isSome) rest
      | none => .broken .malformed lone
  | c :: rest =>
      if c < ' ' then .broken .malformed lone
      else quoted (c :: done) none (lone || high.isSome) rest

def text (cs : List Char) : Scan :=
  match quoted [] none false cs with
  | .closed (some s) rest => ⟨.text s, some rest⟩
  | .closed none rest => ⟨.flawed .malformed none, some rest⟩
  | .broken fault lone => ⟨.flawed (if lone then .malformed else fault) (some fault), none⟩

/-- A container that is nested too deep cannot be read, only passed over. -/
def bounded (level : Nat) (scan : Scan) : Scan :=
  if level < maxDepth then scan
  else { scan with document := .flawed .malformed scan.document.skipFault? }

/-- Scanned elements of an array. -/
structure Items where
  items : List Document
  stop : Option TextFault
  rest : Option (List Char)

/-- Scanned members of an object. -/
structure Members where
  members : List (Option String × Document)
  stop : Option TextFault
  rest : Option (List Char)

mutual

/-- The value at the start of a text, inside of `level` containers. -/
def value : (fuel : Nat) → (level : Nat) → List Char → Scan
  | 0, _, _ => stopped .malformed
  | fuel + 1, level, cs =>
      match skipBlanks cs with
      | [] => stopped .truncated
      | '"' :: rest => text rest
      | '[' :: rest =>
          let scanned := firstItem fuel (level + 1) rest
          bounded (level + 1) ⟨.array scanned.items scanned.stop, scanned.rest⟩
      | '\x7b' :: rest =>
          let scanned := firstMember fuel (level + 1) rest
          bounded (level + 1) ⟨.object scanned.members scanned.stop, scanned.rest⟩
      | 'n' :: rest => word .null ['u', 'l', 'l'] rest
      | 't' :: rest => word (.bool true) ['r', 'u', 'e'] rest
      | 'f' :: rest => word (.bool false) ['a', 'l', 's', 'e'] rest
      | '-' :: rest => number true rest
      | c :: rest => if (Text.digit? c).isSome then number false (c :: rest) else stopped .malformed

/-- The elements of an array behind its opening bracket. -/
def firstItem : (fuel : Nat) → (level : Nat) → List Char → Items
  | 0, _, _ => ⟨[], some .malformed, none⟩
  | fuel + 1, level, cs =>
      match skipBlanks cs with
      | [] => ⟨[], some .truncated, none⟩
      | ']' :: rest => ⟨[], none, some rest⟩
      | rest => item fuel level rest

/-- One element of an array and all behind it. -/
def item : (fuel : Nat) → (level : Nat) → List Char → Items
  | 0, _, _ => ⟨[], some .malformed, none⟩
  | fuel + 1, level, cs =>
      let scanned := value fuel level cs
      match scanned.rest with
      | none => ⟨[scanned.document], none, none⟩
      | some rest =>
          let others := nextItem fuel level rest
          { others with items := scanned.document :: others.items }

/-- What follows an element of an array. Behind a comma there is an element, even if the text ends
    before it. -/
def nextItem : (fuel : Nat) → (level : Nat) → List Char → Items
  | 0, _, _ => ⟨[], some .malformed, none⟩
  | fuel + 1, level, cs =>
      match skipBlanks cs with
      | [] => ⟨[], some .truncated, none⟩
      | ']' :: rest => ⟨[], none, some rest⟩
      | ',' :: rest =>
          match skipBlanks rest with
          | [] => ⟨[.flawed .truncated (some .truncated)], none, none⟩
          | ']' :: _ => ⟨[], some .malformed, none⟩
          | rest => item fuel level rest
      | _ => ⟨[], some .malformed, none⟩

/-- The members of an object behind its opening brace. -/
def firstMember : (fuel : Nat) → (level : Nat) → List Char → Members
  | 0, _, _ => ⟨[], some .malformed, none⟩
  | fuel + 1, level, cs =>
      match skipBlanks cs with
      | [] => ⟨[], some .truncated, none⟩
      | '\x7d' :: rest => ⟨[], none, some rest⟩
      | rest => member fuel level rest

/-- One member of an object and all behind it. A key whose colon is missing counts as read. -/
def member : (fuel : Nat) → (level : Nat) → List Char → Members
  | 0, _, _ => ⟨[], some .malformed, none⟩
  | fuel + 1, level, cs =>
      match cs with
      | '"' :: rest =>
          match quoted [] none false rest with
          | .broken fault true => ⟨[(none, .flawed fault (some fault))], none, none⟩
          | .broken fault false => ⟨[], some fault, none⟩
          | .closed key rest =>
              match skipBlanks rest with
              | [] => ⟨[(key, .flawed .truncated (some .truncated))], none, none⟩
              | ':' :: rest =>
                  let scanned := value fuel level rest
                  match scanned.rest with
                  | none => ⟨[(key, scanned.document)], none, none⟩
                  | some rest =>
                      let others := nextMember fuel level rest
                      { others with members := (key, scanned.document) :: others.members }
              | _ => ⟨[(key, .flawed .malformed (some .malformed))], none, none⟩
      | _ => ⟨[], some .malformed, none⟩

/-- What follows a member of an object. -/
def nextMember : (fuel : Nat) → (level : Nat) → List Char → Members
  | 0, _, _ => ⟨[], some .malformed, none⟩
  | fuel + 1, level, cs =>
      match skipBlanks cs with
      | [] => ⟨[], some .truncated, none⟩
      | '\x7d' :: rest => ⟨[], none, some rest⟩
      | ',' :: rest =>
          match skipBlanks rest with
          | [] => ⟨[], some .truncated, none⟩
          | rest => member fuel level rest
      | _ => ⟨[], some .malformed, none⟩

end

end Scan

/-- A whole text: its document, and the fault of what stands behind the document. -/
structure DocumentText where
  document : Document
  trailing : Option TextFault

namespace DocumentText

/-- Scan a text. Every step but a bounded number per character moves forward, which bounds the
    steps. -/
def ofString (s : String) : DocumentText :=
  let cs := s.toList
  let scanned := Scan.value (4 * cs.length + 4) 0 cs
  let trailing := match scanned.rest with
    | some rest => if (Scan.skipBlanks rest).isEmpty then none else some .malformed
    | none => none
  ⟨scanned.document, trailing⟩

end DocumentText

namespace Json

/-- The value written by a text. -/
def ofString (s : String) : Except TextFault Json := do
  let scanned := DocumentText.ofString s
  let value ← scanned.document.value
  match scanned.trailing with
  | some fault => .error fault
  | none => .ok value

end Json

end GatedForms

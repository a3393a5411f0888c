import GatedForms.Binary64.Shortest
import GatedForms.Text

/-! # Values of settings

A setting is a scalar, a list or a table of further settings. Settings come from different places
with different ideas of types, so a reader takes whatever denotes the value that it wants.
-/

namespace GatedForms

/-- The value of a setting. -/
inductive SettingValue where
  /-- What fills a list up to an item behind its end. -/
  | null
  | bool (b : Bool)
  /-- A whole number of 64 bits. -/
  | int (n : Int)
  | float (x : Binary64)
  /-- A number beyond all floating-point numbers. -/
  | infinite (negative : Bool)
  | notANumber
  | text (s : String)
  | list (items : List SettingValue)
  | table (members : List (String × SettingValue))

namespace SettingValue

/-- Lower-case letters for the ASCII capitals. -/
def lower (s : String) : String := String.ofList (s.toList.map Char.toLower)

/-- Largest natural number of a setting. -/
def maxNatural : Nat := Text.naturalBound - 1

/-- The natural number that a setting denotes: a whole number that is not negative, a rounded
    floating-point number, a truth value as one or zero, or a text with one of these. -/
def natural? : SettingValue → Option Nat
  | .bool b => some (if b then 1 else 0)
  | .int n => if n < 0 then none else some n.toNat
  | .float x => some (min x.roundToNat maxNatural)
  | .infinite negative => some (if negative then 0 else maxNatural)
  | .notANumber => some 0
  | .text s =>
      if lower s ∈ ["true", "on", "yes"] then some 1
      else if lower s ∈ ["false", "off", "no"] then some 0
      else Text.natural? s.toList
  | .null | .list _ | .table _ => none

/-- A floating-point number in plain digits, of which there are as few as read back. -/
def floatText (x : Binary64) : String :=
  let sign := if x.isNegative then ['-'] else []
  String.ofList (sign ++ if x.isZero then ['0'] else (x.shortest .away).positional)

def scalarText? : SettingValue → Option String
  | .bool b => some (if b then "true" else "false")
  | .int n => some (toString n)
  | .float x => some (floatText x)
  | .infinite negative => some (if negative then "-inf" else "inf")
  | .notANumber => some "NaN"
  | .text s => some s
  | .null | .list _ | .table _ => none

/-- The texts of a list of scalars. -/
def texts? : SettingValue → Option (List String)
  | .list items => items.mapM scalarText?
  | _ => none

/-- The name that a setting gives: a text, or the only key of a table. -/
def name? : SettingValue → Option String
  | .text s => some s
  | .table [(name, _)] => some name
  | _ => none

end SettingValue

namespace Text

/-- Digits at the start of a text, and the rest. -/
def takeDigits (cs : List Char) : List Char × List Char :=
  (cs.takeWhile fun c => (digit? c).isSome, cs.dropWhile fun c => (digit? c).isSome)

/-- Behind the mantissa: nothing, or an exponent. -/
def exponent? : List Char → Option Int
  | [] => some 0
  | mark :: cs =>
      if mark = 'e' ∨ mark = 'E' then
        match cs with
        | '-' :: rest => (digits? rest).map fun n => -(n : Int)
        | rest => (digits? (dropPlus rest)).map fun n => (n : Int)
      else none

/-- A number without sign: digits, of which some may stand behind a point, and an exponent. -/
def decimal? (cs : List Char) : Option Decimal := do
  let (whole, behind) := takeDigits cs
  let (fraction, rest) := match behind with
    | '.' :: more => takeDigits more
    | _ => ([], behind)
  let digits ← digits? (whole ++ fraction)
  let exponent ← exponent? rest
  return ⟨digits, exponent - fraction.length⟩

/-- A floating-point number with an optional sign; also infinity and not-a-number by their names. -/
def float? (cs : List Char) : Option SettingValue :=
  let (negative, cs) := match cs with
    | '-' :: rest => (true, rest)
    | _ => (false, dropPlus cs)
  let word := SettingValue.lower (String.ofList cs)
  if word = "inf" ∨ word = "infinity" then some (.infinite negative)
  else if word = "nan" then some .notANumber
  else (decimal? cs).map fun d =>
    match Binary64.nearestDecimal? d.digits d.exponent with
    | some x => .float (if negative then x.negate else x)
    | none => .infinite negative

end Text

end GatedForms

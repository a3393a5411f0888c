import GatedForms.Settings.Value

/-! # Numbers in TOML

Whole numbers of 64 bits, in decimal with a sign or in base 16, 8 or 2 without one, and
floating-point numbers. Single underscores may stand between digits.
-/

namespace GatedForms.Toml

def joinDigits? (cs : List Char) : Option (List Char) :=
  let groups := Text.splitOn '_' cs
  if groups.any List.isEmpty then none else some groups.flatten

/-- The number that digits of a base denote. -/
def ofDigits? (base : Nat) (cs : List Char) : Option Nat :=
  cs.foldlM (fun n c => ((Text.hexDigit? c).filter (· < base)).map fun d => n * base + d) 0

/-- One or more decimal digits, with underscores between them. -/
def isNumeral (cs : List Char) : Bool :=
  match joinDigits? cs with
  | some digits => digits.all fun c => (Text.digit? c).isSome
  | none => false

/-- A numeral that starts with a zero only if it is zero. -/
def isWholeNumeral (cs : List Char) : Bool := isNumeral cs && (cs.head? ≠ some '0' || cs = ['0'])

def skipSign : List Char → List Char
  | '+' :: rest => rest
  | '-' :: rest => rest
  | rest => rest

/-- A whole number in a base other than ten. -/
def ofBase? (base : Nat) (cs : List Char) : Option Int := do
  let digits ← joinDigits? cs
  let n ← ofDigits? base digits
  some (n : Int)

/-- A whole number of 64 bits. -/
def integer? (word : List Char) : Option Int :=
  let read := match word with
    | '0' :: 'x' :: rest => ofBase? 16 rest
    | '0' :: 'o' :: rest => ofBase? 8 rest
    | '0' :: 'b' :: rest => ofBase? 2 rest
    | _ =>
        if isWholeNumeral (skipSign word) then Text.integer? (word.filter (· ≠ '_')) else none
  read.filter Text.isInteger

/-- Nothing, or an exponent. -/
def isExponent : List Char → Bool
  | [] => true
  | mark :: rest => (mark = 'e' || mark = 'E') && isNumeral (skipSign rest)

/-- A fraction and perhaps an exponent, or an exponent alone. -/
def isFraction : List Char → Bool
  | '.' :: rest =>
      let isDigit (c : Char) : Bool := c = '_' || (Text.digit? c).isSome
      isNumeral (rest.takeWhile isDigit) && isExponent (rest.dropWhile isDigit)
  | [] => false
  | rest => isExponent rest

/-- A floating-point number, also infinity and not-a-number by their names. A number above all
    floating-point numbers is refused. -/
def float? (word : List Char) : Option SettingValue :=
  let isWhole (c : Char) : Bool := c ≠ '.' && c ≠ 'e' && c ≠ 'E'
  let unsigned := skipSign word
  if unsigned = ['i', 'n', 'f'] then some (.infinite (word.head? = some '-'))
  else if unsigned = ['n', 'a', 'n'] then some .notANumber
  else if isWholeNumeral (unsigned.takeWhile isWhole)
      && isFraction (unsigned.dropWhile isWhole) then
    match Text.float? (word.filter (· ≠ '_')) with
    | some (.infinite false) => none
    | value => value
  else none

end GatedForms.Toml

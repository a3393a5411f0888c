/-! # Splitting, trimming and reading text

The few operations on plain text that paths, rules and settings share. Blanks are the characters of
the Unicode property White_Space; digits are the ten decimal ASCII digits.
-/

namespace GatedForms.Text

/-- The parts of a text between the separators, one more than there are separators. -/
def splitOn (separator : Char) : List Char → List (List Char)
  | [] => [[]]
  | c :: cs =>
      if c = separator then [] :: splitOn separator cs
      else match splitOn separator cs with
        | [] => [[c]]
        | part :: parts => (c :: part) :: parts

/-- The parts of a string between the separators. -/
def split (separator : Char) (s : String) : List String :=
  (splitOn separator s.toList).map String.ofList

/-- Whether a character has the property White_Space. -/
def isBlank (c : Char) : Bool :=
  let n := c.toNat
  (0x09 ≤ n && n ≤ 0x0D) || n = 0x20 || n = 0x85 || n = 0xA0 || n = 0x1680
    || (0x2000 ≤ n && n ≤ 0x200A) || n = 0x2028 || n = 0x2029 || n = 0x202F || n = 0x205F
    || n = 0x3000

/-- Without the blanks at both ends. -/
def trim (cs : List Char) : List Char :=
  ((cs.dropWhile isBlank).reverse.dropWhile isBlank).reverse

def digit? (c : Char) : Option Nat :=
  if '0' ≤ c ∧ c ≤ '9' then some (c.toNat - '0'.toNat) else none

/-- Value of a hexadecimal digit of either case. -/
def hexDigit? (c : Char) : Option Nat :=
  if 'a' ≤ c ∧ c ≤ 'f' then some (c.toNat - 'a'.toNat + 10)
  else if 'A' ≤ c ∧ c ≤ 'F' then some (c.toNat - 'A'.toNat + 10)
  else digit? c

/-- The number of a list of digits, continuing from `n`; none at any other character. -/
def digitsFrom? (n : Nat) : List Char → Option Nat
  | [] => some n
  | c :: cs => (digit? c).bind fun d => digitsFrom? (n * 10 + d) cs

def digits? : List Char → Option Nat
  | [] => none
  | c :: cs => digitsFrom? 0 (c :: cs)

/-- A plus sign in front is passed over. -/
def dropPlus : List Char → List Char
  | '+' :: cs => cs
  | cs => cs

/-- Natural numbers that fit 64 bits are below this bound, `2 ^ 64`. -/
def naturalBound : Nat := 0x10000000000000000

/-- Whole numbers that fit 64 bits are below this bound, `2 ^ 63`, and not below its negative. -/
def integerBound : Nat := 0x8000000000000000

/-- An optional plus sign and digits, for a number below `2 ^ 64`. -/
def natural? (cs : List Char) : Option Nat :=
  (digits? (dropPlus cs)).filter (· < naturalBound)

/-- Whether a whole number fits 64 bits. -/
def isInteger (n : Int) : Bool := decide (-integerBound ≤ n) && decide (n < integerBound)

/-- An optional sign and digits, for a number of 64 bits. -/
def integer? (cs : List Char) : Option Int :=
  let read : Option Int := match cs with
    | '-' :: rest => (digits? rest).map fun n => -(n : Int)
    | _ => (digits? (dropPlus cs)).map fun n => (n : Int)
  read.filter isInteger

end GatedForms.Text

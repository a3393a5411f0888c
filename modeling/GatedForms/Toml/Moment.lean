import GatedForms.Text

/-! # Dates and times in TOML

A date, a time of day, or both together, then also with an offset from universal time. Their value
is a text in one form: `T` between date and time, `Z` for universal time, at most nine digits of a
second and none that is a zero at the end.
-/

namespace GatedForms.Toml

/-- A number of two digits. -/
def pair? (tens ones : Char) : Option Nat := Text.digits? [tens, ones]

/-- Whether a year has a 29th of February. -/
def isLeapYear (year : Nat) : Bool :=
  year % 4 = 0 && (year % 100 ≠ 0 || year % 400 = 0)

def daysOf (year month : Nat) : Nat :=
  if month = 2 then (if isLeapYear year then 29 else 28)
  else if month ∈ [4, 6, 9, 11] then 30
  else 31

/-- The date at the start of a text, and what follows it. -/
def date? : List Char → Option (List Char × List Char)
  | y₁ :: y₂ :: y₃ :: y₄ :: '-' :: m₁ :: m₂ :: '-' :: d₁ :: d₂ :: rest => do
      let year ← Text.digits? [y₁, y₂, y₃, y₄]
      let month ← pair? m₁ m₂
      let day ← pair? d₁ d₂
      if 1 ≤ month ∧ month ≤ 12 ∧ 1 ≤ day ∧ day ≤ daysOf year month then
        some ([y₁, y₂, y₃, y₄, '-', m₁, m₂, '-', d₁, d₂], rest)
      else none
  | _ => none

/-- The part of a second at the start of a text, and what follows it. -/
def fraction? : List Char → Option (List Char × List Char)
  | '.' :: rest =>
      let isDigit (c : Char) : Bool := (Text.digit? c).isSome
      let digits := rest.takeWhile isDigit
      let kept := ((digits.take 9).reverse.dropWhile (· = '0')).reverse
      if digits.isEmpty then none
      else some (if kept.isEmpty then [] else '.' :: kept, rest.dropWhile isDigit)
  | rest => some ([], rest)

/-- The time of day at the start of a text, and what follows it. A minute may have a second more
    than 59. -/
def time? : List Char → Option (List Char × List Char)
  | h₁ :: h₂ :: ':' :: m₁ :: m₂ :: ':' :: s₁ :: s₂ :: rest => do
      let hour ← pair? h₁ h₂
      let minute ← pair? m₁ m₂
      let second ← pair? s₁ s₂
      let (fraction, behind) ← fraction? rest
      if hour ≤ 23 ∧ minute ≤ 59 ∧ second ≤ 60 then
        some ([h₁, h₂, ':', m₁, m₂, ':', s₁, s₂] ++ fraction, behind)
      else none
  | _ => none

/-- An offset from universal time, or none. No offset is negative without an amount. -/
def offset? : List Char → Option (List Char)
  | [] => some []
  | ['Z'] => some ['Z']
  | ['z'] => some ['Z']
  | [sign, h₁, h₂, ':', m₁, m₂] => do
      let hour ← pair? h₁ h₂
      let minute ← pair? m₁ m₂
      if (sign = '+' ∨ sign = '-') ∧ hour ≤ 23 ∧ minute ≤ 59 then
        some ((if hour = 0 ∧ minute = 0 then '+' else sign) :: [h₁, h₂, ':', m₁, m₂])
      else none
  | _ => none

/-- What may stand between a date and a time. -/
def isDelimiter (c : Char) : Bool := c = 'T' || c = 't' || c = ' '

/-- The text of a date, a time or both. -/
def moment? (word : List Char) : Option String :=
  match date? word with
  | some (date, []) => some (String.ofList date)
  | some (date, delimiter :: rest) => do
      let (time, behind) ← time? rest
      let offset ← offset? behind
      if isDelimiter delimiter then some (String.ofList (date ++ 'T' :: time ++ offset)) else none
  | none =>
      match time? word with
      | some (time, []) => some (String.ofList time)
      | _ => none

end GatedForms.Toml

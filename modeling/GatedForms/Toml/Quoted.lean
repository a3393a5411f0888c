import GatedForms.Text
import GatedForms.Toml.Space

/-! # Quoted texts in TOML

A text stands between double quotes, where a backslash escapes, or between single quotes, where
nothing does. Between three quotes of one kind it may run over several lines.
-/

namespace GatedForms.Toml

def hex? (cs : List Char) : Option Nat :=
  cs.foldlM (fun n c => (Text.hexDigit? c).map fun d => n * 16 + d) 0

/-- The character whose code point is written in hexadecimal digits. Halves of surrogate pairs are
    no characters. -/
def charOfHex? (cs : List Char) : Option Char := do
  let code ← hex? cs
  if code.isValidChar then some (Char.ofNat code) else none

/-- The character that an escape letter stands for. -/
def escaped? : Char → Option Char
  | '"' => some '"'
  | '\\' => some '\\'
  | 'b' => some '\x08'
  | 'f' => some '\x0c'
  | 'n' => some '\n'
  | 'r' => some '\r'
  | 't' => some '\t'
  | _ => none

/-- Whether a line has nothing left but spaces, and another line follows. -/
def endsLine (cs : List Char) : Bool := (newline? (skipSpaces cs)).isSome

/-- A text of several lines at the three quotes that close it. Up to two more quotes in front of
    them belong to the text. -/
def closeLong (quote : Char) (done : List Char) (rest : List Char) : String × List Char :=
  let extra := (rest.take 2).takeWhile (· = quote)
  (String.ofList (done.reverse ++ extra), rest.drop extra.length)

/-- A text in double quotes, behind the opening ones, and what follows it; `done` holds what was
    read, in reverse. A backslash at the end of a line is left out with all space up to the next
    text, which `isSkipping` tells. -/
def basic? (isLong isSkipping : Bool) (done : List Char) : List Char → Option (String × List Char)
  | [] => none
  | '"' :: '"' :: '"' :: rest =>
      some (if isLong then closeLong '"' done rest
        else (String.ofList done.reverse, '"' :: '"' :: rest))
  | '"' :: rest =>
      if isLong then basic? isLong false ('"' :: done) rest
      else some (String.ofList done.reverse, rest)
  | '\\' :: 'u' :: a :: b :: c :: d :: rest => do
      let char ← charOfHex? [a, b, c, d]
      basic? isLong false (char :: done) rest
  | '\\' :: 'U' :: a :: b :: c :: d :: e :: f :: g :: h :: rest => do
      let char ← charOfHex? [a, b, c, d, e, f, g, h]
      basic? isLong false (char :: done) rest
  | '\\' :: c :: rest =>
      if isLong && endsLine (c :: rest) then basic? isLong true done rest
      else do
        let char ← escaped? c
        basic? isLong false (char :: done) rest
  | '\r' :: '\n' :: rest =>
      if isLong then basic? isLong isSkipping (if isSkipping then done else '\n' :: done) rest
      else none
  | c :: rest =>
      if isSkipping && (isSpace c || c = '\n') then basic? isLong true done rest
      else if isPlain c || (isLong && c = '\n') then basic? isLong false (c :: done) rest
      else none

/-- A text in single quotes, behind the opening ones, and what follows it. -/
def literal? (isLong : Bool) (done : List Char) : List Char → Option (String × List Char)
  | [] => none
  | '\'' :: '\'' :: '\'' :: rest =>
      some (if isLong then closeLong '\'' done rest
        else (String.ofList done.reverse, '\'' :: '\'' :: rest))
  | '\'' :: rest =>
      if isLong then literal? isLong ('\'' :: done) rest
      else some (String.ofList done.reverse, rest)
  | '\r' :: '\n' :: rest => if isLong then literal? isLong ('\n' :: done) rest else none
  | c :: rest =>
      if isPlain c || (isLong && c = '\n') then literal? isLong (c :: done) rest else none

/-- A text of several lines does not begin with the line end behind its opening quotes. -/
def skipFirstLine (cs : List Char) : List Char := (newline? cs).getD cs

/-- The quoted text at the start of a text, and what follows it. -/
def quoted? : List Char → Option (String × List Char)
  | '"' :: '"' :: '"' :: rest => basic? true false [] (skipFirstLine rest)
  | '"' :: rest => basic? false false [] rest
  | '\'' :: '\'' :: '\'' :: rest => literal? true [] (skipFirstLine rest)
  | '\'' :: rest => literal? false [] rest
  | _ => none

end GatedForms.Toml

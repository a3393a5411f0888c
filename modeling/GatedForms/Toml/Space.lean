/-! # Space, line ends and comments in TOML

What stands between keys, values and lines. A line ends with a line feed, which a carriage return
may precede; a comment starts with `#` and ends with its line.
-/

namespace GatedForms.Toml

def isSpace (c : Char) : Bool := c = ' ' || c = '\t'

/-- Whether a character may stand as it is in a comment or between quotes: all but the control
    characters, of which the tab is allowed. -/
def isPlain (c : Char) : Bool := (' ' ≤ c && c ≠ '\x7f') || c = '\t'

def skipSpaces (cs : List Char) : List Char := cs.dropWhile isSpace

def skipComment : List Char → List Char
  | '#' :: cs => cs.dropWhile isPlain
  | cs => cs

/-- What follows a line end. -/
def newline? : List Char → Option (List Char)
  | '\n' :: rest => some rest
  | '\r' :: '\n' :: rest => some rest
  | _ => none

/-- What follows a line of which nothing is left but spaces and a comment. The end of the text ends
    a line too. -/
def endLine? (cs : List Char) : Option (List Char) :=
  match skipComment (skipSpaces cs) with
  | [] => some []
  | rest => newline? rest

/-- Without the spaces, line ends and comments at the start. `inComment` tells that a comment has
    begun. -/
def skipLines (inComment : Bool) : List Char → List Char
  | [] => []
  | '\r' :: '\n' :: rest => skipLines false rest
  | c :: rest =>
      if inComment && isPlain c then skipLines true rest
      else if c = '\n' || isSpace c then skipLines false rest
      else if c = '#' then skipLines true rest
      else c :: rest

end GatedForms.Toml

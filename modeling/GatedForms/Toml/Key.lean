import GatedForms.Toml.Quoted

/-! # Keys in TOML

A key is a name, or several names with points between them that lead through tables. A name of
letters, digits, `_` and `-` needs no quotes.
-/

namespace GatedForms.Toml

/-- Whether a character may stand in a name without quotes. -/
def isBare (c : Char) : Bool := c.isAlphanum || c = '_' || c = '-'

/-- The name at the start of a text, and what follows it. -/
def name? : List Char → Option (String × List Char)
  | '"' :: rest => basic? false false [] rest
  | '\'' :: rest => literal? false [] rest
  | cs =>
      let bare := cs.takeWhile isBare
      if bare.isEmpty then none else some (String.ofList bare, cs.dropWhile isBare)

/-- The names of the tables on the way to a place, and the name of the place. -/
structure Key where
  tables : List String
  last : String
  deriving Repr, DecidableEq, BEq

def Key.names (key : Key) : List String := key.tables ++ [key.last]

/-- Names of a key are fewer than this bound. -/
def nameBound : Nat := 80

/-- The key of at most `count` names at the start of a text, and what follows it. -/
def keyOf? : (count : Nat) → List Char → Option (Key × List Char)
  | 0, _ => none
  | count + 1, cs => do
      let (name, behind) ← name? (skipSpaces cs)
      match skipSpaces behind with
      | '.' :: rest => do
          let (key, behind) ← keyOf? count rest
          some ({ key with tables := name :: key.tables }, behind)
      | rest => some (⟨[], name⟩, rest)

/-- The key at the start of a text with the spaces around it, and what follows it. -/
def key? (cs : List Char) : Option (Key × List Char) := keyOf? (nameBound - 1) cs

end GatedForms.Toml

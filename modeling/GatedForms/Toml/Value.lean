import GatedForms.Toml.Moment
import GatedForms.Toml.Number
import GatedForms.Toml.Table

/-! # Values in TOML

Texts in quotes, words (truth values, numbers, dates and times), arrays in brackets, which may run
over lines, and tables in braces, which may not.
-/

namespace GatedForms.Toml

/-- Whether a character may stand in a value without quotes or brackets. -/
def isWordChar (c : Char) : Bool :=
  c.isAlphanum || c = '_' || c = '-' || c = '+' || c = '.' || c = ':'

/-- The word at the start of a text, and what follows it. A date and a time with one space between
    them are one word. -/
def takeWord (cs : List Char) : List Char × List Char :=
  let word := cs.takeWhile isWordChar
  match cs.dropWhile isWordChar with
  | ' ' :: rest =>
      let next := rest.takeWhile isWordChar
      if (date? word).isSome && !next.isEmpty then
        (word ++ ' ' :: next, rest.dropWhile isWordChar)
      else (word, ' ' :: rest)
  | rest => (word, rest)

def ofWord? (word : List Char) : Option SettingValue :=
  if word = ['t', 'r', 'u', 'e'] then some (.bool true)
  else if word = ['f', 'a', 'l', 's', 'e'] then some (.bool false)
  else ((moment? word).map .text).or (((integer? word).map .int).or (float? word))

/-- The items of an array behind its opening bracket or a comma, read one by one. -/
def items? (read : List Char → Option (SettingValue × List Char)) :
    (fuel : Nat) → List Char → Option (List SettingValue × List Char)
  | 0, _ => none
  | fuel + 1, cs =>
      match skipLines false cs with
      | ']' :: rest => some ([], rest)
      | start => do
          let (first, behind) ← read start
          match skipLines false behind with
          | ']' :: rest => some ([first], rest)
          | ',' :: rest => do
              let (others, behind) ← items? read fuel rest
              some (first :: others, behind)
          | _ => none

/-- A value under its key, behind the key. -/
def assigned? (read : List Char → Option (SettingValue × List Char)) :
    List Char → Option (SettingValue × List Char)
  | '=' :: rest => read (skipSpaces rest)
  | _ => none

/-- The table of the members behind an opening brace or a comma, added to those already read. -/
def members? (read : List Char → Option (SettingValue × List Char)) (entries : Entries) :
    (fuel : Nat) → List Char → Option (Entries × List Char)
  | 0, _ => none
  | fuel + 1, cs => do
      let (key, behind) ← key? cs
      let (value, behind) ← assigned? read behind
      let added ← entries.add? key value
      match skipSpaces behind with
      | '\x7d' :: rest => some (added, rest)
      | ',' :: rest => members? read added fuel rest
      | _ => none

/-- The value at the start of a text, and what follows it. Arrays and tables in braces are nested at
    most `depth` deep. -/
def value? : (depth : Nat) → List Char → Option (SettingValue × List Char)
  | depth + 1, '[' :: rest => do
      let (items, behind) ← items? (value? depth) (rest.length + 1) rest
      some (.list items, behind)
  | depth + 1, '\x7b' :: rest =>
      match skipSpaces rest with
      | '\x7d' :: behind => some (.table [], behind)
      | start => do
          let (entries, behind) ← members? (value? depth) [] start.length start
          some (.table (entriesToMembers entries), behind)
  | _, cs =>
      if cs.head? = some '"' ∨ cs.head? = some '\'' then
        (quoted? cs).map fun (s, behind) => (.text s, behind)
      else
        let (word, behind) := takeWord cs
        (ofWord? word).map fun value => (value, behind)

end GatedForms.Toml

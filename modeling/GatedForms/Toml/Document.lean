import GatedForms.Settings
import GatedForms.Toml.Value

/-! # TOML documents

A document has lines of three kinds: a value under its key, the header of a table, `[a.b]`, and the
header of the next table of an array, `[[a.b]]`. Values belong to the table of the header above
them.
-/

namespace GatedForms.Toml

/-- Arrays and tables in braces are nested less deep than this bound. -/
def nestingBound : Nat := 80

/-- The header in one or two brackets, behind the opening ones, and what follows its line. -/
def header? (isArray : Bool) (cs : List Char) : Option (Key × List Char) := do
  let (header, behind) ← key? cs
  match isArray, behind with
  | false, ']' :: rest => (endLine? rest).map fun next => (header, next)
  | true, ']' :: ']' :: rest => (endLine? rest).map fun next => (header, next)
  | _, _ => none

/-- Add the lines of a document to the entries of the lines before them. `header` leads to the table
    that is open. -/
def lines? (header : List String) (entries : Entries) : (fuel : Nat) → List Char → Option Entries
  | 0, _ => none
  | fuel + 1, cs => do
      match skipLines false cs with
      | [] => some entries
      | '[' :: '[' :: rest => do
          let (key, next) ← header? true rest
          let opened ← entries.open? true key
          lines? key.names opened fuel next
      | '[' :: rest => do
          let (key, next) ← header? false rest
          let opened ← entries.open? false key
          lines? key.names opened fuel next
      | start => do
          let (key, behind) ← key? start
          let (value, behind) ← assigned? (value? (nestingBound - 1)) behind
          let next ← endLine? behind
          let added ← entries.addBelow? header key value
          lines? header added fuel next

/-- A mark of the byte order at the start of a text says nothing. -/
def skipByteOrderMark : List Char → List Char
  | '\ufeff' :: rest => rest
  | cs => cs

/-- The settings of a document; none if it is not in order. -/
def layer? (s : String) : Option SettingLayer :=
  let cs := skipByteOrderMark s.toList
  (lines? [] [] (cs.length + 1) cs).map entriesToMembers

end GatedForms.Toml

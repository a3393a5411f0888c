import GatedForms.KeyMap
import GatedForms.Settings.Value

/-! # Keys of settings

A key says which setting a value is for. It is a name, behind which may stand the names of members
of tables, as in `a.b`, and the numbers of items of lists, as in `a[0]`; a negative number counts
from the end of the list. Tables and lists are made on the way, in the place of whatever else stands
there. The last name of a key may be in any case.
-/

namespace GatedForms

/-- One step from a setting to a part of it. -/
inductive SettingStep where
  | member (name : String)
  /-- An item of a list. -/
  | item (number : Int)
  deriving Repr, DecidableEq, BEq

/-- The steps from the table of all settings to one of them. -/
abbrev SettingKey := List SettingStep

namespace SettingKey

/-- Whether a character may stand in a name between points and brackets. -/
def isNameChar (c : Char) : Bool := c.isAlphanum || c = ' ' || c = '_' || c = '-'

/-- A name at the start of a text, and what follows it. -/
def name? (cs : List Char) : Option (String × List Char) :=
  let name := cs.takeWhile isNameChar
  if name.isEmpty then none else some (String.ofList name, cs.dropWhile isNameChar)

/-- The number of an item: digits, with a minus sign or none, between spaces and tabs. -/
def number? (cs : List Char) : Option Int :=
  let isSpace (c : Char) : Bool := c = ' ' || c = '\t'
  let word := ((cs.dropWhile isSpace).reverse.dropWhile isSpace).reverse
  if word.head? = some '+' then none else Text.integer? word

/-- The steps behind the first name. -/
def steps? : (fuel : Nat) → List Char → Option SettingKey
  | _, [] => some []
  | 0, _ :: _ => none
  | fuel + 1, '.' :: rest => do
      let (name, behind) ← name? rest
      let others ← steps? fuel behind
      some (.member name :: others)
  | fuel + 1, '[' :: rest => do
      let number ← number? (rest.takeWhile (· ≠ ']'))
      let others ← match rest.dropWhile (· ≠ ']') with
        | _ :: behind => steps? fuel behind
        | [] => none
      some (.item number :: others)
  | _ + 1, _ => none

/-- The steps that a text writes out. -/
def parse? (s : String) : Option SettingKey := do
  let (name, behind) ← name? s.toList
  let others ← steps? behind.length behind
  some (.member name :: others)

/-- The key that a text denotes. A text that does not write out steps is a name as a whole. -/
def ofString (s : String) : SettingKey := (parse? s).getD [.member s]

end SettingKey

namespace SettingValue

/-- Members of a table; anything else has none. -/
def membersOrEmpty : SettingValue → List (String × SettingValue)
  | .table members => members
  | _ => []

/-- Items of a list; anything else has none. -/
def itemsOrEmpty : SettingValue → List SettingValue
  | .list items => items
  | _ => []

mutual

/-- The table with a member written. A table is merged into what stands there, any other value
    replaces it. -/
def put (name : String) : SettingValue → SettingValue → SettingValue
  | .table incoming, old =>
      let members := old.membersOrEmpty
      let target := (KeyMap.find? (lower name) members).getD (.table [])
      .table (KeyMap.insert (lower name) (putAll incoming target) members)
  | value, old => .table (KeyMap.insert (lower name) value old.membersOrEmpty)

/-- The table with members written one after the other. -/
def putAll : List (String × SettingValue) → SettingValue → SettingValue
  | [], old => old
  | (name, value) :: rest, old => putAll rest (put name value old)

end

/-- Lists of settings are shorter than this bound, `2 ^ 32`. -/
def lengthBound : Nat := 0x100000000

/-- The place of an item in a list of some length; none if no list can be padded to it. -/
def position? (number : Int) (length : Nat) : Option Nat :=
  let place := if number < 0 then number + length else number
  if place < 0 then none else some place.toNat |>.filter (· < lengthBound)

/-- What stands in the place of `old` after a value is written some steps below it; none if a list
    cannot be padded. -/
def write? (value : SettingValue) : SettingKey → SettingValue → Option SettingValue
  | [], _ => some value
  | [.member name], old => some (put name value old)
  | .member name :: rest, old => do
      let members := old.membersOrEmpty
      let inner ← write? value rest ((KeyMap.find? name members).getD .null)
      some (.table (KeyMap.insert name inner members))
  | .item number :: rest, old => do
      let items := old.itemsOrEmpty
      let place ← position? number items.length
      let padded := items ++ List.replicate (place + 1 - items.length) .null
      let inner ← write? value rest (items[place]?.getD .null)
      some (.list (padded.set place inner))

end SettingValue

end GatedForms

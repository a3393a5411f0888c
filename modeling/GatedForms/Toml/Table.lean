import GatedForms.KeyMap
import GatedForms.Toml.Key
import GatedForms.Settings.Value

/-! # Tables in TOML

Tables come about in three ways: a header opens them, a longer header implies them, or the points of
a key make them. The ways decide which tables may be added to: a table is opened once, a header may
open an implied table later, and points lead through no opened table.
-/

namespace GatedForms.Toml

/-- How a table came about. -/
inductive Origin where
  /-- By its own header; the table of the whole text and tables in braces count as opened too. -/
  | opened
  /-- By the header of a table inside it. -/
  | implied
  /-- By a point in the key of a value. -/
  | dotted
  deriving Repr, DecidableEq, BEq

/-- What stands under a name. -/
inductive Entry where
  | value (v : SettingValue)
  | table (origin : Origin) (entries : List (String × Entry))
  /-- An array of tables, the newest apart from the earlier ones, of which the last comes first. -/
  | tables (newest : List (String × Entry)) (earlier : List (List (String × Entry)))

/-- Entries of a table by name. -/
abbrev Entries := List (String × Entry)

namespace Entries

/-- Change the table at the end of a path; none if the path is blocked. Missing tables are made on
    the way, and an array of tables leads to its newest one. `isKey` tells that the path belongs to
    the key of a value and not to a header. -/
def change? (isKey : Bool) (edit : Origin → Entries → Option Entries) :
    List String → Origin → Entries → Option Entries
  | [], origin, entries => edit origin entries
  | name :: path, _, entries =>
      match KeyMap.find? name entries with
      | none => do
          let origin : Origin := if isKey then .dotted else .implied
          let inner ← change? isKey edit path origin []
          some (KeyMap.insert name (.table origin inner) entries)
      | some (.table origin inner) =>
          if isKey && origin = .opened then none
          else do
            let changed ← change? isKey edit path origin inner
            some (KeyMap.insert name (.table origin changed) entries)
      | some (.tables newest earlier) => do
          let changed ← change? isKey edit path .opened newest
          some (KeyMap.insert name (.tables changed earlier) entries)
      | some (.value _) => none

/-- Write a value under a name that is still free. Only keys with points add to the tables that
    points have made, and they add to no others. -/
def addValue? (key : Key) (value : SettingValue) (origin : Origin) (entries : Entries) :
    Option Entries :=
  if origin = .dotted ↔ key.tables = [] then none
  else if (KeyMap.find? key.last entries).isSome then none
  else some (KeyMap.insert key.last (.value value) entries)

/-- Write a value under a key, which starts at an opened table. -/
def add? (key : Key) (value : SettingValue) (entries : Entries) : Option Entries :=
  change? true (addValue? key value) key.tables .opened entries

/-- Open a table that is new, or that was only implied. -/
def openTable? (name : String) (_ : Origin) (entries : Entries) : Option Entries :=
  match KeyMap.find? name entries with
  | none => some (KeyMap.insert name (.table .opened []) entries)
  | some (.table .implied inner) => some (KeyMap.insert name (.table .opened inner) entries)
  | some _ => none

/-- Open the next table of an array of tables. -/
def openNext? (name : String) (_ : Origin) (entries : Entries) : Option Entries :=
  match KeyMap.find? name entries with
  | none => some (KeyMap.insert name (.tables [] []) entries)
  | some (.tables newest earlier) =>
      some (KeyMap.insert name (.tables [] (newest :: earlier)) entries)
  | some _ => none

/-- Open the table of a header, or the next one of its array. -/
def open? (isArray : Bool) (header : Key) (entries : Entries) : Option Entries :=
  let edit := if isArray then openNext? header.last else openTable? header.last
  change? false edit header.tables .opened entries

/-- Write a value under a key below a header. -/
def addBelow? (header : List String) (key : Key) (value : SettingValue) (entries : Entries) :
    Option Entries :=
  change? false (fun _ table => add? key value table) header .opened entries

end Entries

mutual

def Entry.toValue : Entry → SettingValue
  | .value v => v
  | .table _ entries => .table (entriesToMembers entries)
  | .tables newest earlier =>
      .list (tablesToItems earlier [.table (entriesToMembers newest)])

def entriesToMembers : List (String × Entry) → List (String × SettingValue)
  | [] => []
  | (name, entry) :: rest => (name, entry.toValue) :: entriesToMembers rest

/-- The values of tables, the first one last, in front of others. -/
def tablesToItems : List (List (String × Entry)) → List SettingValue → List SettingValue
  | [], items => items
  | table :: rest, items => tablesToItems rest (.table (entriesToMembers table) :: items)

end

end GatedForms.Toml

import GatedForms.Form
import GatedForms.Settings.Key

/-! # Settings

Settings come in layers: the defaults, a settings file, and variables of the environment. A later
layer is written on top of the earlier ones.
-/

namespace GatedForms

/-- What can be set. -/
structure Settings where
  adminOnlyPaths : List String
  /-- How long success of a button lasts, in milliseconds. -/
  successDwellMs : Nat
  validationScope : ScopePolicy
  deriving Repr, DecidableEq, BEq

/-- Values with the texts of their keys, in the order in which they are written. -/
abbrev SettingLayer := List (String × SettingValue)

/-- Why there are no settings. -/
inductive SettingsError where
  /-- A file is not in order, or a value does not fit its setting. -/
  | invalid
  /-- A key names an item of a list that no list can be padded to. -/
  | unpaddable
  deriving Repr, DecidableEq, BEq

namespace Settings

/-- The settings that hold if nothing else is said. -/
def defaultLayer : SettingLayer :=
  [ ("success_dwell_ms", .int 3000)
  , ("validation_scope", .text "whole_form")
  , ("admin_only_paths", .list
      [ .text "List Exit Strategy.exitStrategy.maxAttempts"
      , .text "List Exit Strategy.exitStrategy.gap"
      , .text "Call Recording.retention" ]) ]

/-- Name of the settings file that is read if no other one is given. -/
def defaultFile : String := "dialer_forms.toml"

/-- How the variables of the environment begin that are settings, in lower case. -/
def variableStart : String := "dialer_forms_"

/-- Names of the variables that are settings, in capitals. -/
def variableNames : List String :=
  [ "DIALER_FORMS_ADMIN_ONLY_PATHS", "DIALER_FORMS_SUCCESS_DWELL_MS"
  , "DIALER_FORMS_VALIDATION_SCOPE" ]

/-- The setting of a variable. Its name may be in any case. -/
def settingOf? (variableName : String) : Option String :=
  let lower := (SettingValue.lower variableName).toList
  if variableStart.toList.isPrefixOf lower then
    some (String.ofList (lower.drop variableStart.toList.length))
  else none

/-- The value of a variable: a truth value or a number if it looks like one, else a text. Only the
    admin-only paths are a list, whose items stand between commas. -/
def ofVariable (setting raw : String) : SettingValue :=
  if SettingValue.lower raw = "true" then .bool true
  else if SettingValue.lower raw = "false" then .bool false
  else match Text.integer? raw.toList with
    | some n => .int n
    | none =>
        match Text.float? raw.toList with
        | some value => value
        | none =>
            if setting = "admin_only_paths" then .list ((Text.split ',' raw).map .text)
            else .text raw

def environmentLayer (environment : List (String × String)) : SettingLayer :=
  environment.filterMap fun (name, raw) =>
    (settingOf? name).map fun setting => (setting, ofVariable setting raw)

/-- The policy of a name, in any case. -/
def policy? (name : String) : Option ScopePolicy :=
  if SettingValue.lower name = ScopePolicy.wholeForm.name then some .wholeForm
  else if SettingValue.lower name = ScopePolicy.currentStep.name then some .currentStep
  else none

/-- Write a layer on top of what is set. -/
def writeLayer? (table : SettingValue) (layer : SettingLayer) : Option SettingValue :=
  layer.foldlM (fun written (key, value) => value.write? (SettingKey.ofString key) written) table

/-- The settings of a table; none if a value does not fit its setting. -/
def ofTable? (table : SettingValue) : Option Settings := do
  let value? (setting : String) := KeyMap.find? setting table.membersOrEmpty
  let paths ← (← value? "admin_only_paths").texts?
  let dwell ← (← value? "success_dwell_ms").natural?
  let scope ← (← value? "validation_scope").name?
  return ⟨paths, dwell, ← policy? scope⟩

/-- The settings of layers, which are written in their order. -/
def ofLayers (layers : List SettingLayer) : Except SettingsError Settings :=
  match layers.foldlM writeLayer? (.table []) with
  | none => .error .unpaddable
  | some table =>
      match ofTable? table with
      | some settings => .ok settings
      | none => .error .invalid

/-- All admin-only paths; the first bad one decides. -/
def adminPaths (settings : Settings) : Except PathError (List AdminPath) :=
  AdminPath.parseAll settings.adminOnlyPaths

/-- The admin-only paths of one schema. All paths have to be good. -/
def adminPathsFor (settings : Settings) (schemaKey : String) :
    Except PathError (List AdminPath) := do
  let paths ← settings.adminPaths
  return paths.filter fun path => path.keys.head? = some schemaKey

end Settings

end GatedForms

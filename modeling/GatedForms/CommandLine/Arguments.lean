import GatedForms.Catalog

/-! # Command line arguments

A command has options, each of which is written `--name` and may take a value, either behind `=` or
as the next argument. Options are taken in order; a value that stands on its own is only checked
when the next option is taken or the arguments end, so a word that makes no sense is found first.
-/

namespace GatedForms

/-- What to do. -/
inductive Command where
  /-- List the bundled forms. -/
  | list
  /-- Print the directives of a form. -/
  | render (kind : SchemaKind) (isAdmin : Bool) (values messages : Option String)
      (step : Option Nat)
  /-- Print a gated schema. -/
  | gate (kind : SchemaKind)
  /-- Click a button. -/
  | submit (kind : SchemaKind) (isAdmin : Bool) (values : Option String) (button : Option String)
  deriving Repr, DecidableEq, BEq

namespace Command

def files : Command → List String
  | .list => []
  | .render _ _ values messages _ => values.toList ++ messages.toList
  | .gate _ => []
  | .submit _ _ values _ => values.toList

end Command

/-- A whole command line. -/
structure Invocation where
  settingsFile : Option String
  verbosity : Nat
  command : Command
  deriving Repr, DecidableEq, BEq

/-- Why a command line asks for nothing that can be done. -/
inductive UsageError where
  | displayHelp
  | displayVersion
  /-- There are no arguments. -/
  | displayHelpForMissing
  | missingCommand
  | unknownCommand
  | unknownArgument
  /-- An option has no value, or one that is not in its list. -/
  | invalidValue
  /-- A value cannot be read. -/
  | unreadableValue
  /-- A flag has a value. -/
  | tooManyValues
  /-- An option is given twice. -/
  | conflict
  | missingOption
  deriving Repr, DecidableEq, BEq

namespace UsageError

def message : UsageError → String
  | .displayHelp => "help was asked for"
  | .displayVersion => "the version was asked for"
  | .displayHelpForMissing => "no arguments"
  | .missingCommand => "no command"
  | .unknownCommand => "unknown command"
  | .unknownArgument => "unknown argument"
  | .invalidValue => "invalid value of an option"
  | .unreadableValue => "unreadable value of an option"
  | .tooManyValues => "a flag takes no value"
  | .conflict => "an option is given twice"
  | .missingOption => "a required option is missing"

end UsageError

/-- What an option takes. -/
inductive OptionShape where
  /-- Nothing; it is given at most once. -/
  | flag
  /-- Nothing; it is counted. -/
  | counter
  /-- Ends the command line with a help text. -/
  | help
  /-- Ends the command line with the version. -/
  | version
  /-- The name of a bundled form. -/
  | kind
  /-- The name of a file, which is not empty. -/
  | file
  /-- Any text. -/
  | word
  /-- A natural number. -/
  | natural
  deriving Repr, DecidableEq, BEq

namespace OptionShape

def takesValue : OptionShape → Bool
  | .kind => true
  | .file => true
  | .word => true
  | .natural => true
  | _ => false

def check (value : String) : OptionShape → Except UsageError Unit
  | .kind => if (SchemaKind.ofName? value).isSome then .ok () else .error .invalidValue
  | .file => if value.isEmpty then .error .invalidValue else .ok ()
  | .natural =>
      if (Text.natural? value.toList).isSome then .ok () else .error .unreadableValue
  | _ => .ok ()

end OptionShape

/-- An option of a command. -/
structure OptionSpec where
  name : String
  letter : Option Char
  shape : OptionShape
  deriving Repr, DecidableEq, BEq

/-- The names of the commands. -/
inductive CommandName where
  | list
  | render
  | gate
  | submit
  deriving Repr, DecidableEq, BEq

namespace CommandName

def ofText? (s : String) : Option CommandName :=
  if s = "list" then some .list
  else if s = "render" then some .render
  else if s = "gate" then some .gate
  else if s = "submit" then some .submit
  else none

/-- Options that stand before and behind the command. -/
def globalOptions : List OptionSpec :=
  [⟨"config", none, .file⟩, ⟨"verbose", some 'v', .counter⟩, ⟨"help", some 'h', .help⟩]

def outerOptions : List OptionSpec := globalOptions ++ [⟨"version", some 'V', .version⟩]

def options : CommandName → List OptionSpec
  | .list => globalOptions
  | .render =>
      [ ⟨"schema", none, .kind⟩, ⟨"admin", none, .flag⟩, ⟨"values", none, .file⟩
      , ⟨"errors", none, .file⟩, ⟨"step", none, .natural⟩ ] ++ globalOptions
  | .gate => ⟨"schema", none, .kind⟩ :: globalOptions
  | .submit =>
      [ ⟨"schema", none, .kind⟩, ⟨"admin", none, .flag⟩, ⟨"values", none, .file⟩
      , ⟨"button", none, .word⟩ ] ++ globalOptions

end CommandName

/-- The options taken so far. -/
structure TakenOptions where
  /-- Flags and values, in the order in which they were checked. -/
  taken : List (String × Option String)
  /-- An option whose value was not checked yet, or not even read. -/
  waiting : Option (OptionSpec × Option String)
  /-- Behind `--` nothing is an option. -/
  isClosed : Bool
  deriving Repr, DecidableEq, BEq

namespace TakenOptions

def empty : TakenOptions := ⟨[], none, false⟩

def has (t : TakenOptions) (name : String) : Bool := t.taken.any fun entry => entry.1 = name

def value? (t : TakenOptions) (name : String) : Option String :=
  (t.taken.find? fun entry => entry.1 = name).bind Prod.snd

/-- How often an option was taken; counting stops at 255. -/
def count (t : TakenOptions) (name : String) : Nat :=
  min 255 (t.taken.countP fun entry => entry.1 = name)

def takeValue (t : TakenOptions) (option : OptionSpec) (value : String) :
    Except UsageError TakenOptions :=
  if t.has option.name then .error .conflict
  else do
    option.shape.check value
    .ok { t with taken := t.taken ++ [(option.name, some value)] }

/-- Check the option that waits. -/
def settle (t : TakenOptions) : Except UsageError TakenOptions :=
  match t.waiting with
  | none => .ok t
  | some (_, none) => .error .invalidValue
  | some (option, some value) => takeValue { t with waiting := none } option value

def takeFlag (t : TakenOptions) (option : OptionSpec) : Except UsageError TakenOptions := do
  let t ← t.settle
  let taken := { t with taken := t.taken ++ [(option.name, none)] }
  match option.shape with
  | .help => .error .displayHelp
  | .version => .error .displayVersion
  | .counter => .ok taken
  | _ => if t.has option.name then .error .conflict else .ok taken

/-- Take an option written with its name, and the value behind `=`, if any. -/
def takeLong (t : TakenOptions) (options : List OptionSpec) (name : String)
    (attached : Option String) : Except UsageError TakenOptions :=
  match options.find? fun option => option.name = name with
  | none => .error .unknownArgument
  | some option =>
      if option.shape.takesValue then do
        let t ← t.settle
        match attached with
        | some value => t.takeValue option value
        | none => .ok { t with waiting := some (option, none) }
      else match attached with
        | some _ => .error .tooManyValues
        | none => t.takeFlag option

/-- Take options written with their letters. -/
def takeLetters (options : List OptionSpec) (t : TakenOptions) :
    List Char → Except UsageError TakenOptions
  | [] => .ok t
  | letter :: rest =>
      match options.find? fun option => option.letter = some letter with
      | none => .error .unknownArgument
      | some option => do
          let t ← t.takeFlag option
          takeLetters options t rest

/-- Take an argument, if it is part of an option; none if it is a word on its own. -/
def take? (t : TakenOptions) (options : List OptionSpec) (argument : String) :
    Option (Except UsageError TakenOptions) :=
  if t.isClosed then none
  else match argument.toList with
    | ['-', '-'] => some (.ok { t with isClosed := true })
    | '-' :: '-' :: long =>
        let name := String.ofList (long.takeWhile (· ≠ '='))
        match long.dropWhile (· ≠ '=') with
        | [] => some (t.takeLong options name none)
        | _ :: value => some (t.takeLong options name (some (String.ofList value)))
    | '-' :: letter :: rest => some (takeLetters options t (letter :: rest))
    | _ =>
        match t.waiting with
        | some (option, none) => some (.ok { t with waiting := some (option, some argument) })
        | _ => none

end TakenOptions

namespace Command

/-- The bundled form that a command is about. -/
def kindOf (t : TakenOptions) : Except UsageError SchemaKind :=
  match (t.value? "schema").bind SchemaKind.ofName? with
  | some kind => .ok kind
  | none => .error .missingOption

/-- The command of a name and its options. -/
def ofOptions (t : TakenOptions) : CommandName → Except UsageError Command
  | .list => .ok .list
  | .render => do
      let kind ← kindOf t
      .ok (.render kind (t.has "admin") (t.value? "values") (t.value? "errors")
        ((t.value? "step").bind fun s => Text.natural? s.toList))
  | .gate => do
      let kind ← kindOf t
      .ok (.gate kind)
  | .submit => do
      let kind ← kindOf t
      .ok (.submit kind (t.has "admin") (t.value? "values") (t.value? "button"))

end Command

namespace Invocation

/-- Take the arguments behind a command. There are no words on their own. -/
def takeInner (options : List OptionSpec) (t : TakenOptions) :
    List String → Except UsageError TakenOptions
  | [] => t.settle
  | argument :: rest =>
      match t.take? options argument with
      | some taken => do
          let t ← taken
          takeInner options t rest
      | none => .error .unknownArgument

/-- The command line of a command: options that stand on both sides count behind the command. -/
def assemble (outer : TakenOptions) (name : CommandName) (arguments : List String) :
    Except UsageError Invocation := do
  let inner ← takeInner name.options .empty arguments
  let command ← Command.ofOptions inner name
  let outer ← outer.settle
  .ok
    { settingsFile := (inner.value? "config").or (outer.value? "config")
      verbosity := if inner.has "verbose" then inner.count "verbose" else outer.count "verbose"
      command := command }

/-- What to show for the words behind `help`. -/
def helpFor : List String → UsageError
  | [] => .displayHelp
  | [topic] =>
      if (CommandName.ofText? topic).isSome ∨ topic = "help" then .displayHelp else .unknownCommand
  | _ => .unknownCommand

/-- Arguments that end before a command. -/
def withoutCommand (t : TakenOptions) : UsageError :=
  match t.settle with
  | .error e => e
  | .ok t => if t.taken.isEmpty then .displayHelpForMissing else .missingCommand

/-- Take the arguments up to the command, and then the rest. -/
def takeOuter (t : TakenOptions) : List String → Except UsageError Invocation
  | [] => .error (withoutCommand t)
  | argument :: rest =>
      match t.take? CommandName.outerOptions argument with
      | some taken => do
          let t ← taken
          takeOuter t rest
      | none =>
          match CommandName.ofText? argument, t.isClosed with
          | some name, false => assemble t name rest
          | some _, true => .error .unknownArgument
          | none, closed =>
              if argument = "help" then .error (if closed then .unknownArgument else helpFor rest)
              else .error .unknownCommand

def parse (arguments : List String) : Except UsageError Invocation := takeOuter .empty arguments

end Invocation

end GatedForms

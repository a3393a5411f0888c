import GatedForms.CommandLine.Arguments
import GatedForms.CommandLine.Surroundings
import GatedForms.Directive.Encode
import GatedForms.Json.Printer
import GatedForms.Messages.Document
import GatedForms.Schema.Document
import GatedForms.Simulation

/-! # Commands

Rendering, gating and submitting a bundled form, and the commands that print the results.
-/

namespace GatedForms

/-- Why a command fails. -/
inductive CommandError where
  /-- There are no settings. -/
  | settings (cause : SettingsError)
  /-- There is no such file. -/
  | unreadable (file : String)
  | notJson (file : String)
  | notMessages (file : String)
  /-- An admin-only path of the settings is no path. -/
  | adminPaths (cause : PathError)
  | rules (cause : CatalogError)
  | noStep (kind : SchemaKind) (count step : Nat)
  | noSubmitButton (kind : SchemaKind)
  | unknownButton (id : ButtonId)
  /-- The validation of a submitted form failed. -/
  | rejected (count : Nat)
  /-- A click did not end. -/
  | busy (id : ButtonId)
  deriving Repr, DecidableEq, BEq

namespace CommandError

def message : CommandError → String
  | .settings _ => "failed to load configuration"
  | .unreadable file => "cannot read " ++ file
  | .notJson file => file ++ " is not valid JSON"
  | .notMessages file => file ++ " is not a valid errors file"
  | .adminPaths _ => "invalid admin_only_paths in configuration"
  | .rules cause => cause.message
  | .noStep kind count step =>
      "`" ++ kind.name ++ "` has " ++ toString count ++ " sections, no step " ++ toString step
  | .noSubmitButton kind => "`" ++ kind.name ++ "` has no submit button"
  | .unknownButton id => (ActionError.unknownButton id).message
  | .rejected count => "validation failed with " ++ toString count ++ " error(s)"
  | .busy id => "button `" ++ id ++ "` is still busy"

/-- Wordings of the causes, from the nearest to the root. -/
def causes : CommandError → List String
  | .adminPaths cause => [cause.message]
  | .rules cause => [cause.cause.message]
  | _ => []

end CommandError

namespace SchemaKind

/-- The form of a bundled schema under some settings. -/
def form (kind : SchemaKind) (viewer : Viewer) (settings : Settings) :
    Except CommandError Form :=
  match settings.adminPathsFor kind.schema.backendKey with
  | .ok paths => .ok (.build kind.schema paths viewer settings.validationScope)
  | .error cause => .error (.adminPaths cause)

/-- The directives of a bundled form, or of one of its sections. -/
def render (kind : SchemaKind) (viewer : Viewer) (values : Values) (messages : Messages)
    (step : Option Nat) (settings : Settings) : Except CommandError Json := do
  let form ← kind.form viewer settings
  let sections := form.render values messages
  match step with
  | none => .ok (.array (sections.map SectionDirective.toJson))
  | some index =>
      match sections[index]? with
      | some shown => .ok shown.toJson
      | none => .error (.noStep kind sections.length index)

/-- A bundled schema with its marks, and what gating it finds. -/
def gate (kind : SchemaKind) (settings : Settings) : Except CommandError Json := do
  let form ← kind.form ⟨true⟩ settings
  .ok (Json.ofMembers
    [ ("schema", form.schema.toJson)
    , ("gated_fields", Json.nat form.report.gatedFields)
    , ("unmatched", .array (form.report.unmatched.map fun path => .text path.display)) ])

end SchemaKind

/-- What came of a submission. -/
inductive Submitted where
  /-- The click on the button ended well; the payload is what the form submits. -/
  | accepted (button : ButtonId) (payload : Values)
  | rejected (messages : Messages)

namespace Machine

/-- The values of the last submit call. -/
def submittedValues? (m : Machine) : Option Values :=
  m.calls.reverse.findSome? fun entry =>
    match entry.2 with
    | .submit values => some values
    | _ => none

end Machine

namespace SchemaKind

/-- Handlers that validate by rules and take everything. -/
def plan (validator : Validator) : Plan :=
  { validateDelay := 0
    validate := fun values scope => (validator.check values scope).map some
    actDelay := 0
    failure := none
    isLogged := false }

def submitButton? (schema : Schema) : Option ButtonId :=
  (schema.buttons.find? fun place => place.action = .submit).map ButtonPlace.id

/-- Click a button of a form and collect the payload, from the values of the submit call if there
    was one and from the values given otherwise. -/
def clickOnce (form : Form) (validator : Validator) (id : ButtonId) (values : Values) :
    Except CommandError Submitted :=
  let idle := Simulation.start form ⟨true, false⟩ 0
  match form.click? idle.run.cursor id values with
  | none => .error (.unknownButton id)
  | some click =>
      let (ticket, done) := idle.begin click (plan validator)
      match done.outcome? ticket with
      | some .completed =>
          let submitted := done.run.machine.submittedValues?.getD values
          .ok (.accepted id (form.submission submitted))
      | some (.invalid messages) => .ok (.rejected messages)
      | _ => .error (.busy id)

/-- Submit a bundled form by a button, by default the first submit button. -/
def submit (kind : SchemaKind) (viewer : Viewer) (values : Values) (button : Option ButtonId)
    (settings : Settings) : Except CommandError Submitted := do
  let form ← kind.form viewer settings
  let validator ← match kind.validator form.schema with
    | .ok validator => .ok validator
    | .error cause => .error (.rules cause)
  match button.or (submitButton? form.schema) with
  | some id => clickOnce form validator id values
  | none => .error (.noSubmitButton kind)

end SchemaKind

/-- What a command has printed, and why it failed, if it did. -/
structure Execution where
  output : String
  failure : Option CommandError
  deriving Repr, DecidableEq, BEq

namespace Command

/-- Content of a file that has to be there. -/
def contentOf (surroundings : Surroundings) (file : String) : Except CommandError String :=
  match surroundings.read? file with
  | some content => .ok content
  | none => .error (.unreadable file)

/-- The values in a file; no values without a file. -/
def readValues (surroundings : Surroundings) : Option String → Except CommandError Values
  | none => .ok .empty
  | some file => do
      let content ← contentOf surroundings file
      match Json.ofString content with
      | .ok root => .ok (.ofJson root)
      | .error _ => .error (.notJson file)

/-- The messages in a file; no messages without a file. -/
def readMessages (surroundings : Surroundings) : Option String → Except CommandError Messages
  | none => .ok .empty
  | some file => do
      let content ← contentOf surroundings file
      let scanned := DocumentText.ofString content
      match Messages.load scanned.document, scanned.trailing with
      | .ok messages, none => .ok messages
      | _, _ => .error (.notMessages file)

/-- A line of the list of bundled forms. -/
def listLine (kind : SchemaKind) : String :=
  kind.name ++ "\t" ++ kind.schema.title ++ "\t" ++ toString kind.schema.sections.length
    ++ " sections\n"

/-- An indented document on lines of its own. -/
def page (value : Json) : String := value.indented ++ "\n"

/-- Run a command under settings. What it prints and why it fails come together, because a rejected
    submission prints its messages. -/
def run (surroundings : Surroundings) (settings : Settings) (command : Command) :
    Except CommandError Execution :=
  match command with
  | .list => .ok ⟨"".intercalate (SchemaKind.all.map listLine), none⟩
  | .render kind isAdmin values messages step => do
      let values ← readValues surroundings values
      let messages ← readMessages surroundings messages
      let shown ← kind.render ⟨isAdmin⟩ values messages step settings
      .ok ⟨page shown, none⟩
  | .gate kind => do
      let shown ← kind.gate settings
      .ok ⟨page shown, none⟩
  | .submit kind isAdmin values button => do
      let values ← readValues surroundings values
      match ← kind.submit ⟨isAdmin⟩ values button settings with
      | .accepted _ payload => .ok ⟨page payload.toJson, none⟩
      | .rejected messages => .ok ⟨page messages.toJson, some (.rejected messages.count)⟩

end Command

namespace Invocation

/-- The files that a command line may read. -/
def files (invocation : Invocation) : List String :=
  let settings := invocation.settingsFile.getD Settings.defaultFile
  settings :: (FileName.completed? settings).toList ++ invocation.command.files

def execute (surroundings : Surroundings) (invocation : Invocation) : Execution :=
  match Settings.load surroundings invocation.settingsFile with
  | .error cause => ⟨"", some (.settings cause)⟩
  | .ok settings =>
      match invocation.command.run surroundings settings with
      | .ok execution => execution
      | .error failure => ⟨"", some failure⟩

end Invocation

/-- What the whole program does for its arguments. -/
structure ProgramResult where
  /-- What it prints. -/
  output : String
  /-- What it complains about, from the nearest cause to the root. -/
  complaints : List String
  exitCode : Nat
  deriving Repr, DecidableEq, BEq

namespace ProgramResult

def versionLine : String := "dialer-forms 0.1.0\n"

/-- Result of a command line that asks for nothing that can be done. -/
def ofUsage : UsageError → ProgramResult
  | .displayVersion => ⟨versionLine, [], 0⟩
  | .displayHelp => ⟨"", [], 0⟩
  | usage => ⟨"", [usage.message], 2⟩

def ofExecution (execution : Execution) : ProgramResult :=
  match execution.failure with
  | none => ⟨execution.output, [], 0⟩
  | some failure => ⟨execution.output, failure.message :: failure.causes, 1⟩

def run (surroundings : Surroundings) (arguments : List String) : ProgramResult :=
  match Invocation.parse arguments with
  | .error usage => ofUsage usage
  | .ok invocation => ofExecution (invocation.execute surroundings)

end ProgramResult

end GatedForms

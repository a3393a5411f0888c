import GatedForms.Button.Machine
import GatedForms.Gating
import GatedForms.Submission

/-! # Forms

A form is a gated schema for one viewer. Its steps are the sections that are not button rows. While
a form runs, a cursor stands on one of the steps; completed `NEXT` and `PREVIOUS` clicks move it.
-/

namespace GatedForms

/-- What `NEXT` validates. `SUBMIT` always validates the whole form. -/
inductive ScopePolicy where
  | wholeForm
  /-- Only the section that the cursor is on. -/
  | currentStep
  deriving Repr, DecidableEq, BEq

namespace ScopePolicy

def name : ScopePolicy → String
  | .wholeForm => "whole_form"
  | .currentStep => "current_step"

end ScopePolicy

/-- A gated schema for one viewer. -/
structure Form where
  schema : Schema
  viewer : Viewer
  policy : ScopePolicy
  report : GatingReport

namespace FormSection

/-- Positions of the content sections, counted from `index`. -/
def contentFrom (index : Nat) : List FormSection → List Nat
  | [] => []
  | s :: rest =>
      if s.layout = .vertical then index :: contentFrom (index + 1) rest
      else contentFrom (index + 1) rest

end FormSection

namespace Form

def build (template : Schema) (paths : List AdminPath) (viewer : Viewer) (policy : ScopePolicy) :
    Form :=
  ⟨template.gate paths, viewer, policy, template.gatingReport paths⟩

/-- A form without sections, for machines that run on their own. -/
def empty : Form := ⟨⟨"", "", []⟩, ⟨false⟩, .wholeForm, ⟨[], 0⟩⟩

/-- Positions of the sections that are steps, in order. -/
def steps (form : Form) : List Nat := FormSection.contentFrom 0 form.schema.sections

/-- The step that the cursor starts on. -/
def firstStep (form : Form) : Nat := form.steps.headD 0

/-- The nearest later step, or the same one at the end. -/
def stepAfter (form : Form) (cursor : Nat) : Nat :=
  (form.steps.find? fun index => cursor < index).getD cursor

/-- The nearest earlier step, or the same one at the start. -/
def stepBefore (form : Form) (cursor : Nat) : Nat :=
  (form.steps.reverse.find? fun index => index < cursor).getD cursor

/-- Where a completed click leaves the cursor. -/
def moveCursor (form : Form) (action : ButtonAction) (cursor : Nat) : Nat :=
  match action with
  | .next => form.stepAfter cursor
  | .previous => form.stepBefore cursor
  | .submit => cursor
  | .custom => cursor

/-- What a click validates while the cursor is on a step. -/
def scopeFor (form : Form) (action : ButtonAction) (cursor : Nat) : ValidationScope :=
  match action, form.policy with
  | .next, .currentStep => .formSection cursor
  | _, _ => .form

/-- The click on a button of the form; none if it has no such button. -/
def click? (form : Form) (cursor : Nat) (id : ButtonId) (values : Values) : Option Click :=
  (form.schema.button? id).map fun place =>
    ⟨id, place.action, form.scopeFor place.action cursor, values⟩

def render (form : Form) (values : Values) (messages : Messages) : List SectionDirective :=
  form.schema.resolve form.viewer values messages

/-- The directives of the section under the cursor. -/
def renderStep? (form : Form) (cursor : Nat) (values : Values) (messages : Messages) :
    Option SectionDirective :=
  form.schema.sections[cursor]?.map (FormSection.resolve form.viewer values messages)

def submission (form : Form) (values : Values) : Values :=
  form.schema.submission form.viewer values

end Form

/-- A form while it runs. -/
structure FormRun where
  form : Form
  machine : Machine
  cursor : Nat

/-- What can happen to a form. -/
inductive FormStep where
  /-- A click on a button; nothing happens if the form has no such button. -/
  | click (id : ButtonId) (values : Values)
  | validated (ticket : Nat) (result : Validation)
  | acted (ticket : Nat) (failure : Option HandlerFailure)
  | drop (ticket : Nat)
  | expire (id : ButtonId) (generation : Nat)

namespace FormRun

/-- A form on which nothing has happened. -/
def start (form : Form) (config : MachineConfig) : FormRun :=
  ⟨form, .start config, form.firstStep⟩

/-- Whether the whole form should be disabled. -/
def isBusy (run : FormRun) (submitting : Bool) : Bool := submitting || run.machine.anyPending

/-- Where the cursor stands after the handler of a click has answered. -/
def cursorAfter (run : FormRun) (ticket : Nat) (failure : Option HandlerFailure) : Nat :=
  match run.machine.pending? ticket, failure with
  | some p, none =>
      if p.phase = .acting then run.form.moveCursor p.click.action run.cursor else run.cursor
  | _, _ => run.cursor

def step (run : FormRun) : FormStep → FormRun
  | .click id values =>
      match run.form.click? run.cursor id values with
      | some c => { run with machine := run.machine.step (.click c) }
      | none => run
  | .validated ticket result => { run with machine := run.machine.step (.validated ticket result) }
  | .acted ticket failure =>
      { run with
        machine := run.machine.step (.acted ticket failure)
        cursor := run.cursorAfter ticket failure }
  | .drop ticket => { run with machine := run.machine.step (.drop ticket) }
  | .expire id generation => { run with machine := run.machine.step (.expire id generation) }

def run (r : FormRun) (steps : List FormStep) : FormRun := steps.foldl step r

end FormRun

end GatedForms

import GatedForms.Button.Slot
import GatedForms.Rules

/-! # The button machine

A click runs in phases: `NEXT` and `SUBMIT` validate first, then the handler of the action runs. The
caller decides when a phase ends and how; until then other clicks, drops and timers may come in
between. The machine is the table of buttons together with the clicks in flight, and a step is
anything that can happen to it.
-/

namespace GatedForms

/-- Settings of a machine. -/
structure MachineConfig where
  /-- Whether there is a clock that ends success after a while. -/
  hasClock : Bool
  /-- Whether someone listens to the events. -/
  hasListener : Bool
  deriving Repr, DecidableEq, BEq

/-- A call of one of the caller's handlers. -/
inductive HandlerCall where
  | validate (scope : ValidationScope) (values : Values)
  | next (values : Values)
  | previous
  | submit (values : Values)
  | custom (id : ButtonId) (values : Values)

/-- What a validation answers: transformed values, if any, or messages. -/
abbrev Validation := Except Messages (Option Values)

/-- Why a handler failed: what it was about, from the outermost context to the root. -/
structure HandlerFailure where
  outermost : String
  causes : List String
  deriving Repr, DecidableEq, BEq

namespace HandlerFailure

/-- All contexts in one line. -/
def chain (failure : HandlerFailure) : String :=
  ": ".intercalate (failure.outermost :: failure.causes)

end HandlerFailure

/-- How a click ended. -/
inductive ClickOutcome where
  /-- The button was loading already. -/
  | ignored
  /-- Validation failed; the handler was not called. -/
  | invalid (messages : Messages)
  | completed
  /-- The handler failed. -/
  | failed (failure : HandlerFailure)
  deriving Repr, DecidableEq, BEq

/-- Why a click was refused or failed. -/
inductive ActionError where
  /-- The form has no such button. -/
  | unknownButton (id : ButtonId)
  /-- The handler of the button failed. -/
  | handler (id : ButtonId) (failure : HandlerFailure)
  deriving Repr, DecidableEq, BEq

namespace ActionError

def message : ActionError → String
  | .unknownButton id => "unknown button: " ++ id
  | .handler id failure => "action " ++ id ++ " failed: " ++ failure.chain

end ActionError

/-- A click on a button. -/
structure Click where
  id : ButtonId
  action : ButtonAction
  scope : ValidationScope
  values : Values

namespace Click

def hookCall (c : Click) (values : Values) : HandlerCall :=
  match c.action with
  | .next => .next values
  | .previous => .previous
  | .submit => .submit values
  | .custom => .custom c.id values

/-- The first call that a click makes. -/
def firstCall (c : Click) : HandlerCall :=
  if c.action.validates then .validate c.scope c.values else c.hookCall c.values

end Click

/-- What an accepted click waits for. -/
inductive ClickPhase where
  | validating
  | acting
  deriving Repr, DecidableEq, BEq

/-- An accepted click that has not ended. -/
structure PendingClick where
  ticket : Nat
  click : Click
  /-- Generation of the button that the click holds in loading. -/
  generation : Nat
  phase : ClickPhase

/-- A machine with everything that it did so far. Clicks are numbered by tickets. -/
structure Machine where
  config : MachineConfig
  table : SlotTable
  pending : List PendingClick
  nextTicket : Nat
  /-- Handler calls, oldest first, each with the ticket of its click. -/
  calls : List (Nat × HandlerCall)
  /-- How clicks ended, oldest first. -/
  outcomes : List (Nat × ClickOutcome)

/-- What can happen to a machine. -/
inductive MachineStep where
  | click (c : Click)
  /-- The validation of a click answers. -/
  | validated (ticket : Nat) (result : Validation)
  /-- The handler of a click answers; a failure is an answer too. -/
  | acted (ticket : Nat) (failure : Option HandlerFailure)
  /-- A click is dropped in flight. -/
  | drop (ticket : Nat)
  /-- The revert of a generation goes off, be it late. -/
  | expire (id : ButtonId) (generation : Nat)

namespace Machine

/-- A machine on which nothing has happened. -/
def start (config : MachineConfig) : Machine := ⟨config, .empty, [], 0, [], []⟩

def state (m : Machine) (id : ButtonId) : ButtonState := m.table.state id

def anyPending (m : Machine) : Bool := m.table.anyLoading

/-- The events that the listener has received, oldest first. -/
def published (m : Machine) : List ButtonEvent :=
  if m.config.hasListener then m.table.events else []

/-- The click in flight of a ticket. -/
def pending? (m : Machine) (ticket : Nat) : Option PendingClick :=
  m.pending.find? fun p => p.ticket = ticket

def outcome? (m : Machine) (ticket : Nat) : Option ClickOutcome :=
  (m.outcomes.find? fun entry => entry.1 = ticket).map Prod.snd

/-- The clicks in flight without the one of a ticket. -/
def without (m : Machine) (ticket : Nat) : List PendingClick :=
  m.pending.filter fun p => p.ticket ≠ ticket

def finish (m : Machine) (ticket : Nat) (table : SlotTable) (outcome : ClickOutcome) : Machine :=
  { m with
    table := table
    pending := m.without ticket
    outcomes := m.outcomes ++ [(ticket, outcome)] }

/-- Begin a click, or ignore it while the button is loading. -/
def click (m : Machine) (c : Click) : Machine :=
  match m.table.accept? c.id with
  | none =>
      { m with
        nextTicket := m.nextTicket + 1
        outcomes := m.outcomes ++ [(m.nextTicket, .ignored)] }
  | some (generation, table) =>
      let phase := if c.action.validates then ClickPhase.validating else .acting
      { m with
        table := table
        pending := m.pending ++ [⟨m.nextTicket, c, generation, phase⟩]
        nextTicket := m.nextTicket + 1
        calls := m.calls ++ [(m.nextTicket, c.firstCall)] }

/-- Go on with a click whose validation has answered. -/
def validated (m : Machine) (p : PendingClick) (result : Validation) : Machine :=
  match result with
  | .error messages =>
      m.finish p.ticket (m.table.settleIdle p.click.id p.generation) (.invalid messages)
  | .ok transformed =>
      { m with
        pending := m.pending.map fun q =>
          if q.ticket = p.ticket then { q with phase := .acting } else q
        calls := m.calls ++ [(p.ticket, p.click.hookCall (transformed.getD p.click.values))] }

/-- End a click whose handler has answered. -/
def acted (m : Machine) (p : PendingClick) (failure : Option HandlerFailure) : Machine :=
  match failure with
  | some reason => m.finish p.ticket (m.table.settleIdle p.click.id p.generation) (.failed reason)
  | none =>
      m.finish p.ticket (m.table.settleSuccess m.config.hasClock p.click.id p.generation) .completed

def drop (m : Machine) (p : PendingClick) : Machine :=
  { m with
    table := m.table.settleIdle p.click.id p.generation
    pending := m.without p.ticket }

/-- Let something happen. Answers to clicks that do not wait for them change nothing. -/
def step (m : Machine) : MachineStep → Machine
  | .click c => m.click c
  | .validated ticket result =>
      match m.pending? ticket with
      | some p => if p.phase = .validating then m.validated p result else m
      | none => m
  | .acted ticket failure =>
      match m.pending? ticket with
      | some p => if p.phase = .acting then m.acted p failure else m
      | none => m
  | .drop ticket =>
      match m.pending? ticket with
      | some p => m.drop p
      | none => m
  | .expire id generation => { m with table := m.table.expire id generation }

def run (m : Machine) (steps : List MachineStep) : Machine := steps.foldl step m

end Machine

end GatedForms

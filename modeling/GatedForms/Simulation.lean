import GatedForms.Form

/-! # Forms on a virtual clock

A simulation runs a form against handlers whose answers and delays are known beforehand. Time only
moves when something waits for it, from one alarm to the next; an alarm resumes a click or reverts a
button.
-/

namespace GatedForms

/-- How the handlers answer one click. -/
structure Plan where
  validateDelay : Nat
  validate : Values → ValidationScope → Validation
  actDelay : Nat
  failure : Option HandlerFailure
  /-- Whether the handlers report that they were called. -/
  isLogged : Bool

/-- What an alarm does. -/
inductive Wake where
  /-- The handler that a click waits for answers. -/
  | resume (ticket : Nat)
  /-- Success of a button ends. -/
  | revert (id : ButtonId) (generation : Nat)
  deriving Repr, DecidableEq, BEq

/-- Something that happens at a known time. -/
structure Alarm where
  due : Nat
  wake : Wake
  deriving Repr, DecidableEq, BEq

namespace Alarm

/-- Set an alarm among others, which are in the order of their times; of equal times the older one
    comes first. -/
def insert (alarm : Alarm) : List Alarm → List Alarm
  | [] => [alarm]
  | first :: rest =>
      if alarm.due < first.due then alarm :: first :: rest else first :: insert alarm rest

end Alarm

/-- A form, its clock and what is going to happen. Times are in milliseconds. -/
structure Simulation where
  run : FormRun
  /-- How long success lasts. -/
  dwell : Nat
  now : Nat
  alarms : List Alarm
  plans : List (Nat × Plan)

namespace Simulation

/-- A simulation in which nothing has happened. -/
def start (form : Form) (config : MachineConfig) (dwell : Nat) : Simulation :=
  ⟨.start form config, dwell, 0, [], []⟩

/-- How the handlers answer the click of a ticket. -/
def plan? (s : Simulation) (ticket : Nat) : Option Plan :=
  (s.plans.find? fun entry => entry.1 = ticket).map Prod.snd

def setAlarm (s : Simulation) (delay : Nat) (wake : Wake) : Simulation :=
  { s with alarms := Alarm.insert ⟨s.now + delay, wake⟩ s.alarms }

/-- The handler of a click answers. Success sets the alarm that ends it. -/
def finishActing (s : Simulation) (p : PendingClick) (plan : Plan) : Simulation :=
  let next := { s with run := s.run.step (.acted p.ticket plan.failure) }
  if plan.failure.isNone && s.run.machine.config.hasClock then
    next.setAlarm s.dwell (.revert p.click.id p.generation)
  else next

/-- The handler of a click is called. -/
def enterActing (s : Simulation) (p : PendingClick) (plan : Plan) : Simulation :=
  if plan.actDelay = 0 then s.finishActing p plan
  else s.setAlarm plan.actDelay (.resume p.ticket)

/-- The validation of a click answers. -/
def finishValidating (s : Simulation) (p : PendingClick) (plan : Plan) : Simulation :=
  let answer := plan.validate p.click.values p.click.scope
  let next := { s with run := s.run.step (.validated p.ticket answer) }
  match next.run.machine.pending? p.ticket with
  | some acting => next.enterActing acting plan
  | none => next

/-- The validation of a click is called. -/
def enterValidating (s : Simulation) (p : PendingClick) (plan : Plan) : Simulation :=
  if plan.validateDelay = 0 then s.finishValidating p plan
  else s.setAlarm plan.validateDelay (.resume p.ticket)

/-- Begin a click and let it run until it waits. Its ticket comes with the result. -/
def begin (s : Simulation) (c : Click) (plan : Plan) : Nat × Simulation :=
  let ticket := s.run.machine.nextTicket
  let clicked :=
    { s with
      run := { s.run with machine := s.run.machine.step (.click c) }
      plans := s.plans ++ [(ticket, plan)] }
  match clicked.run.machine.pending? ticket with
  | none => (ticket, clicked)
  | some p =>
      match p.phase with
      | .validating => (ticket, clicked.enterValidating p plan)
      | .acting => (ticket, clicked.enterActing p plan)

/-- The answer that a click waits for has come. -/
def resume (s : Simulation) (ticket : Nat) : Simulation :=
  match s.run.machine.pending? ticket, s.plan? ticket with
  | some p, some plan =>
      match p.phase with
      | .validating => s.finishValidating p plan
      | .acting => s.finishActing p plan
  | _, _ => s

def ring (s : Simulation) (alarm : Alarm) : Simulation :=
  let then_ := { s with now := max s.now alarm.due }
  match alarm.wake with
  | .resume ticket => then_.resume ticket
  | .revert id generation => { then_ with run := then_.run.step (.expire id generation) }

/-- Let the alarms go off that are due by `limit`. -/
def ringUntil (limit : Nat) : (fuel : Nat) → Simulation → Simulation
  | 0, s => s
  | fuel + 1, s =>
      match s.alarms with
      | [] => s
      | alarm :: rest =>
          if alarm.due ≤ limit then ringUntil limit fuel ({ s with alarms := rest }.ring alarm)
          else s

/-- Let alarms go off until a click has ended. -/
def ringWhilePending (ticket : Nat) : (fuel : Nat) → Simulation → Simulation
  | 0, s => s
  | fuel + 1, s =>
      match s.run.machine.pending? ticket, s.alarms with
      | some _, alarm :: rest => ringWhilePending ticket fuel ({ s with alarms := rest }.ring alarm)
      | _, _ => s

/-- How many alarms can go off before there are new clicks. One that ends a validation may set one
    for the handler, and that one another for the end of success. -/
def alarmBound (s : Simulation) : Nat := 3 * s.alarms.length

def wait (s : Simulation) (duration : Nat) : Simulation :=
  let limit := s.now + duration
  let rung := ringUntil limit s.alarmBound s
  { rung with now := max rung.now limit }

/-- Let time pass until a click has ended. -/
def waitFor (s : Simulation) (ticket : Nat) : Simulation :=
  ringWhilePending ticket s.alarmBound s

def drop (s : Simulation) (ticket : Nat) : Simulation :=
  { s with run := s.run.step (.drop ticket) }

def outcome? (s : Simulation) (ticket : Nat) : Option ClickOutcome :=
  s.run.machine.outcome? ticket

/-- The handler calls that were reported, oldest first. -/
def loggedCalls (s : Simulation) : List HandlerCall :=
  s.run.machine.calls.filterMap fun (ticket, call) =>
    if (s.plan? ticket).any Plan.isLogged then some call else none

end Simulation

end GatedForms

import GatedForms.Button.Machine
import GatedForms.Proofs.Button.Table

/-! # What a step of a machine can do

`Transition` lists the ways in which a step changes a machine, each with what the step found.
`transition_step` says that the list is complete, so an invariant of machines is proved one way
after the other, and no later proof opens the step function again.
-/

namespace GatedForms

namespace PendingClick

def actOn (ticket : Nat) (p : PendingClick) : PendingClick :=
  if p.ticket = ticket then { p with phase := .acting } else p

@[simp]
theorem actOn_ticket (ticket : Nat) (p : PendingClick) : (p.actOn ticket).ticket = p.ticket := by
  unfold actOn
  split <;> rfl

@[simp]
theorem actOn_click (ticket : Nat) (p : PendingClick) : (p.actOn ticket).click = p.click := by
  unfold actOn
  split <;> rfl

@[simp]
theorem actOn_generation (ticket : Nat) (p : PendingClick) :
    (p.actOn ticket).generation = p.generation := by
  unfold actOn
  split <;> rfl

end PendingClick

namespace Machine

/-- A step answers or drops no click that waits for it. -/
def Unawaited (m : Machine) : MachineStep → Prop
  | .validated ticket _ => ∀ p, m.pending? ticket = some p → p.phase ≠ .validating
  | .acted ticket _ => ∀ p, m.pending? ticket = some p → p.phase ≠ .acting
  | .drop ticket => m.pending? ticket = none
  | .click _ => False
  | .expire _ _ => False

def firstPhase (c : Click) : ClickPhase := if c.action.validates then .validating else .acting

/-- A machine after a step. -/
inductive Transition (m : Machine) : MachineStep → Machine → Prop where
  /-- A click on a loading button only gets its outcome. -/
  | ignored (c : Click) (loading : m.state c.id = .loading) :
      Transition m (.click c)
        { m with
          nextTicket := m.nextTicket + 1
          outcomes := m.outcomes ++ [(m.nextTicket, .ignored)] }
  /-- Any other click takes its button to loading and makes its first call. -/
  | accepted (c : Click) (free : m.state c.id ≠ .loading) :
      Transition m (.click c)
        { m with
          table := m.table.update c.id
            ⟨.loading, (m.table.slot c.id).generation + 1, none⟩ [.loading]
          pending := m.pending ++
            [⟨m.nextTicket, c, (m.table.slot c.id).generation + 1, firstPhase c⟩]
          nextTicket := m.nextTicket + 1
          calls := m.calls ++ [(m.nextTicket, c.firstCall)] }
  /-- A validation that fails ends its click. -/
  | refused (p : PendingClick) (inFlight : m.pending? p.ticket = some p)
      (waits : p.phase = .validating) (messages : Messages) :
      Transition m (.validated p.ticket (.error messages))
        (m.finish p.ticket (m.table.settleIdle p.click.id p.generation) (.invalid messages))
  /-- A validation that passes calls the handler. -/
  | passed (p : PendingClick) (inFlight : m.pending? p.ticket = some p)
      (waits : p.phase = .validating) (transformed : Option Values) :
      Transition m (.validated p.ticket (.ok transformed))
        { m with
          pending := m.pending.map (PendingClick.actOn p.ticket)
          calls := m.calls ++ [(p.ticket, p.click.hookCall (transformed.getD p.click.values))] }
  /-- A handler that fails ends its click. -/
  | failed (p : PendingClick) (inFlight : m.pending? p.ticket = some p)
      (waits : p.phase = .acting) (reason : HandlerFailure) :
      Transition m (.acted p.ticket (some reason))
        (m.finish p.ticket (m.table.settleIdle p.click.id p.generation) (.failed reason))
  /-- A handler that succeeds ends its click in success. -/
  | completed (p : PendingClick) (inFlight : m.pending? p.ticket = some p)
      (waits : p.phase = .acting) :
      Transition m (.acted p.ticket none)
        (m.finish p.ticket
          (m.table.settleSuccess m.config.hasClock p.click.id p.generation) .completed)
  /-- A dropped click frees its button and has no outcome. -/
  | dropped (p : PendingClick) (inFlight : m.pending? p.ticket = some p) :
      Transition m (.drop p.ticket)
        { m with
          table := m.table.settleIdle p.click.id p.generation
          pending := m.without p.ticket }
  /-- A revert, be it late, concerns the table only. -/
  | expired (id : ButtonId) (generation : Nat) :
      Transition m (.expire id generation) { m with table := m.table.expire id generation }
  /-- What no click waits for changes nothing. -/
  | unawaited (s : MachineStep) (stray : m.Unawaited s) : Transition m s m

theorem ticket_of_pending? {m : Machine} {ticket : Nat} {p : PendingClick}
    (found : m.pending? ticket = some p) : p.ticket = ticket := by
  simpa using List.find?_some found

theorem mem_of_pending? {m : Machine} {ticket : Nat} {p : PendingClick}
    (found : m.pending? ticket = some p) : p ∈ m.pending :=
  List.mem_of_find?_eq_some found

/-- Every step is one of the transitions. -/
theorem transition_step (m : Machine) (s : MachineStep) : m.Transition s (m.step s) := by
  cases s with
  | click c =>
      by_cases loading : m.state c.id = .loading
      · simp only [step, click, SlotTable.accept?_of_loading _ _ loading]
        exact .ignored c loading
      · simp only [step, click, SlotTable.accept?_of_free _ _ loading]
        exact .accepted c loading
  | validated ticket result =>
      cases found : m.pending? ticket with
      | none =>
          simp only [step, found]
          exact .unawaited _ fun p other => by simp [found] at other
      | some p =>
          cases ticket_of_pending? found
          by_cases waits : p.phase = .validating
          · simp only [step, found, if_pos waits]
            cases result with
            | error messages => exact .refused p found waits messages
            | ok transformed => exact .passed p found waits transformed
          · simp only [step, found, if_neg waits]
            refine .unawaited _ fun q other => ?_
            cases found.symm.trans other
            exact waits
  | acted ticket failure =>
      cases found : m.pending? ticket with
      | none =>
          simp only [step, found]
          exact .unawaited _ fun p other => by simp [found] at other
      | some p =>
          cases ticket_of_pending? found
          by_cases waits : p.phase = .acting
          · simp only [step, found, if_pos waits]
            cases failure with
            | some reason => exact .failed p found waits reason
            | none => exact .completed p found waits
          · simp only [step, found, if_neg waits]
            refine .unawaited _ fun q other => ?_
            cases found.symm.trans other
            exact waits
  | drop ticket =>
      cases found : m.pending? ticket with
      | none =>
          simp only [step, found]
          exact .unawaited _ found
      | some p =>
          cases ticket_of_pending? found
          simp only [step, found]
          exact .dropped p found
  | expire id generation => exact .expired id generation

end Machine

end GatedForms

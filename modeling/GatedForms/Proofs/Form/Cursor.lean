import GatedForms.Form
import GatedForms.Proofs.Button.InFlight

/-! # The cursor of a running form

Only a completed click moves the cursor, and only a `NEXT` click moves it forward. What such a click
has validated was fixed when it began: the step under the cursor at that time. Buttons do not wait
for each other, so the cursor may have moved since, but then a click on another button moved it.
-/

namespace GatedForms

/-! ## Where a completed click leaves the cursor -/

namespace Form

theorem stepBefore_le (form : Form) (cursor : Nat) : form.stepBefore cursor ≤ cursor := by
  unfold stepBefore
  cases found : form.steps.reverse.find? fun index => index < cursor with
  | none => exact Nat.le_refl _
  | some index =>
      have below := List.find?_some found
      simp only [decide_eq_true_eq] at below
      exact Nat.le_of_lt below

theorem next_of_forward {form : Form} {action : ButtonAction} {cursor : Nat}
    (forward : cursor < form.moveCursor action cursor) : action = .next := by
  cases action with
  | next => rfl
  | previous => exact absurd forward (Nat.not_lt.mpr (form.stepBefore_le cursor))
  | submit | custom => exact absurd forward (Nat.lt_irrefl cursor)

theorem click?_eq {form : Form} {cursor : Nat} {id : ButtonId} {values : Values} {c : Click}
    (found : form.click? cursor id values = some c) :
    c.id = id ∧ c.values = values ∧ c.scope = form.scopeFor c.action cursor := by
  simp only [click?, Option.map_eq_some_iff] at found
  obtain ⟨place, _, rfl⟩ := found
  exact ⟨rfl, rfl, rfl⟩

end Form

namespace FormRun

variable {r : FormRun}

/-! ## The machine of a form -/

def machineStep? (r : FormRun) : FormStep → Option MachineStep
  | .click id values => (r.form.click? r.cursor id values).map .click
  | .validated ticket result => some (.validated ticket result)
  | .acted ticket failure => some (.acted ticket failure)
  | .drop ticket => some (.drop ticket)
  | .expire id generation => some (.expire id generation)

theorem machine_step (r : FormRun) (s : FormStep) :
    (r.step s).machine = (r.machineStep? s).elim r.machine r.machine.step := by
  cases s with
  | click id values =>
      simp only [step, machineStep?]
      cases r.form.click? r.cursor id values <;> rfl
  | validated | acted | drop | expire => rfl

@[simp]
theorem form_step (r : FormRun) (s : FormStep) : (r.step s).form = r.form := by
  cases s with
  | click id values =>
      simp only [step]
      cases r.form.click? r.cursor id values <;> rfl
  | validated | acted | drop | expire => rfl

@[simp]
theorem form_run (r : FormRun) (steps : List FormStep) : (r.run steps).form = r.form := by
  induction steps generalizing r with
  | nil => rfl
  | cons s rest ih => exact (ih (r.step s)).trans (r.form_step s)

theorem run_append (r : FormRun) (before after : List FormStep) :
    r.run (before ++ after) = (r.run before).run after :=
  List.foldl_append

theorem consistent_step (h : r.machine.Consistent) (s : FormStep) :
    (r.step s).machine.Consistent := by
  rw [machine_step]
  cases r.machineStep? s with
  | none => exact h
  | some t => exact h.step t

theorem consistent_run (h : r.machine.Consistent) (steps : List FormStep) :
    (r.run steps).machine.Consistent := by
  induction steps generalizing r with
  | nil => exact h
  | cons s rest ih => exact ih (consistent_step h s)

theorem nextTicket_le_step (r : FormRun) (s : FormStep) :
    r.machine.nextTicket ≤ (r.step s).machine.nextTicket := by
  rw [machine_step]
  cases r.machineStep? s with
  | none => exact Nat.le_refl _
  | some t => exact Machine.nextTicket_le (r.machine.transition_step t)

theorem nextTicket_le_run (r : FormRun) (steps : List FormStep) :
    r.machine.nextTicket ≤ (r.run steps).machine.nextTicket := by
  induction steps generalizing r with
  | nil => exact Nat.le_refl _
  | cons s rest ih => exact Nat.le_trans (r.nextTicket_le_step s) (ih (r.step s))

/-! ## Where clicks in flight come from -/

def Passes (ticket : Nat) (s : FormStep) : Prop :=
  ∃ transformed, s = .validated ticket (.ok transformed)

/-- Where a click in flight after some steps comes from, and what it took to get to its handler. -/
inductive Origin (r : FormRun) (steps : List FormStep) (p : PendingClick) : Prop where
  | earlier (q : PendingClick) (inFlight : q ∈ r.machine.pending) (ticket : q.ticket = p.ticket)
      (click : q.click = p.click)
      (passed : p.phase = .acting → q.phase = .acting ∨ ∃ s ∈ steps, Passes p.ticket s)
  | during (before after : List FormStep)
      (split : steps = before ++ .click p.click.id p.click.values :: after)
      (ticket : p.ticket = (r.run before).machine.nextTicket)
      (click : r.form.click? (r.run before).cursor p.click.id p.click.values = some p.click)
      (passed : p.phase = .acting → p.click.action.validates = true →
        ∃ s ∈ after, Passes p.ticket s)

theorem begins_of_click {s : FormStep} {c : Click} (begins : r.machineStep? s = some (.click c)) :
    s = .click c.id c.values ∧ r.form.click? r.cursor c.id c.values = some c := by
  cases s with
  | click id values =>
      simp only [machineStep?, Option.map_eq_some_iff, MachineStep.click.injEq] at begins
      obtain ⟨_, found, rfl⟩ := begins
      obtain ⟨rfl, rfl, _⟩ := Form.click?_eq found
      exact ⟨rfl, found⟩
  | validated | acted | drop | expire => cases begins

theorem passes_of_validated {s : FormStep} {ticket : Nat} {transformed : Option Values}
    (answers : r.machineStep? s = some (.validated ticket (.ok transformed))) :
    Passes ticket s := by
  cases s with
  | validated =>
      cases answers
      exact ⟨transformed, rfl⟩
  | click id values => simp [machineStep?] at answers
  | acted | drop | expire => cases answers

theorem origin_step (s : FormStep) {p : PendingClick}
    (inFlight : p ∈ (r.step s).machine.pending) :
    (∃ q ∈ r.machine.pending, q.ticket = p.ticket ∧ q.click = p.click ∧
      (p.phase = .acting → q.phase = .acting ∨ Passes p.ticket s)) ∨
      s = .click p.click.id p.click.values ∧ p.ticket = r.machine.nextTicket ∧
        r.form.click? r.cursor p.click.id p.click.values = some p.click ∧
        p.phase = Machine.firstPhase p.click := by
  rw [machine_step] at inFlight
  cases asks : r.machineStep? s with
  | none =>
      rw [asks] at inFlight
      exact .inl ⟨p, inFlight, rfl, rfl, .inl⟩
  | some t =>
      rw [asks] at inFlight
      rcases Machine.origin_step (r.machine.transition_step t) inFlight with
        ⟨q, old, ticket, click, passed⟩ | ⟨rfl, ticket, phase⟩
      · refine .inl ⟨q, old, ticket, click, fun acting => (passed acting).imp_right ?_⟩
        rintro ⟨transformed, rfl⟩
        exact passes_of_validated asks
      · obtain ⟨begins, click⟩ := begins_of_click asks
        exact .inr ⟨begins, ticket, click, phase⟩

theorem origin_run (steps : List FormStep) {p : PendingClick}
    (inFlight : p ∈ (r.run steps).machine.pending) : Origin r steps p := by
  induction steps generalizing r with
  | nil => exact .earlier p inFlight rfl rfl .inl
  | cons s rest ih =>
      cases ih inFlight with
      | earlier q member ticket click passed =>
          rcases origin_step s member with ⟨o, old, sameTicket, sameClick, passedFirst⟩ | begins
          · refine .earlier o old (sameTicket.trans ticket) (sameClick.trans click) ?_
            intro acting
            rcases passed acting with actingBefore | ⟨answer, inRest, passes⟩
            · refine (passedFirst actingBefore).imp_right fun passes => ?_
              exact ⟨s, List.mem_cons_self, ticket ▸ passes⟩
            · exact .inr ⟨answer, List.mem_cons_of_mem s inRest, passes⟩
          · obtain ⟨isClick, sameTicket, found, phase⟩ := begins
            rw [click] at isClick found phase
            refine .during [] rest (by rw [isClick]; rfl) (ticket.symm.trans sameTicket) found ?_
            intro acting validates
            refine (passed acting).resolve_left fun actingBefore => ?_
            rw [phase, Machine.firstPhase, if_pos validates] at actingBefore
            cases actingBefore
      | during before after split ticket click passed =>
          refine .during (s :: before) after (by rw [split]; rfl) ticket ?_ passed
          rwa [form_step] at click

/-- A click that is older than some steps and in flight after them was in flight before them. -/
theorem inFlight_before (steps : List FormStep) {p : PendingClick}
    (inFlight : p ∈ (r.run steps).machine.pending) (older : p.ticket < r.machine.nextTicket) :
    ∃ q ∈ r.machine.pending, q.ticket = p.ticket ∧ q.click = p.click := by
  cases origin_run steps inFlight with
  | earlier q member ticket click _ => exact ⟨q, member, ticket, click⟩
  | during before after _ ticket _ _ =>
      have grows := r.nextTicket_le_run before
      omega

/-! ## What moves the cursor -/

/-- The handler of a click in flight answers, and that moves the cursor. -/
structure Moves (r : FormRun) (s : FormStep) (p : PendingClick) : Prop where
  answered : s = .acted p.ticket none
  inFlight : r.machine.pending? p.ticket = some p
  waits : p.phase = .acting
  cursor : (r.step s).cursor = r.form.moveCursor p.click.action r.cursor

theorem moves_of_cursor_ne (s : FormStep) (moved : (r.step s).cursor ≠ r.cursor) :
    ∃ p, r.Moves s p := by
  cases s with
  | click id values =>
      refine absurd ?_ moved
      simp only [step]
      cases r.form.click? r.cursor id values <;> rfl
  | acted ticket failure =>
      cases found : r.machine.pending? ticket with
      | none => exact absurd (by simp [step, cursorAfter, found]) moved
      | some p =>
          cases Machine.ticket_of_pending? found
          cases failure with
          | some reason => exact absurd (by simp [step, cursorAfter, found]) moved
          | none =>
              by_cases waits : p.phase = .acting
              · exact ⟨p, rfl, found, waits, by simp [step, cursorAfter, found, waits]⟩
              · exact absurd (by simp [step, cursorAfter, found, waits]) moved
  | validated | drop | expire => exact absurd rfl moved

theorem moves_of_run_cursor_ne (steps : List FormStep) (moved : (r.run steps).cursor ≠ r.cursor) :
    ∃ before s after p, steps = before ++ s :: after ∧ (r.run before).Moves s p ∧
      ((r.run before).step s).cursor ≠ (r.run before).cursor := by
  induction steps generalizing r with
  | nil => exact absurd rfl moved
  | cons s rest ih =>
      by_cases still : (r.step s).cursor = r.cursor
      · obtain ⟨before, t, after, p, split, moves⟩ := ih (still ▸ moved)
        exact ⟨s :: before, t, after, p, by rw [split]; rfl, moves⟩
      · obtain ⟨p, moves⟩ := moves_of_cursor_ne s still
        exact ⟨[], s, rest, p, rfl, moves, still⟩

theorem Moves.ends {s : FormStep} {p : PendingClick} (moves : r.Moves s p) (q : PendingClick)
    (inFlight : q ∈ (r.step s).machine.pending) : q.ticket ≠ p.ticket := by
  cases moves.answered
  have ends : (r.step (.acted p.ticket none)).machine.pending = r.machine.without p.ticket := by
    simp only [step, Machine.step, moves.inFlight, if_pos moves.waits]
    rfl
  rw [ends] at inFlight
  exact Machine.gone_without q inFlight

/-! ## What moves it forward -/

theorem nextTicket_lt_click {id : ButtonId} {values : Values} {c : Click}
    (found : r.form.click? r.cursor id values = some c) :
    r.machine.nextTicket < (r.step (.click id values)).machine.nextTicket := by
  have t := r.machine.transition_step (.click c)
  simp only [step, found]
  generalize r.machine.step (.click c) = began at t
  cases t with
  | ignored | accepted => exact Nat.lt_succ_self _
  | unawaited _ stray => exact stray.elim

/-- While a click is in flight, only clicks on other buttons move the cursor. -/
theorem other_button_of_moves (h : r.machine.Consistent) {s : FormStep} {p q : PendingClick}
    (moves : r.Moves s q) (after : List FormStep)
    (inFlight : p ∈ ((r.step s).run after).machine.pending)
    (older : p.ticket < r.machine.nextTicket) : q.click.id ≠ p.click.id := by
  obtain ⟨later, inFlightLater, ticketLater, clickLater⟩ :=
    inFlight_before after inFlight (Nat.lt_of_lt_of_le older (r.nextTicket_le_step s))
  obtain ⟨now, inFlightNow, ticketNow, clickNow⟩ :=
    inFlight_before (r := r) [s] inFlightLater (ticketLater ▸ older)
  intro same
  have same : q = now := by
    refine h.eq_of_button (Machine.mem_of_pending? moves.inFlight) inFlightNow ?_
    rw [clickNow, clickLater, same]
  exact moves.ends later inFlightLater (same ▸ ticketNow.symm)

/-- In some steps a click on another button than that of `p` moves the cursor. -/
def Overtaken (r : FormRun) (p : PendingClick) (steps : List FormStep) : Prop :=
  ∃ before s after q, steps = before ++ s :: after ∧ q.click.id ≠ p.click.id ∧
    (r.run before).Moves s q ∧ ((r.run before).step s).cursor ≠ (r.run before).cursor

/-- With a scope of one step, the cursor moves forward only by a `NEXT` click whose values passed
    the validation of the step that the cursor stood on when the click began. That is the step it
    stands on now, unless a click on another button has moved it in the meantime. -/
theorem next_validates_step_it_began_on (form : Form) (config : MachineConfig)
    (steps : List FormStep) (s : FormStep) (stepwise : form.policy = .currentStep)
    (forward : ((start form config).run steps).cursor <
      (((start form config).run steps).step s).cursor) :
    ∃ p before after,
      ((start form config).run steps).Moves s p ∧ p.click.action = .next ∧
      steps = before ++ .click p.click.id p.click.values :: after ∧
      p.ticket = ((start form config).run before).machine.nextTicket ∧
      p.click.scope = .formSection ((start form config).run before).cursor ∧
      (p.ticket, .validate p.click.scope p.click.values) ∈
        ((start form config).run steps).machine.calls ∧
      (∃ answer ∈ after, Passes p.ticket answer) ∧
      (p.click.scope.covers ((start form config).run steps).cursor = true ∨
        (((start form config).run before).step (.click p.click.id p.click.values)).Overtaken
          p after) := by
  obtain ⟨p, moves⟩ := moves_of_cursor_ne s (Nat.ne_of_gt forward)
  have isNext : p.click.action = .next := by
    rw [moves.cursor] at forward
    exact Form.next_of_forward forward
  have atStart : (start form config).machine.Consistent := Machine.Consistent.start config
  have inFlight := Machine.mem_of_pending? moves.inFlight
  have called := (consistent_run atStart steps).opened p inFlight
  have validates : p.click.action.validates = true := isNext ▸ rfl
  rw [Click.firstCall, if_pos validates] at called
  cases origin_run steps inFlight with
  | earlier q inFlightAtStart _ _ _ => cases inFlightAtStart
  | during before after split ticket click passed =>
      have scope : p.click.scope = .formSection ((start form config).run before).cursor := by
        obtain ⟨_, _, scope⟩ := Form.click?_eq click
        simpa only [isNext, Form.scopeFor, start, stepwise] using scope
      refine ⟨p, before, after, moves, isNext, split, ticket, scope, called,
        passed moves.waits validates, ?_⟩
      subst split
      rw [← form_run (start form config) before] at click
      rw [run_append] at inFlight ⊢
      have begun := consistent_run atStart before
      generalize (start form config).run before = began at *
      have stays : (began.step (.click p.click.id p.click.values)).cursor = began.cursor := by
        simp only [step, click]
      by_cases still : (began.run (.click p.click.id p.click.values :: after)).cursor = began.cursor
      · refine .inl ?_
        rw [scope, still]
        exact beq_self_eq_true _
      · -- A step in between moved the cursor. The button of `p` was loading all along, so the click
        -- that ended there was on another one.
        obtain ⟨early, t, late, q, split, other, moved⟩ :=
          moves_of_run_cursor_ne (r := began.step (.click p.click.id p.click.values)) after
            (stays ▸ still)
        subst split
        refine .inr ⟨early, t, late, q, rfl, ?_, other, moved⟩
        have older := Nat.lt_of_lt_of_le (nextTicket_lt_click click)
          ((began.step (.click p.click.id p.click.values)).nextTicket_le_run early)
        refine other_button_of_moves (consistent_run (consistent_step begun _) early) other late ?_
          (ticket ▸ older)
        rwa [← List.cons_append, run_append] at inFlight

/-- Three steps of one text each, and a row of two `NEXT` buttons. -/
def twoNext : Schema :=
  ⟨"Steps", "steps", [stepOf "a", stepOf "b", stepOf "c", ⟨none, "row", [next "n", next "m"]⟩]⟩
where
  stepOf (key : String) : FormSection :=
    ⟨none, key, [⟨some ⟨key, []⟩, key, none, false, .text .plain none⟩]⟩
  next (id : ButtonId) : Field := ⟨none, "Next", none, false, .button .next (some id)⟩

def bothClicked : List FormStep :=
  [.click "n" .empty, .click "m" .empty, .validated 0 (.ok none), .validated 1 (.ok none),
    .acted 0 none]

/-- The second step has the cursor when the second click ends. -/
def onSecondStep : FormRun :=
  (start (.build twoNext [] ⟨false⟩ .currentStep) ⟨true, true⟩).run bothClicked

theorem second_next_leaves_second_step :
    ∃ p, onSecondStep.Moves (.acted 1 none) p ∧ p.click.action = .next ∧
      (p.ticket, .validate p.click.scope p.click.values) ∈ onSecondStep.machine.calls := by
  obtain ⟨p, before, after, moves, isNext, -, -, -, called, -⟩ :=
    next_validates_step_it_began_on (.build twoNext [] ⟨false⟩ .currentStep) ⟨true, true⟩
      bothClicked (.acted 1 none) rfl (by decide)
  exact ⟨p, moves, isNext, called⟩

/-- Nothing has validated the second step, and yet the second click takes the cursor past it. -/
theorem second_next_passes_step_unvalidated :
    Schema.build twoNext.title twoNext.backendKey twoNext.sections = .ok twoNext ∧
    onSecondStep.form.policy = .currentStep ∧
    onSecondStep.cursor = 1 ∧ (onSecondStep.step (.acted 1 none)).cursor = 2 ∧
    ∃ p, onSecondStep.Moves (.acted 1 none) p ∧ p.click.action = .next ∧
      p.click.scope.covers 1 = false :=
  ⟨rfl, rfl, rfl, rfl, ⟨1, ⟨"m", .next, .formSection 0, .empty⟩, 1, .acting⟩,
    ⟨rfl, rfl, rfl, rfl⟩, rfl, rfl⟩

end FormRun

end GatedForms

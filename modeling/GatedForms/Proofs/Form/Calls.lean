import GatedForms.Proofs.Button.Progress
import GatedForms.Proofs.Form.Cursor

/-! # Handler calls of a running form

The caller's handlers are called for accepted clicks only. What such a click has called and what it
has returned is fixed by its action and by the answers that came while it waited for them, whatever
other clicks do in between.
-/

namespace GatedForms

/-! ## Tickets that are not in flight -/

namespace Machine

variable {m : Machine}

theorem callsOf_eq_nil {ticket : Nat} (uncalled : ∀ entry ∈ m.calls, entry.1 ≠ ticket) :
    m.callsOf ticket = [] := by
  have absent : m.calls.filter (fun call => call.1 = ticket) = [] :=
    List.filter_eq_nil_iff.mpr fun entry member => by simpa using uncalled entry member
  rw [callsOf, absent, List.map_nil]

theorem callsOf_step_of_gone {ticket : Nat} (past : ticket < m.nextTicket)
    (gone : ∀ p ∈ m.pending, p.ticket ≠ ticket) {s : MachineStep} {after : Machine}
    (t : m.Transition s after) : after.callsOf ticket = m.callsOf ticket := by
  cases t with
  | accepted c free => exact callsOf_append_ne _ _ (Nat.ne_of_gt past)
  | passed p found waits transformed =>
      exact callsOf_append_ne _ _ (gone p (mem_of_pending? found))
  | ignored | refused | failed | completed | dropped | expired | unawaited => rfl

/-- A call is made by a click that has made one before, or by the one that the step begins. -/
theorem Consistent.caller_step (h : m.Consistent) {s : MachineStep} {after : Machine}
    (t : m.Transition s after) {entry : Nat × HandlerCall} (called : entry ∈ after.calls) :
    (∃ call, (entry.1, call) ∈ m.calls) ∨
      ∃ c, s = .click c ∧ m.state c.id ≠ .loading ∧ entry.1 = m.nextTicket := by
  cases t with
  | accepted c free =>
      rcases List.mem_append.mp called with old | new
      · exact .inl ⟨entry.2, old⟩
      · cases List.mem_singleton.mp new
        exact .inr ⟨c, rfl, free, rfl⟩
  | passed p found waits transformed =>
      rcases List.mem_append.mp called with old | new
      · exact .inl ⟨entry.2, old⟩
      · cases List.mem_singleton.mp new
        exact .inl ⟨_, h.opened p (mem_of_pending? found)⟩
  | ignored | refused | failed | completed | dropped | expired | unawaited =>
      exact .inl ⟨entry.2, called⟩

end Machine

namespace FormRun

variable {r : FormRun} {c : Click} {ticket : Nat}

/-! ## Accepted clicks -/

structure Accepts (r : FormRun) (c : Click) : Prop where
  found : r.form.click? r.cursor c.id c.values = some c
  free : r.machine.state c.id ≠ .loading

/-- The accepted click of a ticket is one of some steps. -/
def Begins (r : FormRun) (steps : List FormStep) (ticket : Nat) : Prop :=
  ∃ before c after, steps = before ++ .click c.id c.values :: after ∧
    (r.run before).Accepts c ∧ ticket = (r.run before).machine.nextTicket

theorem machine_click (found : r.form.click? r.cursor c.id c.values = some c) :
    (r.step (.click c.id c.values)).machine = r.machine.step (.click c) := by
  simp only [step, found]

/-- Whatever is called is called for an accepted click. -/
theorem caller_run (h : r.machine.Consistent) (steps : List FormStep)
    {entry : Nat × HandlerCall} (called : entry ∈ (r.run steps).machine.calls) :
    (∃ call, (entry.1, call) ∈ r.machine.calls) ∨ r.Begins steps entry.1 := by
  induction steps generalizing r entry with
  | nil => exact .inl ⟨entry.2, called⟩
  | cons s rest ih =>
      rcases ih (consistent_step h s) called with ⟨call, earlier⟩ | begins
      · rw [machine_step] at earlier
        cases asks : r.machineStep? s with
        | none =>
            rw [asks] at earlier
            exact .inl ⟨call, earlier⟩
        | some t =>
            rw [asks] at earlier
            rcases h.caller_step (r.machine.transition_step t) earlier with
              old | ⟨c, rfl, free, ticket⟩
            · exact .inl old
            · obtain ⟨rfl, found⟩ := begins_of_click asks
              exact .inr ⟨[], c, rest, rfl, ⟨found, free⟩, ticket⟩
      · obtain ⟨before, c, after, rfl, accepts, ticket⟩ := begins
        exact .inr ⟨s :: before, c, after, rfl, accepts, ticket⟩

/-! ## Answers -/

/-- Whether the click of a ticket waits for a step: for the answer to its last call, or, at any
    time, for its drop. -/
def awaits (r : FormRun) (ticket : Nat) (s : FormStep) : Bool :=
  match r.machine.pending? ticket with
  | none => false
  | some p =>
      match s with
      | .validated other _ => other = ticket ∧ p.phase = .validating
      | .acted other _ => other = ticket ∧ p.phase = .acting
      | .drop other => other = ticket
      | .click _ _ => false
      | .expire _ _ => false

/-- The steps that come while the click of a ticket waits for them. -/
def answersTo (r : FormRun) (ticket : Nat) : List FormStep → List FormStep
  | [] => []
  | s :: rest => (if r.awaits ticket s then [s] else []) ++ (r.step s).answersTo ticket rest

theorem machineStep?_eq_validated {s : FormStep} {result : Validation} :
    r.machineStep? s = some (.validated ticket result) ↔ s = .validated ticket result := by
  cases s <;> simp [machineStep?]

theorem machineStep?_eq_acted {s : FormStep} {failure : Option HandlerFailure} :
    r.machineStep? s = some (.acted ticket failure) ↔ s = .acted ticket failure := by
  cases s <;> simp [machineStep?]

theorem machineStep?_eq_drop {s : FormStep} :
    r.machineStep? s = some (.drop ticket) ↔ s = .drop ticket := by
  cases s <;> simp [machineStep?]

theorem awaits_iff (h : r.machine.Consistent) {p : PendingClick}
    (inFlight : p ∈ r.machine.pending) (s : FormStep) :
    r.awaits p.ticket s = true ↔ ∃ t, r.machineStep? s = some t ∧ Machine.Concerns p t := by
  simp only [awaits, h.pending?_of_mem inFlight]
  cases s with
  | click id values =>
      simp only [machineStep?, Option.map_eq_some_iff, Bool.false_eq_true, false_iff]
      rintro ⟨_, ⟨c, _, rfl⟩, concerned⟩
      exact concerned
  | validated | acted | drop | expire => simp [machineStep?, Machine.Concerns]

theorem awaits_of_gone (gone : ∀ p ∈ r.machine.pending, p.ticket ≠ ticket) (s : FormStep) :
    r.awaits ticket s = false := by
  simp only [awaits, Machine.pending?_eq_none gone]

theorem awaits_of_nothing {s : FormStep} (asks : r.machineStep? s = none) (ticket : Nat) :
    r.awaits ticket s = false := by
  cases s with
  | click id values =>
      simp only [awaits]
      split <;> rfl
  | validated | acted | drop | expire => cases asks

/-! ## The course of a click -/

/-- How far a click has come with the answers that it got: what it has called, what it has returned,
    and its phase, if it is not over. -/
inductive Course (c : Click) (ticket : Nat) : List FormStep → List HandlerCall →
    Option ClickOutcome → Option ClickPhase → Prop where
  | validating (validates : c.action.validates = true) :
      Course c ticket [] [.validate c.scope c.values] none (some .validating)
  | unvalidated (direct : c.action.validates = false) :
      Course c ticket [] [c.hookCall c.values] none (some .acting)
  | passed (validates : c.action.validates = true) (transformed : Option Values) :
      Course c ticket [.validated ticket (.ok transformed)]
        [.validate c.scope c.values, c.hookCall (transformed.getD c.values)] none (some .acting)
  | refused (validates : c.action.validates = true) (messages : Messages) :
      Course c ticket [.validated ticket (.error messages)] [.validate c.scope c.values]
        (some (.invalid messages)) none
  | acted {answers : List FormStep} {calls : List HandlerCall}
      (acting : Course c ticket answers calls none (some .acting))
      (failure : Option HandlerFailure) :
      Course c ticket (answers ++ [.acted ticket failure]) calls
        (some (failure.elim .completed .failed)) none
  | dropped {answers : List FormStep} {calls : List HandlerCall} {phase : ClickPhase}
      (inFlight : Course c ticket answers calls none (some phase)) :
      Course c ticket (answers ++ [.drop ticket]) calls none none

namespace Course

variable {answers : List FormStep} {calls : List HandlerCall} {phase : ClickPhase}

theorem pass (course : Course c ticket answers calls none (some phase))
    (validating : phase = .validating) (transformed : Option Values) :
    Course c ticket (answers ++ [.validated ticket (.ok transformed)])
      (calls ++ [c.hookCall (transformed.getD c.values)]) none (some .acting) := by
  subst validating
  cases course with
  | validating validates => exact .passed validates transformed

theorem refuse (course : Course c ticket answers calls none (some phase))
    (validating : phase = .validating) (messages : Messages) :
    Course c ticket (answers ++ [.validated ticket (.error messages)]) calls
      (some (.invalid messages)) none := by
  subst validating
  cases course with
  | validating validates => exact .refused validates messages

end Course

/-- A click is in flight and its button has done nothing but load since, or the click is over. -/
inductive Stands (m : Machine) (c : Click) (ticket : Nat) (past : List ButtonState) :
    Option ClickPhase → Prop where
  | inFlight {phase : ClickPhase} {generation : Nat}
      (member : ⟨ticket, c, generation, phase⟩ ∈ m.pending)
      (history : m.history c.id = past ++ [.loading]) : Stands m c ticket past (some phase)
  | ended (issued : ticket < m.nextTicket) (gone : ∀ q ∈ m.pending, q.ticket ≠ ticket) :
      Stands m c ticket past none

/-- A click has come as far as the machine says. -/
def Runs (m : Machine) (c : Click) (ticket : Nat) (past : List ButtonState)
    (answers : List FormStep) : Prop :=
  ∃ phase, Course c ticket answers (m.callsOf ticket) (m.outcome? ticket) phase ∧
    Stands m c ticket past phase

variable {past : List ButtonState}

theorem runs_begin (h : r.machine.Consistent) (accepts : r.Accepts c) :
    Runs (r.step (.click c.id c.values)).machine c r.machine.nextTicket
      (r.machine.history c.id) [] := by
  rw [machine_click accepts.found, Machine.step_click_of_free accepts.free]
  refine ⟨some (Machine.firstPhase c), ?_,
    .inFlight (List.mem_append_right _ List.mem_cons_self) ?_⟩
  · have uncalled := Machine.callsOf_eq_nil fun entry member => Nat.ne_of_lt (h.called entry member)
    have unanswered :=
      Machine.outcome?_eq_none fun entry member => Nat.ne_of_lt (h.ended entry member)
    simp only [Machine.callsOf, Machine.callsOf_append_self]
    simp only [Machine.callsOf] at uncalled
    simp only [Machine.outcome?] at unanswered ⊢
    rw [uncalled, unanswered, List.nil_append, Click.firstCall, Machine.firstPhase]
    cases validates : c.action.validates with
    | true => exact .validating validates
    | false => exact .unvalidated validates
  · exact SlotTable.history_update_self _ _ _ _

/-- What a step does to a click in flight takes the click further on its course. -/
theorem runs_of_progress (h : r.machine.Consistent) {p : PendingClick} (sameClick : p.click = c)
    (inFlight : p ∈ r.machine.pending) (history : r.machine.history c.id = past ++ [.loading])
    {answers : List FormStep}
    (course : Course c p.ticket answers (r.machine.callsOf p.ticket) none (some p.phase))
    {s : FormStep} {t : MachineStep} (asks : r.machineStep? s = some t) :
    Runs (r.machine.step t) c p.ticket past
      (answers ++ if r.awaits p.ticket s then [s] else []) := by
  subst sameClick
  have transition := r.machine.transition_step t
  have consistent := h.transition transition
  have issued := Nat.lt_of_lt_of_le (h.begun p inFlight) (Machine.nextTicket_le transition)
  have awaited : r.awaits p.ticket s = true ↔ Machine.Concerns p t := by
    simp only [awaits_iff h inFlight, asks, Option.some.injEq, exists_eq_left']
  generalize r.machine.step t = after at transition consistent issued
  have unanswered : ∀ q ∈ after.pending, after.outcome? q.ticket = none :=
    fun q member => Machine.outcome?_eq_none (consistent.unanswered q member)
  cases h.progress inFlight transition with
  | waits unconcerned stays button calls =>
      rw [if_neg (mt awaited.mp unconcerned), List.append_nil]
      refine ⟨some p.phase, ?_, .inFlight stays (button.history.trans history)⟩
      rw [unanswered p stays, calls]
      exact course
  | passed transformed validating stays button calls =>
      obtain rfl := machineStep?_eq_validated.mp asks
      rw [if_pos (awaited.mpr ⟨rfl, validating⟩)]
      refine ⟨some .acting, ?_, .inFlight stays (button.history.trans history)⟩
      rw [unanswered _ stays, calls]
      exact course.pass validating transformed
  | refused messages validating frees calls outcome =>
      obtain rfl := machineStep?_eq_validated.mp asks
      rw [if_pos (awaited.mpr ⟨rfl, validating⟩)]
      refine ⟨none, ?_, .ended issued frees.gone⟩
      rw [outcome, calls]
      exact course.refuse validating messages
  | failed reason acting frees calls outcome =>
      obtain rfl := machineStep?_eq_acted.mp asks
      rw [if_pos (awaited.mpr ⟨rfl, acting⟩)]
      refine ⟨none, ?_, .ended issued frees.gone⟩
      rw [outcome, calls]
      exact .acted (acting ▸ course) (some reason)
  | completed acting gone _ _ calls outcome =>
      obtain rfl := machineStep?_eq_acted.mp asks
      rw [if_pos (awaited.mpr ⟨rfl, acting⟩)]
      refine ⟨none, ?_, .ended issued gone⟩
      rw [outcome, calls]
      exact .acted (acting ▸ course) none
  | dropped frees calls outcome =>
      obtain rfl := machineStep?_eq_drop.mp asks
      rw [if_pos (awaited.mpr rfl)]
      refine ⟨none, ?_, .ended issued frees.gone⟩
      rw [outcome, calls]
      exact course.dropped

theorem runs_step (h : r.machine.Consistent) {answers : List FormStep}
    (runs : Runs r.machine c ticket past answers) (s : FormStep) :
    Runs (r.step s).machine c ticket past
      (answers ++ if r.awaits ticket s then [s] else []) := by
  rw [machine_step]
  cases asks : r.machineStep? s with
  | none =>
      rw [awaits_of_nothing asks, if_neg Bool.false_ne_true, List.append_nil]
      exact runs
  | some t =>
      obtain ⟨_, course, stands⟩ := runs
      cases stands with
      | inFlight inFlight history =>
          rw [Machine.outcome?_eq_none (h.unanswered _ inFlight)] at course
          exact runs_of_progress h rfl inFlight history course asks
      | ended issued gone =>
          -- Its ticket is not handed out again, so nothing is an answer to it any more.
          have transition := r.machine.transition_step t
          obtain ⟨stillGone, outcome, -⟩ := Machine.gone_step issued gone transition
          rw [awaits_of_gone gone, if_neg Bool.false_ne_true, List.append_nil]
          refine ⟨none, ?_, .ended ?_ stillGone⟩
          · rw [Option.elim_some, outcome, Machine.callsOf_step_of_gone issued gone transition]
            exact course
          · exact Nat.lt_of_lt_of_le issued (Machine.nextTicket_le transition)

theorem runs_run (h : r.machine.Consistent) {answers : List FormStep}
    (runs : Runs r.machine c ticket past answers) (steps : List FormStep) :
    Runs (r.run steps).machine c ticket past (answers ++ r.answersTo ticket steps) := by
  induction steps generalizing r answers with
  | nil =>
      rw [answersTo, List.append_nil]
      exact runs
  | cons s rest ih =>
      rw [answersTo, ← List.append_assoc]
      exact ih (consistent_step h s) (runs_step h runs s)

/-! ## What the answers determine -/

/-- A hook behind a validation: it is called when the only validation of its click has passed, with
    the values that this has transformed, or with those of the click if it has transformed none. -/
structure Guarded (c : Click) (ticket : Nat) (answers : List FormStep) (calls : List HandlerCall)
    (hook : Values → HandlerCall) : Prop where
  uncalled : (∀ transformed, .validated ticket (.ok transformed) ∉ answers) →
    calls = [.validate c.scope c.values]
  called : ∀ transformed, .validated ticket (.ok transformed) ∈ answers →
    calls = [.validate c.scope c.values, hook (transformed.getD c.values)]
  passed : ∀ failure, .acted ticket failure ∈ answers →
    ∃ transformed, .validated ticket (.ok transformed) ∈ answers

/-- What an accepted click has called and returned, by the answers that it got. -/
structure Handled (c : Click) (ticket : Nat) (answers : List FormStep) (calls : List HandlerCall)
    (outcome : Option ClickOutcome) : Prop where
  next : c.action = .next → Guarded c ticket answers calls .next
  submit : c.action = .submit → Guarded c ticket answers calls .submit
  previous : c.action = .previous → calls = [.previous]
  custom : c.action = .custom → calls = [.custom c.id c.values]
  completed : outcome = some .completed ↔ .acted ticket none ∈ answers
  invalid : ∀ messages, outcome = some (.invalid messages) ↔
    .validated ticket (.error messages) ∈ answers
  failed : ∀ reason, outcome = some (.failed reason) ↔ .acted ticket (some reason) ∈ answers
  accepted : outcome ≠ some .ignored

namespace Course

variable {answers : List FormStep} {calls : List HandlerCall} {outcome : Option ClickOutcome}
  {phase : Option ClickPhase}

theorem guarded (course : Course c ticket answers calls outcome phase)
    (validates : c.action.validates = true) : Guarded c ticket answers calls c.hookCall := by
  induction course with
  | validating => exact ⟨fun _ => rfl, nofun, nofun⟩
  | unvalidated direct => cases validates.symm.trans direct
  | passed _ transformed =>
      refine ⟨fun none => absurd List.mem_cons_self (none transformed), ?_, by simp⟩
      intro other member
      cases List.mem_singleton.mp member
      rfl
  | refused _ messages => exact ⟨fun _ => rfl, by simp, by simp⟩
  | acted acting failure ih =>
      refine ⟨fun none => ih.uncalled (by simpa using none), fun transformed member =>
        ih.called transformed (by simpa using member), fun _ _ => ?_⟩
      -- A click that validates gets to its hook only by a validation that passes.
      cases acting with
      | unvalidated direct => cases validates.symm.trans direct
      | passed _ transformed => exact ⟨transformed, List.mem_cons_self⟩
  | dropped inFlight ih =>
      exact ⟨fun none => ih.uncalled (by simpa using none), fun transformed member =>
        ih.called transformed (by simpa using member), fun failure member => by
          simpa using ih.passed failure (by simpa using member)⟩

theorem unguarded (course : Course c ticket answers calls outcome phase)
    (direct : c.action.validates = false) : calls = [c.hookCall c.values] := by
  induction course with
  | unvalidated => rfl
  | acted acting failure ih | dropped inFlight ih => exact ih
  | validating validates | passed validates | refused validates =>
      cases direct.symm.trans validates

theorem unended {phase : ClickPhase} (course : Course c ticket answers calls none (some phase)) :
    (∀ failure, .acted ticket failure ∉ answers) ∧
      ∀ messages, .validated ticket (.error messages) ∉ answers := by
  cases course <;> simp

theorem handled (course : Course c ticket answers calls outcome phase) :
    Handled c ticket answers calls outcome where
  next := fun isNext => by
    have hook : c.hookCall = .next := by
      funext values
      simp only [Click.hookCall, isNext]
    exact hook ▸ course.guarded (isNext ▸ rfl)
  submit := fun isSubmit => by
    have hook : c.hookCall = .submit := by
      funext values
      simp only [Click.hookCall, isSubmit]
    exact hook ▸ course.guarded (isSubmit ▸ rfl)
  previous := fun isPrevious => by
    simpa only [Click.hookCall, isPrevious] using course.unguarded (isPrevious ▸ rfl)
  custom := fun isCustom => by
    simpa only [Click.hookCall, isCustom] using course.unguarded (isCustom ▸ rfl)
  completed := by
    cases course with
    | acted acting failure => cases failure <;> simp [acting.unended.1]
    | dropped inFlight => simp [inFlight.unended.1]
    | validating | unvalidated | passed | refused => simp
  invalid := fun messages => by
    cases course with
    | acted acting failure => cases failure <;> simp [acting.unended.2]
    | dropped inFlight => simp [inFlight.unended.2]
    | refused => simp [eq_comm]
    | validating | unvalidated | passed => simp
  failed := fun reason => by
    cases course with
    | acted acting failure => cases failure <;> simp [acting.unended.1, eq_comm]
    | dropped inFlight => simp [inFlight.unended.1]
    | validating | unvalidated | passed | refused => simp
  accepted := by
    cases course with
    | acted acting failure => cases failure <;> simp
    | dropped | validating | unvalidated | passed | refused => simp

end Course

/-! ## Clicks that do not succeed -/

/-- The validation of a click fails, or its hook does, or it is dropped. -/
inductive Thwarts (ticket : Nat) : FormStep → Prop where
  | refused (messages : Messages) : Thwarts ticket (.validated ticket (.error messages))
  | failed (reason : HandlerFailure) : Thwarts ticket (.acted ticket (some reason))
  | dropped : Thwarts ticket (.drop ticket)

/-- The click of a ticket has its button loading all the while, and then idle. -/
structure Reverts (began : FormRun) (id : ButtonId) (past : List ButtonState)
    (early : List FormStep) (s : FormStep) : Prop where
  loading : ∀ done rest, early = done ++ rest → (began.run done).machine.state id = .loading
  idle : ((began.run early).step s).machine.state id = .idle
  history : ((began.run early).step s).machine.history id = past ++ [.loading, .idle]

theorem frees_of_thwarts (h : r.machine.Consistent) {p : PendingClick}
    (inFlight : p ∈ r.machine.pending) {s : FormStep} (thwarts : Thwarts p.ticket s)
    (awaited : r.awaits p.ticket s = true) : r.machine.Frees p (r.step s).machine := by
  obtain ⟨t, asks, concerned⟩ := (awaits_iff h inFlight s).mp awaited
  have transition := r.machine.transition_step t
  rw [machine_step, asks, Option.elim_some]
  generalize r.machine.step t = after at transition
  cases h.progress inFlight transition with
  | waits unconcerned => exact absurd concerned unconcerned
  | passed =>
      obtain rfl := machineStep?_eq_validated.mp asks
      cases thwarts
  | completed =>
      obtain rfl := machineStep?_eq_acted.mp asks
      cases thwarts
  | refused _ _ frees | failed _ _ frees | dropped frees => exact frees

theorem reverts_of_thwarts (h : r.machine.Consistent) (accepts : r.Accepts c)
    (early : List FormStep) {s : FormStep} (thwarts : Thwarts r.machine.nextTicket s)
    (awaited : ((r.step (.click c.id c.values)).run early).awaits r.machine.nextTicket s = true) :
    Reverts (r.step (.click c.id c.values)) c.id (r.machine.history c.id) early s := by
  have began := consistent_step h (.click c.id c.values)
  have consistent := consistent_run began early
  obtain ⟨_, -, stands⟩ := runs_run began (runs_begin h accepts) early
  cases stands with
  | ended _ gone => cases (awaits_of_gone gone s).symm.trans awaited
  | inFlight inFlight history =>
      have frees := frees_of_thwarts consistent inFlight thwarts awaited
      refine ⟨?_, ?_, ?_⟩
      · -- What is in flight at the end was in flight all along, and holds its button.
        rintro done rest rfl
        rw [run_append] at inFlight
        have older := Nat.lt_of_lt_of_le (nextTicket_lt_click accepts.found)
          ((r.step (.click c.id c.values)).nextTicket_le_run done)
        obtain ⟨q, inFlightThen, -, click⟩ := inFlight_before rest inFlight older
        have holds := ((consistent_run began done).holds q inFlightThen).1
        rwa [click] at holds
      · exact congrArg Slot.state frees.slot
      · rw [frees.history, history, List.append_assoc]
        rfl

/-- In every run of a form the handlers are called for accepted clicks only, and for each of them:
    `NEXT` and `SUBMIT` validate once and call their hook only if that passes, once and with what it
    has transformed; `SUBMIT` validates the whole form; the other actions call their own hook once;
    the click returns what became of its validation or of its hook; and unless its hook succeeds its
    button goes from loading to idle. -/
theorem calls_are_gated_by_validation (form : Form) (config : MachineConfig)
    (steps : List FormStep) :
    (∀ entry ∈ ((start form config).run steps).machine.calls,
      (start form config).Begins steps entry.1) ∧
    ∀ before c after, steps = before ++ .click c.id c.values :: after →
      let r := (start form config).run before
      let ticket := r.machine.nextTicket
      let began := r.step (.click c.id c.values)
      let last := began.run after
      r.Accepts c →
        (c.action = .submit → c.scope = .form) ∧
        Handled c ticket (began.answersTo ticket after) (last.machine.callsOf ticket)
          (last.machine.outcome? ticket) ∧
        ∀ early s late, after = early ++ s :: late → Thwarts ticket s →
          (began.run early).awaits ticket s = true →
          Reverts began c.id (r.machine.history c.id) early s := by
  have atStart : (start form config).machine.Consistent := Machine.Consistent.start config
  refine ⟨fun entry called => ?_, ?_⟩
  · rcases caller_run atStart steps called with ⟨_, none⟩ | begins
    · cases none
    · exact begins
  · intro before c after split r ticket began last accepts
    have consistent : r.machine.Consistent := consistent_run atStart before
    obtain ⟨_, course, -⟩ :=
      runs_run (consistent_step consistent _) (runs_begin consistent accepts) after
    refine ⟨fun isSubmit => ?_, course.handled, fun early s late _ thwarts awaited => ?_⟩
    · obtain ⟨-, -, scope⟩ := Form.click?_eq accepts.found
      simpa only [isSubmit, Form.scopeFor] using scope
    · exact reverts_of_thwarts consistent accepts early thwarts awaited

def trimmed : Values := ⟨[("a", .text "x")]⟩

/-- Of two clicks the second is refused, while the first one passes and ends. -/
def oneRefused : List FormStep :=
  [.click "m" .empty, .validated 1 (.error ⟨[("a", "required")], []⟩),
    .validated 0 (.ok (some trimmed)), .acted 0 none]

theorem first_next_gets_transformed_values :
    (start (.build twoNext [] ⟨false⟩ .currentStep) ⟨true, true⟩).Accepts
      ⟨"n", .next, .formSection 0, .empty⟩ ∧
    let last := (start (.build twoNext [] ⟨false⟩ .currentStep) ⟨true, true⟩).run
      (.click "n" .empty :: oneRefused)
    last.machine.callsOf 0 = [.validate (.formSection 0) .empty, .next trimmed] ∧
    last.machine.outcome? 0 = some .completed := by
  have accepts : (start (.build twoNext [] ⟨false⟩ .currentStep) ⟨true, true⟩).Accepts
      ⟨"n", .next, .formSection 0, .empty⟩ := ⟨rfl, by decide⟩
  obtain ⟨-, gated⟩ := calls_are_gated_by_validation (.build twoNext [] ⟨false⟩ .currentStep)
    ⟨true, true⟩ (.click "n" .empty :: oneRefused)
  obtain ⟨-, handled, -⟩ := gated [] _ oneRefused rfl accepts
  have validated := (handled.next rfl).called (some trimmed) List.mem_cons_self
  have completed := handled.completed.mpr (List.mem_cons_of_mem _ List.mem_cons_self)
  exact ⟨accepts, validated, completed⟩

end FormRun

end GatedForms

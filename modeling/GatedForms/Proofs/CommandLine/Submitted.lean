import GatedForms.CommandLine.Execute
import GatedForms.Proofs.Results
import GatedForms.Proofs.Validation.Gated

/-! # What a submission prints

The handlers of a submission answer without delay: rules first, then the handler of the button. Only
the values of a `SUBMIT` call are kept for the payload. After a `NEXT` click the payload is made of
the values that were given, whatever the rules have made of them.
-/

namespace GatedForms

/-! ## One click on a fresh form -/

theorem Machine.click_start {c : Click} (validates : c.action.validates = true)
    (config : MachineConfig) :
    (start config).click c =
      ⟨config, SlotTable.empty.update c.id ⟨.loading, 1, none⟩ [.loading],
        [⟨0, c, 1, .validating⟩], 1, [(0, .validate c.scope c.values)], []⟩ := by
  simp only [click, Click.firstCall, validates]
  rfl

namespace SchemaKind

variable {form : Form} {validator : Validator} {id : ButtonId} {place : ButtonPlace}
  {values : Values}

/-- Rules that refuse the values end the click. Otherwise its handler gets what they have made of
    the values, and the click completes. -/
theorem begin_validating (form : Form) {c : Click} (validates : c.action.validates = true)
    (validator : Validator) :
    let (ticket, done) := (Simulation.start form ⟨true, false⟩ 0).begin c (plan validator)
    match validator.check c.values c.scope with
    | .error messages => done.outcome? ticket = some (.invalid messages)
    | .ok normalized =>
        done.outcome? ticket = some .completed ∧
          done.run.machine.calls =
            [(0, .validate c.scope c.values), (0, c.hookCall normalized)] := by
  simp only [Simulation.begin, Simulation.start, FormRun.start, Machine.step,
    Machine.click_start validates]
  simp only [Machine.pending?, Machine.start, List.find?_cons, Simulation.enterValidating, if_true,
    decide_true, Simulation.finishValidating, FormRun.step, Machine.step, plan]
  cases validator.check c.values c.scope with
  | error messages =>
      simp only [Except.map, Machine.validated, Machine.finish, Machine.without]
      rfl
  | ok normalized => exact ⟨rfl, rfl⟩

/-- What comes of a click that validates. Only a `SUBMIT` click keeps what rules have made of the
    values. -/
theorem clickOnce_validating (found : form.schema.button? id = some place)
    (validates : place.action.validates = true) (validator : Validator) (values : Values) :
    clickOnce form validator id values =
      match validator.check values (form.scopeFor place.action form.firstStep) with
      | .error messages => .ok (.rejected messages)
      | .ok normalized =>
          .ok (.accepted id
            (form.submission (if place.action = .submit then normalized else values))) := by
  have ended := begin_validating form
    (c := ⟨id, place.action, form.scopeFor place.action form.firstStep, values⟩) validates validator
  have cursor : (Simulation.start form ⟨true, false⟩ 0).run.cursor = form.firstStep := rfl
  simp only [clickOnce, Form.click?, found, Option.map_some, cursor]
  cases checked : validator.check values (form.scopeFor place.action form.firstStep) with
  | error messages =>
      simp only [checked] at ended
      simp only [ended]
  | ok normalized =>
      simp only [checked] at ended
      simp only [ended.1, Machine.submittedValues?, ended.2, Click.hookCall]
      cases isAction : place.action with
      | next | submit => rfl
      | previous | custom =>
          rw [isAction] at validates
          cases validates

/-! ## Bundled forms -/

section

variable {kind : SchemaKind} {viewer : Viewer} {settings : Settings}

theorem exists_validator (loaded : kind.form viewer settings = .ok form) :
    ∃ validator, kind.validator form.schema = .ok validator := by
  unfold SchemaKind.form at loaded
  split at loaded
  · next paths _ =>
    cases loaded
    have same : (Form.build kind.schema paths viewer settings.validationScope).schema =
        kind.schema.gate paths := rfl
    rw [SchemaKind.validator, same, Validator.build_gate]
    cases kind <;> exact ⟨_, rfl⟩
  · cases loaded

theorem submit_eq (loaded : kind.form viewer settings = .ok form)
    (bound : kind.validator form.schema = .ok validator) {button : Option ButtonId}
    (clicked : button.or (submitButton? form.schema) = some id) (values : Values) :
    kind.submit viewer values button settings = clickOnce form validator id values := by
  simp only [submit, loaded, ok_bind, bound, clicked]

/-- If the rules of a bundled form refuse the values of a click on `NEXT` or `SUBMIT`, the click is
    rejected with their messages. If they accept them, the payload of `SUBMIT` is made of the values
    that the rules return, and the payload of `NEXT` of the values that were given. -/
theorem payload_of_submit (loaded : kind.form viewer settings = .ok form) :
    ∃ validator, kind.validator form.schema = .ok validator ∧
      ∀ button id place values, button.or (submitButton? form.schema) = some id →
        form.schema.button? id = some place → place.action.validates = true →
        let scope := form.scopeFor place.action form.firstStep
        let submitted := kind.submit viewer values button settings
        (∀ messages, validator.check values scope = .error messages →
          submitted = .ok (.rejected messages)) ∧
        ∀ normalized, validator.check values scope = .ok normalized →
          (place.action = .submit → submitted = .ok (.accepted id (form.submission normalized))) ∧
          (place.action = .next → submitted = .ok (.accepted id (form.submission values))) := by
  obtain ⟨validator, bound⟩ := exists_validator loaded
  refine ⟨validator, bound, ?_⟩
  intro button id place values clicked found validates scope submitted
  have ended : submitted = clickOnce form validator id values :=
    submit_eq loaded bound clicked values
  rw [clickOnce_validating found validates] at ended
  constructor
  · intro messages rejected
    simp only [ended, scope, rejected]
  · intro normalized accepted
    have payload : submitted = .ok (.accepted id
        (form.submission (if place.action = .submit then normalized else values))) := by
      simp only [ended, scope, accepted]
    constructor
    · intro isSubmit
      rw [payload, if_pos isSubmit]
    · intro isNext
      have noSubmit : place.action ≠ .submit := by simp [isNext]
      rw [payload, if_neg noSubmit]

end

/-- The list filter for a privileged viewer, with nothing admin-only. -/
def openFilter : Form := .build listFilter.schema [] ⟨true⟩ .wholeForm

def openFilter.settings : Settings := ⟨[], 3000, .wholeForm⟩

def openFilter.rules : Validator :=
  ⟨[⟨0, .field ⟨"criteria", [.key "name"]⟩, .required⟩,
    ⟨0, .field ⟨"criteria", [.key "maxAgeDays"]⟩, .range 1 365⟩]⟩

/-- A filter with a number of days that was typed as a text. -/
def openFilter.typed : Values :=
  ⟨[("criteria", .object
    [("age", .text "within"), ("maxAgeDays", .text "7"), ("name", .text "Warm")])]⟩

def openFilter.normalized : Values := typed.set ⟨"criteria", [.key "maxAgeDays"]⟩ (.int 7)

/-- Saving the filter submits the days as a number. -/
theorem saved_days_are_a_number :
    listFilter.submit ⟨true⟩ openFilter.typed none openFilter.settings =
      .ok (.accepted "save-filter" (openFilter.submission openFilter.normalized)) ∧
    (openFilter.submission openFilter.normalized).get? ⟨"criteria", [.key "maxAgeDays"]⟩ =
      some (.int 7) := by
  have loaded : listFilter.form ⟨true⟩ openFilter.settings = .ok openFilter := rfl
  have rules : listFilter.validator openFilter.schema = .ok openFilter.rules := rfl
  have accepted : openFilter.rules.check openFilter.typed .form = .ok openFilter.normalized := rfl
  obtain ⟨validator, bound, payloads⟩ := payload_of_submit loaded
  cases rules.symm.trans bound
  obtain ⟨-, payload⟩ := payloads none "save-filter" ⟨2, 2, "save-filter", .submit⟩
    openFilter.typed rfl rfl rfl
  exact ⟨(payload _ accepted).1 rfl, rfl⟩

/-- `NEXT` prints the days as they were typed, although the rules have made a number of them. -/
theorem next_prints_typed_days :
    listFilter.form ⟨true⟩ openFilter.settings = .ok openFilter ∧
    listFilter.validator openFilter.schema = .ok openFilter.rules ∧
    openFilter.schema.button? "2:1:NEXT" = some ⟨2, 1, "2:1:NEXT", .next⟩ ∧
    openFilter.rules.check openFilter.typed (openFilter.scopeFor .next openFilter.firstStep) =
      .ok openFilter.normalized ∧
    listFilter.submit ⟨true⟩ openFilter.typed (some "2:1:NEXT") openFilter.settings =
      .ok (.accepted "2:1:NEXT" (openFilter.submission openFilter.typed)) ∧
    openFilter.submission openFilter.typed ≠ openFilter.submission openFilter.normalized := by
  refine ⟨rfl, rfl, rfl, rfl, rfl, ?_⟩
  intro same
  have days := congrArg (fun payload => payload.get? ⟨"criteria", [.key "maxAgeDays"]⟩) same
  have typed : (openFilter.submission openFilter.typed).get? ⟨"criteria", [.key "maxAgeDays"]⟩ =
      some (.text "7") := rfl
  have number : (openFilter.submission openFilter.normalized).get?
      ⟨"criteria", [.key "maxAgeDays"]⟩ = some (.int 7) := rfl
  cases (typed.symm.trans days).trans number

end SchemaKind

end GatedForms

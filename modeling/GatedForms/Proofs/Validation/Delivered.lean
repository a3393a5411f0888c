import GatedForms.Proofs.Form.Calls
import GatedForms.Proofs.Form.Steps
import GatedForms.Proofs.Validation.Agreement
import GatedForms.Proofs.Validation.Normalized
import GatedForms.Proofs.Validation.Seen

/-! # What a completed `SUBMIT` delivers

A validator that passes values passes what it has made of them as it is. If a `SUBMIT` click is
validated by rules and completes, its handler gets such values, and their payload obeys the rules:
what is submitted of the field of a rule is what the rule allows.
-/

namespace GatedForms

/-! ## Values that rules allow -/

namespace Json

/-- The value is blank, or a whole number from `min` to `max`. -/
inductive Within (min max : Int) : Option Json → Prop where
  | blank {value : Option Json} (blank : Blank value) : Within min max value
  | number {n : Int} (above : min ≤ n) (below : n ≤ max) : Within min max (some (.int n))

variable {min max : Int} {value : Option Json}

theorem Within.getD_null (within : Within min max value) :
    Within min max (some (value.getD .null)) := by
  cases value with
  | none => exact .blank .null
  | some x => exact within

theorem Within.stripped {locked : List Path} {record left : Json}
    (stripped : Stripped locked record left) {steps : List Segment}
    (within : Within min max (record.get? steps)) : Within min max (left.get? steps) := by
  rcases stripped.get?_cases steps with nothing | same | ⟨-, less, whole, -, present⟩
  · rw [nothing]
    exact .blank .nothing
  · rwa [same]
  · rw [present] at within
    cases within with
    | blank blank => cases blank

end Json

/-! ## Validated values -/

namespace Validator

variable {v : Validator} {values normalized : Values} {scope : ValidationScope}

theorem within_of_check (accepted : v.check values scope = .ok normalized) {min max : Int}
    {p : Path} (member : (.range min max, p) ∈ v.tasks values scope) :
    Json.Within min max (normalized.get? p) := by
  rcases blank_or_reads_of_check accepted member with blank | ⟨n, reads, written⟩
  · have same := (alike_of_check accepted p).blank
    exact .blank (Json.isBlank_iff.mp (same.trans (Json.isBlank_iff.mpr blank)))
  · obtain ⟨-, rfl⟩ := check_eq_ok.mp accepted
    rw [Values.get?_setAll_of_denotes denotes_of_mem_filterMap written]
    exact .number reads.bounds.1 reads.bounds.2

theorem not_blank_of_check (accepted : v.check values scope = .ok normalized) {p : Path}
    (member : (.required, p) ∈ v.tasks values scope) : ¬ Json.Blank (normalized.get? p) := by
  have alike := alike_of_check accepted p
  intro blank
  have refused : Rule.required.apply (values.get? p) = .fail (Rule.refusal .required) :=
    if_pos (alike.blank.symm.trans (Json.isBlank_iff.mpr blank))
  have notRefused := (check_eq_ok.mp accepted).1 _ member
  simp [refusal?, refused] at notRefused

end Validator

/-! ## Tasks of bound rules -/

namespace RuleSpec

variable {s : Schema} {spec : RuleSpec} {check : Check}

theorem exists_check_of_bindAll {specs : List RuleSpec} {checks : List Check}
    (bound : bindAll s specs = .ok checks) (member : spec ∈ specs) :
    ∃ check ∈ checks, spec.bind s = .ok check := by
  rw [bindAll_eq_mapM] at bound
  exact exists_of_mapM_eq_ok bound member

end RuleSpec

namespace Validator

variable {s : Schema} {specs : List RuleSpec} {v : Validator} {spec : RuleSpec}

theorem mem_tasks_of_field (built : build s specs = .ok v) (member : spec ∈ specs)
    (direct : spec.nested = none) {name : Path} (printable : name.Printable)
    (text : name.display = spec.field) (values : Values) :
    (spec.rule, name) ∈ v.tasks values .form := by
  obtain ⟨checks, bound, rfl⟩ := map_eq_ok.mp built
  obtain ⟨check, inChecks, checkBound⟩ := RuleSpec.exists_check_of_bindAll bound member
  obtain ⟨sectionIndex, f, path, -, read, ⟨-, rfl⟩ | ⟨_, _, isNested, -⟩⟩ :=
    RuleSpec.found_of_bind checkBound
  · obtain rfl : path = name := Path.eq_of_parseName printable (text ▸ read)
    exact mem_tasks.mpr ⟨_, inChecks, rfl, List.mem_singleton_self _, rfl⟩
  · cases direct.symm.trans isNested

theorem mem_tasks_of_repetition (built : build s specs = .ok v) (member : spec ∈ specs)
    {group name : Path} (printable : group.Printable) (text : group.display = spec.field)
    (namePrintable : name.Printable) (nameText : spec.nested = some name.display)
    {values : Values} {position : Nat}
    (stored : position < (Json.itemsOrEmpty (values.get? group)).length) :
    (spec.rule, (group.index position).join name) ∈ v.tasks values .form := by
  obtain ⟨checks, bound, rfl⟩ := map_eq_ok.mp built
  obtain ⟨check, inChecks, checkBound⟩ := RuleSpec.exists_check_of_bindAll bound member
  obtain ⟨sectionIndex, f, path, -, read, ⟨direct, -⟩ |
    ⟨nested, below, isNested, -, nestedRead, rfl⟩⟩ := RuleSpec.found_of_bind checkBound
  · cases direct.symm.trans nameText
  · cases isNested.symm.trans nameText
    obtain rfl : path = group := Path.eq_of_parseName printable (text ▸ read)
    obtain rfl : below = name := Path.eq_of_parseName namePrintable nestedRead
    apply mem_tasks.mpr
    refine ⟨_, inChecks, rfl, ?_, rfl⟩
    exact List.mem_map.mpr ⟨position, List.mem_range.mpr stored, rfl⟩

end Validator

/-! ## Payloads of values that rules allow -/

namespace Field

variable {viewer : Viewer} {v : Values} {f : Field}

/-- A text, a radio or a checkbox: what is stored for it is submitted as it is. -/
def IsInput (f : Field) : Prop := f.tag = .text ∨ f.tag = .radio ∨ f.tag = .checkbox

theorem IsInput.isBound (isInput : f.IsInput) : f.isBound = true := by
  rcases isInput with tag | tag | tag <;> rw [Field.isBound, tag] <;> rfl

theorem IsInput.encoding (isInput : f.IsInput) (name : Path) :
    f.encoding viewer v name = (v.get? name).getD .null := by
  obtain ⟨fieldName, label, tooltip, adminOnly, kind⟩ := f
  cases kind with
  | text | radio | checkbox => rfl
  | toggle | dynamic | button | static => rcases isInput with tag | tag | tag <;> cases tag

end Field

namespace Schema

variable {s : Schema} {viewer : Viewer} {v : Values} {place : FieldPlace} {f : Field}

theorem Issued.checked (issued : s.Issued) : s.Checked := fun part inSchema f inPart =>
  Field.check_eq_ok_iff_contains.mpr (issued.keeps.1.sections.fieldsSound part inSchema f inPart)

/-- What a stored repetition holds is submitted, unless it is locked. -/
theorem NamesApart.within_repetition (apart : s.NamesApart) (checked : s.Checked)
    (isDirect : place.descent.nested = none) (found : s.at? place = some f)
    {nested : List NestedField} {addButtonLabel : String}
    (isGroup : f.kind = .dynamic nested addButtonLabel) {group name : Path}
    (named : f.name = some group) {position : Nat} {min max : Int}
    (within : Json.Within min max (v.get? ((group.index position).join name))) :
    Json.Within min max ((s.submission viewer v).get? ((group.index position).join name)) := by
  rcases apart.get?_submission_repetition checked isDirect found isGroup named name viewer v with
    nothing | ⟨record, left, stored, stripped, held⟩
  · rw [nothing]
    exact .blank .nothing
  · rw [Values.get?_repetition, stored] at within
    rw [held]
    exact within.stripped stripped

end Schema

namespace RuleSpec

structure Kept (spec : RuleSpec) (s : Schema) (viewer : Viewer) (payload : Values) : Prop where
  /-- At the name of an input stands nothing, or a number in range. -/
  range : ∀ min max, spec.rule = .range min max → spec.nested = none →
    ∀ place f name, place.descent.nested = none → s.at? place = some f → f.IsInput →
      f.name = some name → name.display = spec.field → Json.Within min max (payload.get? name)
  /-- In each repetition of a group the nested field has nothing, or a number in range. -/
  repetitions : ∀ min max, spec.rule = .range min max →
    ∀ place f nested addButtonLabel group, place.descent.nested = none → s.at? place = some f →
      f.kind = .dynamic nested addButtonLabel → f.name = some group → group.display = spec.field →
      ∀ inner ∈ nested, ∀ name, inner.field.name = some name → spec.nested = some name.display →
        ∀ position, Json.Within min max (payload.get? ((group.index position).join name))
  /-- At the name of an input that the viewer may edit stands something. -/
  required : spec.rule = .required → spec.nested = none →
    ∀ part ∈ s.sections, ∀ f ∈ part.fields, ∀ name, f.IsInput → f.isLockedFor viewer = false →
      f.name = some name → name.display = spec.field →
      ∃ value, payload.get? name = some value ∧ ¬ Json.Blank (some value)

variable {template s : Schema} {specs : List RuleSpec} {validator : Validator} {spec : RuleSpec}

/-- The payload of values that pass as they are obeys all rules. -/
theorem kept_of_check (built : Validator.build template specs = .ok validator)
    (member : spec ∈ specs) {n : Values} (accepted : validator.check n .form = .ok n)
    (issued : s.Issued) (apart : s.NamesApart) (viewer : Viewer) :
    spec.Kept s viewer (s.submission viewer n) where
  range := by
    intro min max isRange direct place f name isDirect found isInput named text
    have task := Validator.mem_tasks_of_field built member direct
      (issued.keeps.2.printable isDirect found named) text n
    rw [isRange] at task
    have within := Validator.within_of_check accepted task
    rcases apart.get?_submission issued.checked isDirect found isInput.isBound named viewer n with
      nothing | held
    · rw [nothing]
      exact .blank .nothing
    · rw [held, isInput.encoding]
      exact within.getD_null
  repetitions := by
    intro min max isRange place f nested addButtonLabel group isDirect found isGroup named text
      inner inTemplate name innerNamed nestedText position
    refine apart.within_repetition issued.checked isDirect found isGroup named ?_
    by_cases stored : position < (Json.itemsOrEmpty (n.get? group)).length
    · have task := Validator.mem_tasks_of_repetition built member
        (issued.keeps.2.printable isDirect found named) text
        (issued.keeps.2.printable_nested isDirect found isGroup inTemplate innerNamed) nestedText
        stored
      rw [isRange] at task
      exact Validator.within_of_check accepted task
    · -- No rule is applied behind the last repetition, but nothing is stored there either.
      rw [Values.get?_repetition, List.getElem?_eq_none (Nat.le_of_not_lt stored)]
      exact .blank .nothing
  required := by
    intro isRequired direct part inSchema f inPart name isInput unlocked named text
    obtain ⟨sectionIndex, atSection⟩ := List.mem_iff_getElem?.mp inSchema
    obtain ⟨fieldIndex, atField⟩ := List.mem_iff_getElem?.mp inPart
    -- Top-level fields that are not locked are always live, unlike revealed ones.
    have live : s.Live viewer n ⟨sectionIndex, fieldIndex, ⟨[], none⟩⟩ f name :=
      .top atSection atField ⟨named, isInput.isBound, unlocked⟩
    have task := Validator.mem_tasks_of_field built member direct
      (issued.keeps.2.printable rfl live.at? named) text n
    rw [isRequired] at task
    have present := Validator.not_blank_of_check accepted task
    refine ⟨_, issued.checked.get?_submission (apart.liveApart viewer n) live, ?_⟩
    rw [isInput.encoding]
    cases stored : n.get? name with
    | none => exact absurd (stored ▸ .nothing) present
    | some value => exact stored ▸ present

end RuleSpec

/-! ## Completed submits -/

namespace FormRun

variable {r : FormRun} {c : Click}

theorem accepts_of_completed (h : r.machine.Consistent)
    (found : r.form.click? r.cursor c.id c.values = some c) {after : List FormStep}
    (completed : ((r.step (.click c.id c.values)).run after).machine.outcome?
      r.machine.nextTicket = some .completed) : r.Accepts c := by
  refine ⟨found, fun loading => ?_⟩
  rw [machine_run, machine_click found, (h.ignored_run loading _).2.1] at completed
  cases completed

/-- If the validation of a `SUBMIT` click is what rules say, and the click completes, then its
    handler has got values that the rules pass as they are. The payload of these values obeys all
    rules if the names of the fields stand apart. -/
theorem submit_delivers_what_rules_allow {template : Schema} (issued : template.Issued)
    {specs : List RuleSpec} {validator : Validator}
    (built : Validator.build template specs = .ok validator) (paths : List AdminPath)
    (viewer : Viewer) (policy : ScopePolicy) (config : MachineConfig) (before : List FormStep)
    (c : Click) (after : List FormStep) :
    let form := Form.build template paths viewer policy
    let r := (start form config).run before
    let ticket := r.machine.nextTicket
    let began := r.step (.click c.id c.values)
    let last := began.run after
    form.click? r.cursor c.id c.values = some c → c.action = .submit →
    (∀ result, .validated ticket result ∈ began.answersTo ticket after →
      result = (validator.check c.values c.scope).map some) →
    last.machine.outcome? ticket = some .completed →
    ∃ n, last.machine.callsOf ticket = [.validate .form c.values, .submit n] ∧
      validator.check n .form = .ok n ∧
      (template.NamesApart →
        ∀ spec ∈ specs, spec.Kept form.schema viewer (form.submission n)) := by
  intro form r ticket began last found isSubmit byRules completed
  have consistent : r.machine.Consistent := consistent_run (Machine.Consistent.start config) before
  have sameForm : r.form = form := form_run _ before
  have accepts : r.Accepts c := accepts_of_completed consistent (sameForm ▸ found) completed
  obtain ⟨_, course, -⟩ :=
    runs_run (consistent_step consistent _) (runs_begin consistent accepts) after
  have handled := course.handled
  -- Its hook has answered, so its validation has passed before.
  have guarded := handled.submit isSubmit
  obtain ⟨transformed, validated⟩ := guarded.passed none (handled.completed.mp completed)
  have wholeForm : c.scope = .form := by
    obtain ⟨-, -, scope⟩ := Form.click?_eq found
    simpa only [isSubmit, Form.scopeFor] using scope
  have calls := guarded.called transformed validated
  have passed := byRules _ validated
  rw [wholeForm] at calls passed
  obtain ⟨n, accepted, rfl⟩ := map_eq_ok.mp passed.symm
  refine ⟨n, calls, Validator.check_normalized accepted, fun apart spec member => ?_⟩
  exact RuleSpec.kept_of_check built member (Validator.check_normalized accepted)
    (issued.gated paths) (apart.gate paths) viewer

def sendable : Schema :=
  { Schema.paced with sections := Schema.paced.sections ++ [⟨none, "row", [send]⟩] }
where
  send : Field := ⟨none, "Send", none, false, .button .submit (some "send")⟩

theorem issued_sendable : sendable.Issued := by
  have send : sendable.send.Portable := Field.portable_iff.mpr ⟨nofun, .button .submit _⟩
  refine .built (fun part member => ?_)
    (rfl : Schema.build sendable.title sendable.backendKey sendable.sections = .ok sendable)
  rcases List.mem_append.mp member with before | last
  · exact Validator.issued_paced.keeps.2 part before
  · cases List.mem_singleton.mp last
    exact List.forall_mem_singleton.mpr send

theorem namesApart_sendable : sendable.NamesApart := by
  have inPaced : ∀ place f, place.descent.nested = none → sendable.at? place = some f →
      f.isBound = true → Schema.paced.at? place = some f := by
    rintro ⟨sectionIndex, fieldIndex, options, nested⟩ f isDirect found bound
    cases isDirect
    match sectionIndex, fieldIndex, options with
    | 0, _, _ => exact found
    | 1, 0, [] =>
        cases found
        cases bound
    | 1, 0, _ :: _ | 1, _ + 1, _ | _ + 2, _, _ => cases found
  intro place other f g name otherName differ isDirect alsoDirect found alsoFound bound alsoBound
  exact Schema.namesApart_paced place other f g name otherName differ isDirect alsoDirect
    (inPaced place f isDirect found bound) (inPaced other g alsoDirect alsoFound alsoBound) bound
    alsoBound

def typed : Values :=
  ⟨[("a", .object [("mode", .bool true), ("rate", .text " 5"),
    ("steps", .array [.object [("gap", .text "10")]])])]⟩

/-- The validator answers a click that sends the values, and then the hook does. -/
def sent : List FormStep :=
  [.validated 0 ((Validator.paced.check typed .form).map some), .acted 0 none]

/-- Of the typed rate and gap, numbers in range are submitted. -/
theorem typed_numbers_are_submitted :
    let form := Form.build sendable [] ⟨false⟩ .wholeForm
    let last := (start form ⟨true, true⟩).run (.click "send" typed :: sent)
    ∃ n, last.machine.callsOf 0 = [.validate .form typed, .submit n] ∧
      Json.Within 1 100 ((form.submission n).get? ⟨"a", [.key "rate"]⟩) ∧
      Json.Within 0 60 ((form.submission n).get? ⟨"a", [.key "steps", .index 0, .key "gap"]⟩) := by
  intro form last
  have built : Validator.build sendable Validator.paced.specs = .ok .paced := rfl
  obtain ⟨n, calls, -, kept⟩ := submit_delivers_what_rules_allow issued_sendable built []
    ⟨false⟩ .wholeForm ⟨true, true⟩ [] ⟨"send", .submit, .form, typed⟩ sent rfl rfl
    (fun result member => by
      rcases List.mem_cons.mp member with same | other
      · cases same
        rfl
      · cases List.mem_singleton.mp other) rfl
  have each := List.forall_mem_cons.mp (kept namesApart_sendable)
  refine ⟨n, calls, ?_, ?_⟩
  · exact each.1.range 1 100 rfl rfl ⟨0, 0, ⟨[0], none⟩⟩ Schema.paced.rate _ rfl rfl (.inl rfl) rfl
      rfl
  · exact (List.forall_mem_singleton.mp each.2).repetitions 0 60 rfl ⟨0, 1, ⟨[], none⟩⟩
      Schema.paced.steps _ _ _ rfl rfl rfl rfl rfl _ List.mem_cons_self ⟨"gap", []⟩ rfl rfl 0

end FormRun

end GatedForms

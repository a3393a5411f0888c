import GatedForms.Group
import GatedForms.Proofs.Schema.Checked
import GatedForms.Proofs.Submission.Shown

/-! # Repetitions as they are shown

A group shows one repetition for every stored record, and in each of them one directive for every
nested field. Every nested field is shown as any other field is, at its place in the record, except
that it is read-only with its group, and in the first repetition if the template says so.
-/

namespace GatedForms

variable {viewer : Viewer} {v : Values} {messages : Messages}

/-! ## Displayed values -/

/-- What a body shows of the value that is stored for a field of some kind. -/
inductive FieldKind.Displays (stored : Option Json) : FieldKind → DirectiveBody → Prop where
  | text (input : TextInput) (placeholder : Option String) :
      Displays stored (.text input placeholder) (.text (stored.getD .null) input placeholder)
  /-- The first option with this value is selected. -/
  | radio {options : List FieldOption} {selected : Option Nat}
      (isFirst : ∀ position, selected = some position ↔ ∃ option,
        options[position]? = some option ∧ option.value.same (stored.getD .null) = true ∧
        ∀ earlier other, earlier < position → options[earlier]? = some other →
          other.value.same (stored.getD .null) = false) :
      Displays stored (.radio options) (.radio (options.map FieldOption.view) selected
        (selected.bind fun position => options[position]?.bind FieldOption.reveals))
  /-- The options whose values are stored are checked. -/
  | checkbox {options : Option (List FieldOption)} {checked : List Nat}
      (inOrder : checked.Pairwise (· < ·))
      (isChecked : ∀ position, position ∈ checked ↔ ∃ option,
        (options.getD [])[position]? = some option ∧
          option.value.occursIn (Json.itemsOrEmpty stored) = true) :
      Displays stored (.checkbox options)
        (.checkbox (stored.getD .null) ((options.getD []).map FieldOption.view) checked)
  | toggle : Displays stored .toggle (.toggle (Json.isTruthy stored))
  | static (content : String) : Displays stored (.static content) (.static content)

theorem FieldOption.selected?_eq_some {options : List FieldOption} {value : Json}
    {position : Nat} :
    selected? options value = some position ↔ ∃ option, options[position]? = some option ∧
      option.value.same value = true ∧ ∀ earlier other, earlier < position →
        options[earlier]? = some other → other.value.same value = false := by
  rw [selected?, List.findIdx?_eq_some_iff_getElem]
  constructor
  · rintro ⟨inside, same, first⟩
    refine ⟨options[position], List.getElem?_eq_getElem inside, same, ?_⟩
    intro earlier other before atEarlier
    obtain ⟨_, rfl⟩ := List.getElem?_eq_some_iff.mp atEarlier
    exact Bool.eq_false_iff.mpr (first earlier before)
  · rintro ⟨option, atPosition, same, first⟩
    obtain ⟨inside, rfl⟩ := List.getElem?_eq_some_iff.mp atPosition
    refine ⟨inside, same, fun earlier before => Bool.eq_false_iff.mp ?_⟩
    exact first earlier _ before (List.getElem?_eq_getElem (Nat.lt_trans before inside))

theorem FieldOption.checkedFrom_eq (start : Nat) (items : List Json) (options : List FieldOption) :
    checkedFrom start items options =
      ((options.zipIdx start).filter fun entry => entry.1.value.occursIn items).map Prod.snd := by
  induction options generalizing start with
  | nil => rfl
  | cons option rest ih =>
      rw [checkedFrom, List.zipIdx_cons, List.filter_cons, ih]
      split <;> rfl

theorem FieldOption.mem_checkedFrom {options : List FieldOption} {items : List Json}
    {position : Nat} :
    position ∈ checkedFrom 0 items options ↔ ∃ option,
      options[position]? = some option ∧ option.value.occursIn items = true := by
  simp [checkedFrom_eq, List.mem_zipIdx_iff_getElem?]

theorem FieldOption.pairwise_checkedFrom (items : List Json) (options : List FieldOption) :
    (checkedFrom 0 items options).Pairwise (· < ·) := by
  have sublist : (checkedFrom 0 items options).Sublist ((options.zipIdx 0).map Prod.snd) := by
    rw [checkedFrom_eq]
    exact List.filter_sublist.map Prod.snd
  rw [List.zipIdx_map_snd] at sublist
  exact List.Pairwise.sublist sublist List.pairwise_lt_range'

/-- A field that may be nested shows the value at its path. -/
theorem FieldKind.displays_bodyAt {kind : FieldKind} (canBeNested : kind.tag.canBeNested = true)
    (path : Option Path) (locked : Bool) :
    kind.Displays (path.bind v.get?) (kind.bodyAt viewer v messages path locked) := by
  cases kind with
  | text input placeholder => exact .text input placeholder
  | radio options => exact .radio fun position => FieldOption.selected?_eq_some
  | checkbox options =>
      exact .checkbox (FieldOption.pairwise_checkedFrom _ _) fun position =>
        FieldOption.mem_checkedFrom
  | toggle => exact .toggle
  | static content => exact .static content
  | dynamic | button => cases canBeNested

/-! ## Directives of repetitions -/

deriving instance ReflBEq, LawfulBEq for KindTag

theorem Field.messageAt_eq_adminOnly {locked : Bool} {path : Option Path} :
    messageAt locked messages path = some .adminOnly ↔ locked = true := by
  cases locked with
  | true => exact ⟨fun _ => rfl, fun _ => rfl⟩
  | false =>
      refine ⟨fun marked => ?_, nofun⟩
      obtain ⟨p, -, found⟩ := Option.bind_eq_some_iff.mp marked
      obtain ⟨text, -, other⟩ := Option.map_eq_some_iff.mp found
      cases other

namespace NestedField

/-- The directive of a nested field of `group` in a repetition, which gives the field its place. -/
structure Directed (viewer : Viewer) (v : Values) (messages : Messages) (group : Field)
    (index : Nat) (place : Option Path) (spec : NestedField) (d : Directive) : Prop where
  /-- Static text has no value to change. -/
  path : d.path = if spec.field.tag = .static then none else place
  label : d.label = Field.labelSlot spec.field.label spec.field.tooltip
  body : spec.field.kind.Displays (place.bind v.get?) d.body
  editable : d.editable = true ↔
    group.isLockedFor viewer = false ∧ spec.field.isLockedFor viewer = false ∧
      spec.field.tag ≠ .static ∧ ¬ (index = 0 ∧ spec.disableOnFirst = true)
  /-- The marker comes with the lock of the nested field itself. -/
  marked : d.message = some .adminOnly ↔ spec.field.isLockedFor viewer = true
  message : spec.field.isLockedFor viewer = false →
    d.message = place.bind fun p => (messages.get? p.display).map .invalid

theorem directed_resolveAt {spec : NestedField} (canBeNested : spec.field.tag.canBeNested = true)
    (group : Field) (index : Nat) (place : Option Path) :
    spec.Directed viewer v messages group index place (spec.field.resolveAt viewer v messages place
      (group.isLockedFor viewer || (index == 0 && spec.disableOnFirst))) where
  path := by
    rw [Field.path_resolveAt, Field.isBound]
    cases kind : spec.field.tag with
    | text | radio | checkbox | toggle | static => rfl
    | dynamic | button =>
        rw [kind] at canBeNested
        cases canBeNested
  label := Field.label_resolveAt _ _ _
  body := by
    rw [Field.body_resolveAt]
    exact FieldKind.displays_bodyAt canBeNested _ _
  editable := by
    have atFirst : (index == 0 && spec.disableOnFirst) = false ↔
        ¬ (index = 0 ∧ spec.disableOnFirst = true) := by
      rw [← Bool.not_eq_true, Bool.and_eq_true, beq_iff_eq]
    rw [Field.editable_resolveAt, Bool.and_eq_true, Bool.and_eq_true, Bool.not_eq_true',
      Bool.not_eq_true', Bool.or_eq_false_iff, bne_iff_ne, atFirst]
    constructor
    · rintro ⟨⟨unlocked, groupUnlocked, notFirst⟩, notStatic⟩
      exact ⟨groupUnlocked, unlocked, notStatic, notFirst⟩
    · rintro ⟨groupUnlocked, unlocked, notStatic, notFirst⟩
      exact ⟨⟨unlocked, groupUnlocked, notFirst⟩, notStatic⟩
  marked := by
    rw [Field.message_resolveAt]
    exact Field.messageAt_eq_adminOnly
  message := fun unlocked => by
    rw [Field.message_resolveAt, Field.messageAt, unlocked]
    rfl

end NestedField

/-! ## Repetitions of a group -/

namespace Field

/-- A group shows one repetition for each stored record, in their order, and in each of them the
    directive of every nested field, in the order of the template. -/
theorem repetitions_are_exact {sectionKey addButtonLabel : String} {f : Field}
    {nested : List NestedField} (checked : f.check sectionKey = .ok ())
    (isGroup : f.kind = .dynamic nested addButtonLabel) (viewer : Viewer) (v : Values)
    (messages : Messages) :
    ∃ group repetitions, f.name = some group ∧
      f.resolveGroup viewer v messages = .ok repetitions ∧
      (f.resolve viewer v messages).body = .dynamic addButtonLabel repetitions ∧
      repetitions.length = (Json.itemsOrEmpty (v.get? group)).length ∧
      ∀ index repetition, repetitions[index]? = some repetition →
        repetition.index = index ∧ repetition.path = group.index index ∧
        repetition.fields.length = nested.length ∧
        ∀ (position : Nat) spec, nested[position]? = some spec →
          ∃ d, repetition.fields[position]? = some d ∧
            spec.Directed viewer v messages f index
              (spec.field.name.map (group.index index).join) d := by
  have bound : f.isBound = true := by rw [isBound, tag, isGroup]; rfl
  obtain ⟨group, named⟩ := exists_name_of_check checked bound
  have resolved : f.resolveGroup viewer v messages = .ok
      ((List.range (Json.itemsOrEmpty (v.get? group)).length).map
        (f.repetition viewer v messages nested group)) := by
    simp only [resolveGroup, Field.group, isGroup, named, NestedField.resolveAll_eq_map]
    rfl
  refine ⟨group, _, named, resolved, resolve_body_of_group isGroup named, by simp, ?_⟩
  intro index repetition atIndex
  rw [List.getElem?_map] at atIndex
  obtain ⟨position, inRange, rfl⟩ := Option.map_eq_some_iff.mp atIndex
  obtain ⟨inside, same⟩ := List.getElem?_eq_some_iff.mp inRange
  rw [List.getElem_range] at same
  subst same
  refine ⟨rfl, rfl, List.length_map _, fun position spec atPosition => ?_⟩
  refine ⟨_, by rw [getElem?_repetition, atPosition]; rfl, ?_⟩
  have canBeNested := (check_template checked isGroup spec (List.mem_of_getElem? atPosition)).1
  exact NestedField.directed_resolveAt canBeNested f index _

/-- Steps with a gap, which the first step shows read-only, and with a note that has a name. -/
def notedSteps : Field :=
  ⟨some ⟨"a", [.key "steps"]⟩, "steps", none, false,
    .dynamic [⟨⟨some ⟨"gap", []⟩, "gap", none, false, .text .number none⟩, true⟩,
      ⟨⟨some ⟨"note", []⟩, "note", none, false, .static "wait"⟩, false⟩] "Add"⟩

def storedSteps : Values :=
  ⟨[("a", .object [("steps",
    .array [.object [("gap", .int 4), ("note", .text "soon")], .null])])]⟩

/-- The gap of the first step cannot be edited, and that of the second one has a message. -/
theorem noted_steps_shown :
    let messages := Messages.empty.insert "a.steps[1].gap" "required"
    notedSteps.check "S" = .ok () ∧ ∃ first second gap later,
      notedSteps.resolveGroup ⟨false⟩ storedSteps messages = .ok [first, second] ∧
      first.fields[0]? = some gap ∧ second.fields[0]? = some later ∧
      FieldKind.Displays (some (.int 4)) (.text .number none) gap.body ∧
      gap.editable ≠ true ∧ later.editable = true ∧
      later.path = some ⟨"a", [.key "steps", .index 1, .key "gap"]⟩ ∧
      later.message = some (.invalid "required") := by
  intro messages
  have checked : notedSteps.check "S" = .ok () := rfl
  obtain ⟨group, repetitions, named, resolved, -, count, each⟩ :=
    repetitions_are_exact checked rfl ⟨false⟩ storedSteps messages
  cases named
  obtain ⟨first, second, rfl⟩ : ∃ first second, repetitions = [first, second] :=
    ⟨_, _, List.eq_getElem_of_length_eq_two repetitions count⟩
  obtain ⟨-, -, -, inFirst⟩ := each 0 first rfl
  obtain ⟨-, -, -, inSecond⟩ := each 1 second rfl
  obtain ⟨gap, atGap, gapDirected⟩ := inFirst 0 _ rfl
  obtain ⟨later, atLater, laterDirected⟩ := inSecond 0 _ rfl
  refine ⟨checked, first, second, gap, later, resolved, atGap, atLater, gapDirected.body, ?_, ?_,
    laterDirected.path, laterDirected.message rfl⟩
  · intro editable
    exact absurd (gapDirected.editable.mp editable) (by decide)
  · exact laterDirected.editable.mpr (by decide)

/-- The note has a name and something is stored under it, but it shows its own text and has no path
    that a change would go to. -/
theorem note_shown_without_path :
    let place : Path := ⟨"a", [.key "steps", .index 0, .key "note"]⟩
    notedSteps.check "S" = .ok () ∧ ∃ first second note,
      notedSteps.resolveGroup ⟨false⟩ storedSteps .empty = .ok [first, second] ∧
      first.fields[1]? = some note ∧ storedSteps.get? place = some (.text "soon") ∧
      note.path ≠ some place ∧ note.path = none ∧ note.body = .static "wait" :=
  ⟨rfl, _, _, _, rfl, rfl, rfl, nofun, rfl, rfl⟩

end Field

end GatedForms

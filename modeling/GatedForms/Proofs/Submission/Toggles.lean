import GatedForms.Proofs.Submission.Shown

/-! # Toggles in payloads

A toggle is shown as on or off, whatever is stored for it. A top-level or revealed toggle is
submitted as the boolean that is shown. In a repetition of a group it is submitted as it is stored,
which is the boolean shown only if a boolean is stored.
-/

namespace GatedForms

variable {viewer : Viewer} {v : Values} {messages : Messages}

theorem Path.repetition_inj {group name : Path} {i j : Nat} :
    (group.index i).join name = (group.index j).join name ↔ i = j := by
  refine ⟨fun same => ?_, fun same => by rw [same]⟩
  have steps := congrArg Path.segments same
  rw [segments_repetition, segments_repetition, List.append_cancel_left_eq] at steps
  cases steps
  rfl

theorem Json.eq_bool_isTruthy_iff {w : Json} :
    w = .bool (isTruthy (some w)) ↔ ∃ b, w = .bool b := by
  constructor
  · intro same
    exact ⟨_, same⟩
  · rintro ⟨b, rfl⟩
    rfl

theorem Field.body_resolveAt_of_toggle {f : Field} (isToggle : f.kind = .toggle)
    (path : Option Path) (locked : Bool) :
    (f.resolveAt viewer v messages path locked).body =
      .toggle (Json.isTruthy (path.bind v.get?)) := by
  rw [body_resolveAt, isToggle, FieldKind.bodyAt]

namespace NestedField

/-- The names of different fields stand apart. -/
def NamesApart (nested : List NestedField) : Prop :=
  ∀ (i j : Nat) a b name other, i ≠ j → nested[i]? = some a → nested[j]? = some b →
    a.field.name = some name → b.field.name = some other → name.Apart other

theorem NamesApart.locked {nested : List NestedField} (apart : NamesApart nested) {position : Nat}
    {spec : NestedField} (atPosition : nested[position]? = some spec) {name other : Path}
    (named : spec.field.name = some name) (isLocked : other ∈ lockedNames viewer nested) :
    name = other ∨ name.Apart other := by
  obtain ⟨lockedSpec, member, -, otherNamed⟩ := mem_lockedNames.mp isLocked
  obtain ⟨index, atIndex⟩ := List.mem_iff_getElem?.mp member
  by_cases same : position = index
  · subst same
    cases atPosition.symm.trans atIndex
    cases named.symm.trans otherNamed
    exact .inl rfl
  · exact .inr (apart position index spec lockedSpec name other same atPosition atIndex named
      otherNamed)

end NestedField

namespace Schema

variable {s : Schema} {place : FieldPlace} {group f : Field} {groupName name p : Path}
  {nested : List NestedField} {addButtonLabel : String} {spec : NestedField} {position index : Nat}
  {d : Directive} {w : Json}

/-! ## Directives of bindings -/

/-- The directive that shows a field where it is bound to a path: its own, or the one in its place
    in a repetition that its group shows. -/
inductive Directs (s : Schema) (viewer : Viewer) (v : Values) (messages : Messages) :
    FieldPlace → Path → Directive → Prop where
  | itself {place : FieldPlace} {f : Field} {name : Path} (isDirect : place.descent.nested = none)
      (found : s.at? place = some f) (named : f.name = some name) :
      Directs s viewer v messages place name (f.resolve viewer v messages)
  | inRepetition {place : FieldPlace} {group : Field} {p : Path} {d : Directive} {position : Nat}
      {addButtonLabel : String} {repetitions : List Repetition} {repetition : Repetition}
      (inTemplate : place.descent.nested = some position)
      (groupFound : s.at? place.owner = some group)
      (body : (group.resolve viewer v messages).body = .dynamic addButtonLabel repetitions)
      (shown : repetition ∈ repetitions) (inRepetition : repetition.fields[position]? = some d)
      (atPath : d.path = some p) : Directs s viewer v messages place p d

theorem directs_itself_iff (isDirect : place.descent.nested = none) (found : s.at? place = some f)
    (named : f.name = some name) :
    s.Directs viewer v messages place name d ↔ d = f.resolve viewer v messages := by
  constructor
  · intro directs
    cases directs with
    | itself _ alsoFound _ =>
        cases found.symm.trans alsoFound
        rfl
    | inRepetition inTemplate => cases isDirect.symm.trans inTemplate
  · rintro rfl
    exact .itself isDirect found named

theorem directs_inRepetition_iff (inTemplate : place.descent.nested = some position)
    (groupFound : s.at? place.owner = some group)
    (isGroup : group.kind = .dynamic nested addButtonLabel)
    (groupNamed : group.name = some groupName) (atPosition : nested[position]? = some spec)
    (named : spec.field.name = some name)
    (bound : spec.field.isBound = true) :
    s.Directs viewer v messages place ((groupName.index index).join name) d ↔
      index < (Json.itemsOrEmpty (v.get? groupName)).length ∧
        d = spec.field.resolveAt viewer v messages (some ((groupName.index index).join name))
          (group.isLockedFor viewer || (index == 0 && spec.disableOnFirst)) := by
  have shownAt : ∀ other,
      (group.repetition viewer v messages nested groupName other).fields[position]? = some
        (spec.field.resolveAt viewer v messages (some ((groupName.index other).join name))
          (group.isLockedFor viewer || (other == 0 && spec.disableOnFirst))) := by
    intro other
    rw [Field.getElem?_repetition, atPosition, Option.map_some, named, Option.map_some]
  constructor
  · intro directs
    cases directs with
    | itself isDirect => cases isDirect.symm.trans inTemplate
    | inRepetition alsoInTemplate alsoFound body shown inRepetition atPath =>
        cases inTemplate.symm.trans alsoInTemplate
        cases groupFound.symm.trans alsoFound
        obtain ⟨_, _, other, alsoGroup, alsoNamed, stored, rfl⟩ :=
          Field.exists_of_mem_repetitions body shown
        cases isGroup.symm.trans alsoGroup
        cases groupNamed.symm.trans alsoNamed
        cases inRepetition.symm.trans (shownAt other)
        -- The path tells which repetition it is.
        rw [Field.path_resolveAt, if_pos bound, Option.some.injEq, Path.repetition_inj] at atPath
        subst atPath
        exact ⟨stored, rfl⟩
  · rintro ⟨stored, rfl⟩
    refine .inRepetition inTemplate groupFound (Field.resolve_body_of_group isGroup groupNamed)
      (List.mem_map.mpr ⟨index, List.mem_range.mpr stored, rfl⟩) (shownAt index) ?_
    rw [Field.path_resolveAt, if_pos bound]

/-! ## Toggles and nested fields in payloads -/

theorem NamesApart.get?_submission_toggle (apart : s.NamesApart) (checked : s.Checked)
    (isDirect : place.descent.nested = none) (found : s.at? place = some f)
    (isToggle : f.kind = .toggle) (named : f.name = some name)
    (held : (s.submission viewer v).get? name = some w) :
    w = .bool (Json.isTruthy (v.get? name)) := by
  have bound : f.isBound = true := Field.isBound_of_kind isToggle
  rcases apart.get?_submission checked isDirect found bound named viewer v with nothing | encoded
  · cases nothing.symm.trans held
  · rw [Field.encoding, isToggle] at encoded
    exact Option.some.inj (held.symm.trans encoded)

/-- In each template the names of different fields stand apart. -/
def TemplatesApart (s : Schema) : Prop :=
  ∀ place group nested addButtonLabel, place.descent.nested = none → s.at? place = some group →
    group.kind = .dynamic nested addButtonLabel → NestedField.NamesApart nested

/-- What a payload holds for a nested field is what is stored for it. -/
theorem TemplatesApart.get?_submission (templates : s.TemplatesApart) (apart : s.NamesApart)
    (checked : s.Checked) (isDirect : place.descent.nested = none)
    (groupFound : s.at? place = some group)
    (isGroup : group.kind = .dynamic nested addButtonLabel)
    (groupNamed : group.name = some groupName) (atPosition : nested[position]? = some spec)
    (named : spec.field.name = some name)
    (held : (s.submission viewer v).get? ((groupName.index index).join name) = some w) :
    index < (Json.itemsOrEmpty (v.get? groupName)).length ∧
      v.get? ((groupName.index index).join name) = some w := by
  have namesApart := templates place group nested addButtonLabel isDirect groupFound isGroup
  rcases apart.get?_submission_repetition checked isDirect groupFound isGroup groupNamed name viewer
      v with nothing | ⟨record, left, stored, stripped, same⟩
  · cases nothing.symm.trans held
  · rw [same] at held
    refine ⟨(List.getElem?_eq_some_iff.mp stored).1, ?_⟩
    rw [Values.get?_repetition, stored, Option.bind_some]
    rcases stripped.get?_cases name.segments with nothing | kept | ⟨⟨other, isLocked, above⟩, -⟩
    · cases nothing.symm.trans held
    · exact kept.symm.trans held
    · rcases namesApart.locked atPosition named isLocked with rfl | otherApart
      · have nothing := stripped.gone name isLocked []
        rw [List.append_nil] at nothing
        cases nothing.symm.trans held
      · exact absurd above (Path.startsWith_eq_false.mp otherApart.2)

end Schema

/-! ## Toggles -/

/-- If the names of all fields stand apart, what a payload holds for a toggle is the boolean that is
    shown, unless the toggle is nested. What it holds for a nested toggle is what is stored, and
    that is the boolean shown exactly if it is a boolean. -/
theorem Form.toggles_are_submitted_as_shown {template : Schema} (obtained : template.Obtainable)
    (paths : List AdminPath) (viewer : Viewer) (policy : ScopePolicy) (messages : Messages)
    (v : Values) (apart : (Form.build template paths viewer policy).schema.NamesApart)
    (templates : (Form.build template paths viewer policy).schema.TemplatesApart)
    {place : FieldPlace} {f : Field}
    (found : (Form.build template paths viewer policy).schema.at? place = some f)
    (isToggle : f.kind = .toggle) {p : Path}
    (binding : (Form.build template paths viewer policy).schema.Binding place p) {w : Json}
    (held : ((Form.build template paths viewer policy).submission v).get? p = some w) :
    ∃ d isOn,
      (∀ other, (Form.build template paths viewer policy).schema.Directs viewer v messages place p
        other ↔ other = d) ∧
      d.body = .toggle isOn ∧
      (place.descent.nested = none → w = .bool isOn) ∧
      (place.descent.nested.isSome = true →
        v.get? p = some w ∧ (w = .bool isOn ↔ ∃ b, w = .bool b)) := by
  have checked : (template.gate paths).Checked := (obtained.gated paths).checked
  cases binding with
  | itself isDirect alsoFound named =>
      cases found.symm.trans alsoFound
      refine ⟨_, _, fun other => Schema.directs_itself_iff isDirect found named,
        Field.body_resolveAt_of_toggle isToggle f.name false, fun _ => ?_, fun inTemplate => ?_⟩
      · rw [named]
        exact apart.get?_submission_toggle checked isDirect found isToggle named held
      · rw [isDirect] at inTemplate
        cases inTemplate
  | @inRepetition group _ groupName name position inTemplate groupFound groupNamed alsoFound named
      index =>
      cases found.symm.trans alsoFound
      rw [Schema.at?_inTemplate inTemplate, groupFound, Option.bind_some] at found
      obtain ⟨nested, addButtonLabel, spec, isGroup, atPosition, rfl⟩ :=
        Field.nestedAt?_eq_some found
      have bound : spec.field.isBound = true := Field.isBound_of_kind isToggle
      obtain ⟨stored, same⟩ := templates.get?_submission apart checked rfl groupFound isGroup
        groupNamed atPosition named held
      refine ⟨_, _, fun other => (Schema.directs_inRepetition_iff inTemplate groupFound isGroup
        groupNamed atPosition named bound).trans (and_iff_right stored),
        Field.body_resolveAt_of_toggle isToggle _ _, fun isDirect => ?_, fun _ => ⟨same, ?_⟩⟩
      · cases isDirect.symm.trans inTemplate
      · rw [Option.bind_some, same]
        exact Json.eq_bool_isTruthy_iff

/-- A toggle, and a group of steps with a toggle each. -/
def Schema.skippable : Schema :=
  ⟨"Skippable", "S", [⟨none, "a", [⟨some ⟨"a", [.key "on"]⟩, "on", none, false, .toggle⟩,
    ⟨some ⟨"a", [.key "steps"]⟩, "steps", none, false, .dynamic [⟨skip, false⟩] "Add"⟩]⟩]⟩
where
  skip : Field := ⟨some ⟨"skip", []⟩, "skip", none, false, .toggle⟩

/-- Values of a form that was switched on by a text, as was its first step; the second step was
    switched on by a boolean. -/
def Values.skipped : Values :=
  ⟨[("a", .object [("on", .text "yes"), ("steps", .array
    [.object [("skip", .text "yes")], .object [("skip", .bool true)]])])]⟩

theorem Schema.namesApart_skippable : skippable.NamesApart := by
  refine namesApart_of_list [(⟨0, 0, ⟨[], none⟩⟩, ⟨"a", [.key "on"]⟩),
    (⟨0, 1, ⟨[], none⟩⟩, ⟨"a", [.key "steps"]⟩)] ?_ (by decide)
  rintro ⟨sectionIndex, fieldIndex, options, nested⟩ f name isDirect found named
  cases isDirect
  match sectionIndex, fieldIndex, options with
  | 0, 0, [] | 0, 1, [] =>
      cases found
      cases named
      simp
  | 0, 0, _ :: _ | 0, 1, _ :: _ | 0, _ + 2, _ | _ + 1, _, _ => cases found

theorem Schema.templatesApart_skippable : skippable.TemplatesApart := by
  rintro ⟨sectionIndex, fieldIndex, options, nested⟩ group specs label isDirect found isGroup
  cases isDirect
  match sectionIndex, fieldIndex, options with
  | 0, 1, [] =>
      cases found
      cases isGroup
      intro i j a b name other differ atFirst atSecond
      have first := (List.getElem?_eq_some_iff.mp atFirst).1
      have second := (List.getElem?_eq_some_iff.mp atSecond).1
      simp only [List.length_cons, List.length_nil] at first second
      omega
  | 0, 0, [] =>
      cases found
      cases isGroup
  | 0, 0, _ :: _ | 0, 1, _ :: _ | 0, _ + 2, _ | _ + 1, _, _ => cases found

def Form.skippable : Form := .build .skippable [] ⟨true⟩ .wholeForm

/-- The text that switched the form on is submitted as a boolean, and the boolean of the second step
    is submitted as it is. -/
theorem Form.switches_are_submitted_as_shown :
    (∃ d, skippable.schema.Directs ⟨true⟩ .skipped .empty ⟨0, 0, ⟨[], none⟩⟩ ⟨"a", [.key "on"]⟩ d ∧
      ∃ isOn, d.body = .toggle isOn ∧
        (skippable.submission .skipped).get? ⟨"a", [.key "on"]⟩ = some (.bool isOn)) ∧
    ∃ d, skippable.schema.Directs ⟨true⟩ .skipped .empty ⟨0, 1, ⟨[], some 0⟩⟩
        ⟨"a", [.key "steps", .index 1, .key "skip"]⟩ d ∧
      ∃ isOn, d.body = .toggle isOn ∧ (skippable.submission .skipped).get?
        ⟨"a", [.key "steps", .index 1, .key "skip"]⟩ = some (.bool isOn) := by
  have accepted : Schema.build Schema.skippable.title Schema.skippable.backendKey
      Schema.skippable.sections = .ok .skippable := rfl
  constructor
  · have binding : skippable.schema.Binding ⟨0, 0, ⟨[], none⟩⟩ ⟨"a", [.key "on"]⟩ :=
      .itself rfl rfl rfl
    obtain ⟨d, isOn, directs, body, same, -⟩ := toggles_are_submitted_as_shown (.built accepted) []
      ⟨true⟩ .wholeForm .empty .skipped Schema.namesApart_skippable Schema.templatesApart_skippable
      rfl rfl binding (w := .bool true) rfl
    exact ⟨d, (directs d).mpr rfl, isOn, body, congrArg some (same rfl)⟩
  · have binding : skippable.schema.Binding ⟨0, 1, ⟨[], some 0⟩⟩
        (((⟨"a", [.key "steps"]⟩ : Path).index 1).join ⟨"skip", []⟩) :=
      .inRepetition rfl rfl rfl rfl rfl 1
    obtain ⟨d, isOn, directs, body, -, nested⟩ := toggles_are_submitted_as_shown (.built accepted)
      [] ⟨true⟩ .wholeForm .empty .skipped Schema.namesApart_skippable
      Schema.templatesApart_skippable rfl rfl binding (w := .bool true) rfl
    exact ⟨d, (directs d).mpr rfl, isOn, body, congrArg some ((nested rfl).2.mpr ⟨true, rfl⟩)⟩

/-- The first step is shown as switched on, but the text is submitted. -/
theorem Form.text_of_step_is_submitted :
    skippable.schema.NamesApart ∧ skippable.schema.TemplatesApart ∧
    ∃ d, skippable.schema.Directs ⟨true⟩ .skipped .empty ⟨0, 1, ⟨[], some 0⟩⟩
        ⟨"a", [.key "steps", .index 0, .key "skip"]⟩ d ∧
      d.body = .toggle true ∧ (skippable.submission .skipped).get?
        ⟨"a", [.key "steps", .index 0, .key "skip"]⟩ = some (.text "yes") := by
  refine ⟨Schema.namesApart_skippable, Schema.templatesApart_skippable,
    Schema.skippable.skip.resolveAt ⟨true⟩ .skipped .empty
      (some ⟨"a", [.key "steps", .index 0, .key "skip"]⟩) false, ?_, rfl, rfl⟩
  exact .inRepetition rfl rfl rfl List.mem_cons_self rfl rfl

end GatedForms

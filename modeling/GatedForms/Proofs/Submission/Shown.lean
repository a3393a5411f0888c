import GatedForms.Proofs.Submission.Exact

/-! # What is shown and what is submitted

A viewer sees the directive of every top-level field, and of a field that the selected option of a
radio shown so reveals. What can be edited there is submitted and what is locked is not, except that
a locked radio takes with it what it reveals, also where that can still be edited.
-/

namespace GatedForms

variable {viewer : Viewer} {v : Values} {messages : Messages}

/-! ## Shown directives -/

/-- What a payload holds at the path of a directive that shows this, if the viewer's edits get into
    the payload. -/
def DirectiveBody.SubmittedAs (v payload : Values) (p : Path) : DirectiveBody → Prop
  | .text _ _ _ => payload.get? p = some ((v.get? p).getD .null)
  | .radio _ _ _ => payload.get? p = some ((v.get? p).getD .null)
  | .checkbox _ _ _ => payload.get? p = some ((v.get? p).getD .null)
  | .toggle isOn => payload.get? p = some (.bool isOn)
  | .dynamic _ repetitions =>
      ∃ records, payload.get? p = some (.array records) ∧ records.length = repetitions.length
  | .button _ _ => False
  | .static _ => False

theorem NestedField.resolveAll_eq_map (viewer : Viewer) (v : Values) (messages : Messages)
    (base : Path) (locked isFirst : Bool) (nested : List NestedField) :
    resolveAll viewer v messages base locked isFirst nested = nested.map fun spec =>
      spec.field.resolveAt viewer v messages (spec.field.name.map base.join)
        (locked || (isFirst && spec.disableOnFirst)) := by
  induction nested with
  | nil => rfl
  | cons spec rest ih =>
      obtain ⟨f, disableOnFirst⟩ := spec
      rw [resolveAll, ih, List.map_cons]

namespace Field

theorem path_resolveAt (f : Field) (path : Option Path) (locked : Bool) :
    (f.resolveAt viewer v messages path locked).path = if f.isBound then path else none := by
  cases f
  rfl

theorem body_resolveAt (f : Field) (path : Option Path) (locked : Bool) :
    (f.resolveAt viewer v messages path locked).body =
      FieldKind.bodyAt viewer v messages path (f.isLockedFor viewer || locked) f.kind := by
  cases f
  rfl

theorem label_resolveAt (f : Field) (path : Option Path) (locked : Bool) :
    (f.resolveAt viewer v messages path locked).label = labelSlot f.label f.tooltip := by
  cases f
  rfl

theorem message_resolveAt (f : Field) (path : Option Path) (locked : Bool) :
    (f.resolveAt viewer v messages path locked).message =
      messageAt (f.isLockedFor viewer) messages path := by
  cases f
  rfl

theorem editable_resolveAt (f : Field) (path : Option Path) (locked : Bool) :
    (f.resolveAt viewer v messages path locked).editable =
      (!f.isLockedFor viewer && !locked && f.tag != .static) := by
  cases f
  rfl

theorem resolve_adminLocked (f : Field) :
    (f.resolve viewer v messages).adminLocked = f.isLockedFor viewer := by
  cases f
  rfl

theorem resolve_editable {f : Field} (bound : f.isBound = true) :
    (f.resolve viewer v messages).editable = !f.isLockedFor viewer := by
  obtain ⟨name, label, tooltip, adminOnly, kind⟩ := f
  have notStatic : (kind.tag != .static) = true := by
    cases kind with
    | text | radio | checkbox | toggle | dynamic => rfl
    | button | static => cases bound
  simp only [resolve, resolveAt, isLockedFor, notStatic, Bool.not_false, Bool.and_true]

theorem resolve_path {f : Field} (bound : f.isBound = true) :
    (f.resolve viewer v messages).path = f.name := by
  rw [resolve, path_resolveAt, if_pos bound]

theorem resolve_body (f : Field) :
    (f.resolve viewer v messages).body =
      FieldKind.bodyAt viewer v messages f.name (f.isLockedFor viewer) f.kind := by
  rw [resolve, body_resolveAt, Bool.or_false]

theorem resolve_body_of_radio {f : Field} {options : List FieldOption}
    (isRadio : f.kind = .radio options) :
    (f.resolve viewer v messages).body = .radio (options.map FieldOption.view)
      (FieldOption.selected? options ((f.name.bind v.get?).getD .null))
      ((FieldOption.select? options ((f.name.bind v.get?).getD .null)).bind
        FieldOption.reveals) := by
  rw [resolve_body, isRadio, FieldKind.bodyAt, FieldOption.select?_eq, Option.bind_assoc]

def repetition (viewer : Viewer) (v : Values) (messages : Messages) (f : Field)
    (nested : List NestedField) (group : Path) (index : Nat) : Repetition :=
  ⟨index, group.index index, nested.map fun spec => spec.field.resolveAt viewer v messages
    (spec.field.name.map (group.index index).join)
    (f.isLockedFor viewer || (index == 0 && spec.disableOnFirst))⟩

theorem getElem?_repetition (f : Field) (nested : List NestedField) (group : Path)
    (index position : Nat) :
    (f.repetition viewer v messages nested group index).fields[position]? =
      nested[position]?.map fun spec => spec.field.resolveAt viewer v messages
        (spec.field.name.map (group.index index).join)
        (f.isLockedFor viewer || (index == 0 && spec.disableOnFirst)) :=
  List.getElem?_map

theorem resolve_body_of_group {f : Field} {nested : List NestedField} {addButtonLabel : String}
    {group : Path} (isGroup : f.kind = .dynamic nested addButtonLabel)
    (named : f.name = some group) :
    (f.resolve viewer v messages).body = .dynamic addButtonLabel
      ((List.range (Json.itemsOrEmpty (v.get? group)).length).map
        (f.repetition viewer v messages nested group)) := by
  rw [resolve_body, isGroup, named, FieldKind.bodyAt]
  simp only [NestedField.resolveAll_eq_map]
  rfl

theorem exists_of_mem_repetitions {f : Field} {addButtonLabel : String}
    {repetitions : List Repetition} {repetition : Repetition}
    (body : (f.resolve viewer v messages).body = .dynamic addButtonLabel repetitions)
    (shown : repetition ∈ repetitions) :
    ∃ nested group index, f.kind = .dynamic nested addButtonLabel ∧ f.name = some group ∧
      index < (Json.itemsOrEmpty (v.get? group)).length ∧
      repetition = f.repetition viewer v messages nested group index := by
  cases isKind : f.kind with
  | dynamic nested label =>
      cases named : f.name with
      | none =>
          rw [resolve_body, isKind, named, FieldKind.bodyAt] at body
          cases body
          cases shown
      | some group =>
          rw [resolve_body_of_group isKind named] at body
          cases body
          obtain ⟨index, inside, rfl⟩ := List.mem_map.mp shown
          exact ⟨nested, group, index, rfl, rfl, List.mem_range.mp inside, rfl⟩
  | text | radio | checkbox | toggle | button | static =>
      rw [resolve_body, isKind] at body
      cases body

theorem exists_reveals_of_resolveRevealed? {f : Field} {d : Directive}
    (resolved : f.resolveRevealed? viewer v messages = some d) :
    ∃ position g, f.Reveals v position g ∧ d = g.resolve viewer v messages := by
  unfold resolveRevealed? at resolved
  split at resolved
  · next options isRadio =>
    obtain ⟨current, stored, resolved⟩ := Option.bind_eq_some_iff.mp resolved
    obtain ⟨option, chosen, resolved⟩ := Option.bind_eq_some_iff.mp resolved
    obtain ⟨g, reveals, resolved⟩ := Option.bind_eq_some_iff.mp resolved
    obtain ⟨name, named, stored⟩ := Option.bind_eq_some_iff.mp stored
    obtain ⟨position, selected, atPosition⟩ := FieldOption.select?_eq_some_iff.mp chosen
    cases resolved
    refine ⟨position, g, ⟨name, options, option, named, isRadio, ?_, atPosition, reveals⟩, rfl⟩
    rw [stored]
    exact selected
  · cases resolved

theorem reveals_of_resolveRevealed? {f g : Field} {d : Directive} {views : List OptionView}
    {position : Nat}
    (body : (f.resolve viewer v messages).body = .radio views (some position) (some g))
    (resolved : f.resolveRevealed? viewer v messages = some d) :
    f.Reveals v position g ∧ d = g.resolve viewer v messages := by
  obtain ⟨other, h, reveals, rfl⟩ := exists_reveals_of_resolveRevealed? resolved
  obtain ⟨name, options, option, named, isRadio, selected, atPosition, isRevealed⟩ := id reveals
  rw [resolve_body_of_radio isRadio, FieldOption.select?_eq, named, Option.bind_some, selected,
    Option.bind_some, atPosition, Option.bind_some, isRevealed] at body
  cases body
  exact ⟨reveals, rfl⟩

theorem submittedAs_of_get? {f : Field} {name : Path} {payload : Values}
    (bound : f.isBound = true) (named : f.name = some name)
    (held : payload.get? name = some (f.encoding viewer v name)) :
    (f.resolve viewer v messages).body.SubmittedAs v payload name := by
  rw [resolve_body, named]
  unfold encoding at held
  cases isKind : f.kind with
  | text | radio | checkbox | toggle =>
      rw [isKind] at held
      exact held
  | dynamic nested addButtonLabel =>
      rw [isKind] at held
      refine ⟨_, held, ?_⟩
      rw [List.length_map, List.length_map, List.length_range]
  | button | static =>
      simp only [isBound, tag, isKind] at bound
      cases bound

end Field

namespace Schema

variable {s : Schema}

/-- A directive is shown for the field at a place. With it comes whether the viewer is kept from
    editing some radio above it. -/
inductive Shows (s : Schema) (viewer : Viewer) (v : Values) (messages : Messages) :
    FieldPlace → Bool → Field → Directive → Prop where
  | top {sectionIndex fieldIndex : Nat} {part : FormSection} {f : Field}
      (atSection : s.sections[sectionIndex]? = some part)
      (atField : part.fields[fieldIndex]? = some f) :
      Shows s viewer v messages ⟨sectionIndex, fieldIndex, ⟨[], none⟩⟩ false f
        (f.resolve viewer v messages)
  /-- The directive of a radio names the field that is revealed, which is resolved in its turn. -/
  | revealed {sectionIndex fieldIndex : Nat} {options : List Nat} {underLocked : Bool} {f g : Field}
      {d revealed : Directive} {views : List OptionView} {position : Nat}
      (above : Shows s viewer v messages ⟨sectionIndex, fieldIndex, ⟨options, none⟩⟩
        underLocked f d)
      (body : d.body = .radio views (some position) (some g))
      (resolved : f.resolveRevealed? viewer v messages = some revealed) :
      Shows s viewer v messages ⟨sectionIndex, fieldIndex, ⟨options ++ [position], none⟩⟩
        (underLocked || d.adminLocked) g revealed

/-- What is revealed below a live field's place is live only if the field there is. -/
theorem Live.above {sectionIndex fieldIndex : Nat} {options : List Nat} {position : Nat} {g : Field}
    {name : Path}
    (live : s.Live viewer v ⟨sectionIndex, fieldIndex, ⟨options ++ [position], none⟩⟩ g name) :
    ∃ f own, s.Live viewer v ⟨sectionIndex, fieldIndex, ⟨options, none⟩⟩ f own := by
  generalize placed : (⟨sectionIndex, fieldIndex, ⟨options ++ [position], none⟩⟩ : FieldPlace) =
    place at live
  cases live with
  | top => simp at placed
  | revealed above reveals submits =>
      simp only [FieldPlace.mk.injEq, Descent.mk.injEq, and_true] at placed
      obtain ⟨rfl, rfl, sameOptions⟩ := placed
      obtain ⟨rfl, -⟩ := List.append_inj' sameOptions rfl
      exact ⟨_, _, above⟩

namespace Shows

variable {place : FieldPlace} {underLocked : Bool} {f : Field} {d : Directive}

theorem resolved (shown : s.Shows viewer v messages place underLocked f d) :
    d = f.resolve viewer v messages := by
  induction shown with
  | top => rfl
  | revealed above body resolved ih =>
      subst ih
      exact (Field.reveals_of_resolveRevealed? body resolved).2

theorem at? (shown : s.Shows viewer v messages place underLocked f d) :
    place.descent.nested = none ∧ s.at? place = some f := by
  induction shown with
  | top atSection atField =>
      refine ⟨rfl, ?_⟩
      simp only [Schema.at?, atSection, atField, Option.bind_some]
      rfl
  | revealed above body resolved ih =>
      cases above.resolved
      obtain ⟨⟨_, _, _, _, isRadio, _, atPosition, isRevealed⟩, -⟩ :=
        Field.reveals_of_resolveRevealed? body resolved
      refine ⟨rfl, ?_⟩
      rw [at?_append, ih.2, Option.bind_some,
        Field.revealed?_cons_of_reveals isRadio atPosition isRevealed]
      rfl

/-- Below unlocked radios a field that the viewer may edit is live. -/
theorem live (shown : s.Shows viewer v messages place underLocked f d)
    (unlocked : underLocked = false) {name : Path} (submits : f.Submits viewer name) :
    s.Live viewer v place f name := by
  induction shown generalizing name with
  | top atSection atField => exact .top atSection atField submits
  | @revealed _ _ _ underLocked f g d _ _ position above body resolved ih =>
      obtain ⟨aboveUnlocked, notLocked⟩ := Bool.or_eq_false_iff.mp unlocked
      cases above.resolved
      have reveals := (Field.reveals_of_resolveRevealed? body resolved).1
      obtain ⟨own, options, option, named, isRadio, -⟩ := id reveals
      have bound : f.isBound = true := Field.isBound_of_kind isRadio
      rw [Field.resolve_adminLocked] at notLocked
      exact .revealed (ih aboveUnlocked ⟨named, bound, notLocked⟩) reveals submits

theorem not_underLocked (shown : s.Shows viewer v messages place underLocked f d) {g : Field}
    {name : Path} (live : s.Live viewer v place g name) : underLocked = false := by
  induction shown generalizing g name with
  | top => rfl
  | revealed above body resolved ih =>
      obtain ⟨f', own, liveAbove⟩ := live.above
      cases above.at?.2.symm.trans liveAbove.at?
      rw [above.resolved, Field.resolve_adminLocked, liveAbove.submits.unlocked, ih liveAbove]
      rfl

end Shows

theorem Checked.name_of_bound (checked : s.Checked) {place : FieldPlace} {f : Field}
    (isDirect : place.descent.nested = none) (found : s.at? place = some f)
    (bound : f.isBound = true) : ∃ name, f.name = some name := by
  obtain ⟨sectionKey, fieldChecked⟩ := checked.at? isDirect found
  have named := Field.checkBound_eq_ok.mp (Field.check_eq_ok.mp fieldChecked).2.2
  cases isName : f.name with
  | none => simp [bound, isName] at named
  | some name => exact ⟨name, rfl⟩

theorem NamesApart.get?_submission_eq_none (apart : s.NamesApart) (checked : s.Checked)
    {place : FieldPlace} {f : Field} {name : Path} (isDirect : place.descent.nested = none)
    (found : s.at? place = some f) (bound : f.isBound = true) (named : f.name = some name)
    (notLive : ¬ s.Live viewer v place f name) : (s.submission viewer v).get? name = none := by
  refine checked.get?_submission_eq_none fun other g otherName live => ?_
  have elsewhere : other ≠ place := by
    rintro rfl
    cases live.at?.symm.trans found
    cases live.submits.named.symm.trans named
    exact notLive live
  exact apart other place g f otherName name elsewhere live.exists_top.1 isDirect live.at? found
    live.submits.bound bound live.submits.named named

/-- At the name of a field the payload holds what the field encodes, or nothing. -/
theorem NamesApart.get?_submission (apart : s.NamesApart) (checked : s.Checked)
    {place : FieldPlace} {f : Field} {name : Path} (isDirect : place.descent.nested = none)
    (found : s.at? place = some f) (bound : f.isBound = true) (named : f.name = some name)
    (viewer : Viewer) (v : Values) :
    (s.submission viewer v).get? name = none ∨
      (s.submission viewer v).get? name = some (f.encoding viewer v name) := by
  by_cases live : s.Live viewer v place f name
  · exact .inr (checked.get?_submission (apart.liveApart viewer v) live)
  · exact .inl (apart.get?_submission_eq_none checked isDirect found bound named live)

/-- In a repetition the payload holds what the stored record holds there, unless it is locked; or
    nothing, if the group is not submitted. -/
theorem NamesApart.get?_submission_repetition (apart : s.NamesApart) (checked : s.Checked)
    {place : FieldPlace} {f : Field} (isDirect : place.descent.nested = none)
    (found : s.at? place = some f) {nested : List NestedField} {addButtonLabel : String}
    (isGroup : f.kind = .dynamic nested addButtonLabel) {group : Path} {position : Nat}
    (named : f.name = some group) (name : Path) (viewer : Viewer) (v : Values) :
    (s.submission viewer v).get? ((group.index position).join name) = none ∨
      ∃ record left, (Json.itemsOrEmpty (v.get? group))[position]? = some record ∧
        Json.Stripped (NestedField.lockedNames viewer nested) record left ∧
        (s.submission viewer v).get? ((group.index position).join name) =
          left.get? name.segments := by
  have bound : f.isBound = true := Field.isBound_of_kind isGroup
  obtain ⟨sectionKey, groupChecked⟩ := checked.at? isDirect found
  rw [Values.get?_repetition]
  rcases apart.get?_submission checked isDirect found bound named viewer v with nothing | held
  · rw [nothing]
    exact .inl rfl
  · have records : Json.itemsOrEmpty ((s.submission viewer v).get? group) =
        (Json.itemsOrEmpty (v.get? group)).map
          (Json.strip (NestedField.lockedNames viewer nested)) := by
      simp only [held, Field.encoding, isGroup]
      rfl
    rw [records, List.getElem?_map]
    cases stored : (Json.itemsOrEmpty (v.get? group))[position]? with
    | none => exact .inl rfl
    | some record =>
        have keyOnly : ∀ path ∈ NestedField.lockedNames viewer nested, path.isKeyOnly = true :=
          Field.isKeyOnly_of_mem_lockedNames groupChecked isGroup
        exact .inr ⟨record, _, rfl, Json.stripped_strip keyOnly record, rfl⟩

end Schema

/-! ## Edits and payloads -/

/-- If the names of all fields stand apart, a payload holds what a viewer can edit, unless the
    viewer is kept from editing a radio above it. It holds nothing of what the viewer cannot edit,
    nor of what stands below such a radio. -/
theorem Form.edits_are_submitted {template : Schema} (obtained : template.Obtainable)
    (paths : List AdminPath) (viewer : Viewer) (policy : ScopePolicy) (messages : Messages)
    (v : Values) (apart : (Form.build template paths viewer policy).schema.NamesApart)
    {place : FieldPlace} {underLocked : Bool} {f : Field} {d : Directive}
    (shown : (Form.build template paths viewer policy).schema.Shows viewer v messages place
      underLocked f d) (bound : f.isBound = true) :
    ∃ p, d.path = some p ∧
      (underLocked = false → d.editable = true →
        d.body.SubmittedAs v ((Form.build template paths viewer policy).submission v) p) ∧
      (d.adminLocked = true →
        ((Form.build template paths viewer policy).submission v).get? p = none) ∧
      (underLocked = true →
        ((Form.build template paths viewer policy).submission v).get? p = none) := by
  have checked : (template.gate paths).Checked := (obtained.gated paths).checked
  obtain ⟨isDirect, found⟩ := shown.at?
  obtain ⟨name, named⟩ := checked.name_of_bound isDirect found bound
  have nothing : ¬ (template.gate paths).Live viewer v place f name →
      ((template.gate paths).submission viewer v).get? name = none :=
    apart.get?_submission_eq_none checked isDirect found bound named
  cases shown.resolved
  rw [Field.resolve_path bound, Field.resolve_editable bound, Field.resolve_adminLocked]
  refine ⟨name, named, ?_, ?_, ?_⟩
  · intro aboveUnlocked unlocked
    have submits : f.Submits viewer name := ⟨named, bound, by simpa using unlocked⟩
    have live := shown.live aboveUnlocked submits
    exact Field.submittedAs_of_get? bound named
      (checked.get?_submission (apart.liveApart viewer v) live)
  · intro locked
    exact nothing fun live => absurd (locked.symm.trans live.submits.unlocked) nofun
  · intro underLocked
    exact nothing fun live => absurd (underLocked.symm.trans (shown.not_underLocked live)) nofun

/-- Only privileged viewers may edit the gaps of steps. -/
def Form.gapLocked : Form := .build .paced [⟨["S", "a", "gap"]⟩] ⟨false⟩ .wholeForm

/-- Only privileged viewers may switch the form on and off. -/
def Form.modeLocked : Form := .build .paced [⟨["S", "a", "mode"]⟩] ⟨false⟩ .wholeForm

/-- The rate, revealed by a radio that can be edited, is submitted; a locked radio is not. -/
theorem Form.edits_are_submitted_paced :
    (gapLocked.submission .paced).get? ⟨"a", [.key "rate"]⟩ = some (.int 5) ∧
    (modeLocked.submission .paced).get? ⟨"a", [.key "mode"]⟩ = none := by
  have accepted : Schema.build Schema.paced.title Schema.paced.backendKey Schema.paced.sections =
      .ok .paced := rfl
  constructor
  · have mode : gapLocked.schema.Shows gapLocked.viewer .paced .empty ⟨0, 0, ⟨[], none⟩⟩
        false _ _ := .top rfl rfl
    obtain ⟨p, isPath, edited, -, -⟩ := edits_are_submitted (.built accepted) _ _ .wholeForm _ _
      (Schema.namesApart_paced.gate _) (mode.revealed rfl rfl) rfl
    cases isPath
    exact edited rfl rfl
  · have mode : modeLocked.schema.Shows modeLocked.viewer .paced .empty ⟨0, 0, ⟨[], none⟩⟩
        false _ _ := .top rfl rfl
    obtain ⟨p, isPath, -, locked, -⟩ := edits_are_submitted (.built accepted) _ _ .wholeForm _ _
      (Schema.namesApart_paced.gate _) mode rfl
    cases isPath
    exact locked rfl

/-- The rate can be edited while only privileged viewers may switch the form, but is dropped. -/
theorem Form.editable_rate_is_dropped :
    modeLocked.schema.NamesApart ∧
    ∃ d, modeLocked.schema.Shows modeLocked.viewer .paced .empty ⟨0, 0, ⟨[0], none⟩⟩ true
        Schema.paced.rate d ∧
      d.editable = true ∧ d.adminLocked = false ∧ d.path = some ⟨"a", [.key "rate"]⟩ ∧
      Values.paced.get? ⟨"a", [.key "rate"]⟩ = some (.int 5) ∧
      (modeLocked.submission .paced).get? ⟨"a", [.key "rate"]⟩ = none := by
  have mode : modeLocked.schema.Shows modeLocked.viewer .paced .empty ⟨0, 0, ⟨[], none⟩⟩
      false _ _ := .top rfl rfl
  exact ⟨Schema.namesApart_paced.gate _, Schema.paced.rate.resolve ⟨false⟩ .paced .empty,
    mode.revealed rfl rfl, rfl, rfl, rfl, rfl, rfl⟩

end GatedForms

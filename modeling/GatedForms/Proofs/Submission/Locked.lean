import GatedForms.Form
import GatedForms.Proofs.Schema.Checked
import GatedForms.Proofs.Values.Strip

/-! # Locked values are not submitted

A payload depends on what stands at the names of the fields that the viewer may edit, and on the
records of groups without their locked values. So a restricted viewer submits the same whatever is
written over a value that only a privileged viewer may edit.
-/

namespace GatedForms

/-! ## What a payload depends on -/

section Reads

variable {viewer : Viewer} {v v' : Values}

/-- Both trees hold the same for a field of this name, or the same but for locked nested values. -/
def Field.HoldsSame (viewer : Viewer) (v v' : Values) (f : Field) (name : Path) : Prop :=
  v.get? name = v'.get? name ∨ ∃ nested addButtonLabel, f.kind = .dynamic nested addButtonLabel ∧
    (Json.itemsOrEmpty (v.get? name)).map (Json.strip (NestedField.lockedNames viewer nested)) =
      (Json.itemsOrEmpty (v'.get? name)).map (Json.strip (NestedField.lockedNames viewer nested))

/-- Both trees hold the same for all fields in a field that the viewer may edit, itself included. -/
def Field.ReadsSame (viewer : Viewer) (v v' : Values) (f : Field) : Prop :=
  ∀ options g name, f.revealed? options = some g → g.isLockedFor viewer = false →
    g.isBound = true → g.name = some name → g.HoldsSame viewer v v' name

theorem Field.ReadsSame.revealed {f g : Field} (same : f.ReadsSame viewer v v')
    {options : List FieldOption} {option : FieldOption} (isRadio : f.kind = .radio options)
    (member : option ∈ options) (reveals : option.reveals = some g) :
    g.ReadsSame viewer v v' := by
  obtain ⟨position, atPosition⟩ := List.mem_iff_getElem?.mp member
  intro further h name found
  refine same (position :: further) h name ?_
  simpa [revealed?, isRadio, atPosition, reveals] using found

theorem FieldOption.revealedEntries_cons (current : Json) (option : FieldOption)
    (rest : List FieldOption) :
    revealedEntries viewer v current (option :: rest) =
      if option.value.same current then
        (option.reveals.map (Field.entries viewer v)).getD []
      else revealedEntries viewer v current rest := by
  obtain ⟨label, value, reveals⟩ := option
  cases reveals with
  | none | some f => rfl

mutual

/-- What a field adds to a payload depends on nothing else. -/
theorem Field.entries_congr (f : Field) (same : f.ReadsSame viewer v v') :
    f.entries viewer v = f.entries viewer v' := by
  match f with
  | ⟨none, _, _, _, _⟩ => rfl
  | ⟨some name, label, tooltip, adminOnly, kind⟩ =>
      simp only [Field.entries]
      split
      · rfl
      · next unlocked =>
        have own : kind.tag.isBound = true →
            Field.HoldsSame viewer v v' ⟨some name, label, tooltip, adminOnly, kind⟩ name :=
          fun bound => same [] _ name rfl ((Bool.not_eq_true _).mp unlocked) bound rfl
        cases kind with
        | radio options =>
            rcases own rfl with held | ⟨_, _, isGroup, _⟩
            · simp only [FieldKind.entries, held]
              rw [FieldOption.revealedEntries_congr options _ fun option member g reveals =>
                same.revealed rfl member reveals]
            · cases isGroup
        | dynamic nested addButtonLabel =>
            simp only [FieldKind.entries]
            rcases own rfl with held | ⟨_, _, isGroup, stripped⟩
            · rw [held]
            · cases isGroup
              rw [stripped]
        | text | checkbox | toggle =>
            rcases own rfl with held | ⟨_, _, isGroup, _⟩
            · simp only [FieldKind.entries, held]
            · cases isGroup
        | button | static => rfl
termination_by sizeOf f

theorem FieldOption.revealedEntries_congr (options : List FieldOption) (current : Json)
    (same : ∀ option ∈ options, ∀ f, option.reveals = some f → f.ReadsSame viewer v v') :
    FieldOption.revealedEntries viewer v current options =
      FieldOption.revealedEntries viewer v' current options := by
  match options with
  | [] => rfl
  | ⟨label, value, reveals⟩ :: rest =>
      obtain ⟨first, others⟩ := List.forall_mem_cons.mp same
      rw [FieldOption.revealedEntries_cons, FieldOption.revealedEntries_cons,
        FieldOption.revealedEntries_congr rest current others]
      match reveals with
      | none => rfl
      | some f => rw [Option.map_some, Option.map_some, f.entries_congr (first f rfl)]
termination_by sizeOf options

end

theorem Schema.submission_congr {s : Schema}
    (same : ∀ place f name, place.descent.nested = none → s.at? place = some f →
      f.isLockedFor viewer = false → f.isBound = true → f.name = some name →
      f.HoldsSame viewer v v' name) :
    s.submission viewer v = s.submission viewer v' := by
  have entries : s.entries viewer v = s.entries viewer v' := by
    simp only [entries, List.flatMap_def]
    refine congrArg List.flatten (List.map_congr_left fun f member => f.entries_congr ?_)
    obtain ⟨part, inSchema, inSection⟩ := List.mem_flatMap.mp member
    obtain ⟨sectionIndex, atSection⟩ := List.mem_iff_getElem?.mp inSchema
    obtain ⟨fieldIndex, atField⟩ := List.mem_iff_getElem?.mp inSection
    intro options g name found
    refine same ⟨sectionIndex, fieldIndex, ⟨options, none⟩⟩ g name rfl ?_
    simpa [at?, atSection, atField, Field.at?] using found
  rw [submission, submission, entries]

end Reads

/-! ## Where fields are bound -/

namespace Schema

/-- A path at which the field of a place is bound. In a template there is one per repetition. -/
inductive Binding (s : Schema) : FieldPlace → Path → Prop where
  | itself {place : FieldPlace} {f : Field} {name : Path} (isDirect : place.descent.nested = none)
      (found : s.at? place = some f) (named : f.name = some name) : Binding s place name
  | inRepetition {place : FieldPlace} {group f : Field} {groupName name : Path} {position : Nat}
      (inTemplate : place.descent.nested = some position)
      (groupFound : s.at? place.owner = some group) (groupNamed : group.name = some groupName)
      (found : s.at? place = some f) (named : f.name = some name) (repetition : Nat) :
      Binding s place ((groupName.index repetition).join name)

/-- The name of a field, or of its group, is apart from the names of all other bound fields. -/
def StandsApart (s : Schema) (place : FieldPlace) : Prop :=
  ∀ own, (s.at? place.owner).bind Field.name = some own →
    ∀ other f name, other.descent.nested = none → other ≠ place.owner → s.at? other = some f →
      f.isBound = true → f.name = some name → own.Apart name

theorem Binding.starts {s : Schema} {place : FieldPlace} {p : Path} (binding : s.Binding place p) :
    ∃ own, (s.at? place.owner).bind Field.name = some own ∧ own.segments <+: p.segments := by
  cases binding with
  | itself isDirect found named =>
      refine ⟨p, ?_, List.prefix_refl _⟩
      rw [FieldPlace.owner_of_direct isDirect, found]
      exact named
  | inRepetition inTemplate groupFound groupNamed found named repetition =>
      refine ⟨_, by rw [groupFound]; exact groupNamed, ?_⟩
      rw [Path.segments_repetition]
      exact List.prefix_append _ _

end Schema

/-! ## Locked values -/

theorem Values.get?_set_of_apart {v : Values} {p name : Path} (present : (v.get? p).isSome)
    (apart : p.Apart name) (w : Json) : (v.set p w).get? name = v.get? name := by
  rw [get?_eq, get?_eq, toJson_set]
  exact Json.get?_write_of_apart present (Path.startsWith_eq_false.mp apart.2)
    (Path.startsWith_eq_false.mp apart.1)

theorem NestedField.mem_lockedNames {viewer : Viewer} {nested : List NestedField} {name : Path} :
    name ∈ lockedNames viewer nested ↔
      ∃ spec ∈ nested, spec.field.isLockedFor viewer = true ∧ spec.field.name = some name := by
  simp [lockedNames, List.mem_filterMap]

theorem Field.isKeyOnly_of_mem_lockedNames {viewer : Viewer} {f : Field} {sectionKey : String}
    {nested : List NestedField} {addButtonLabel : String} (checked : f.check sectionKey = .ok ())
    (isGroup : f.kind = .dynamic nested addButtonLabel) :
    ∀ name ∈ NestedField.lockedNames viewer nested, name.isKeyOnly = true := by
  intro name isLocked
  obtain ⟨spec, inNested, -, named⟩ := NestedField.mem_lockedNames.mp isLocked
  exact isKeyOnly_of_check (check_nested checked isGroup inNested) named

namespace Schema

variable {s : Schema} {place : FieldPlace}

/-- Where a locked field of a template is bound, the group holds the same but for locked values. -/
theorem Checked.holdsSame_of_locked (checked : s.Checked) {viewer : Viewer} {v : OrderedValues}
    {group f : Field} {groupName name : Path} {position : Nat}
    (inTemplate : place.descent.nested = some position)
    (groupFound : s.at? place.owner = some group) (found : s.at? place = some f)
    (named : f.name = some name)
    (locked : f.isLockedFor viewer = true) {repetition : Nat}
    (present : (v.get? ((groupName.index repetition).join name)).isSome) (w : Json) :
    group.HoldsSame viewer (v.toValues.set ((groupName.index repetition).join name) w) v.toValues
      groupName := by
  rw [at?_inTemplate inTemplate, groupFound] at found
  obtain ⟨nested, addButtonLabel, spec, isGroup, atPosition, rfl⟩ :=
    Field.nestedAt?_eq_some found
  obtain ⟨sectionKey, groupChecked⟩ := checked.at? rfl groupFound
  refine .inr ⟨nested, addButtonLabel, isGroup, ?_⟩
  rw [Values.get?_eq, Path.segments_repetition] at present
  rw [Values.get?_eq, Values.get?_eq, Values.toJson_set, Path.segments_repetition]
  have isLocked : name ∈ NestedField.lockedNames viewer nested :=
    NestedField.mem_lockedNames.mpr ⟨spec, List.mem_of_getElem? atPosition, locked, named⟩
  exact Json.map_strip_write (Field.isKeyOnly_of_mem_lockedNames groupChecked isGroup) isLocked
    v.ordered present w

end Schema

/-- A restricted viewer submits the same whatever is written over a value of an admin-only field
    whose name stands apart. -/
theorem Form.submission_set_locked {template : Schema} (obtained : template.Obtainable)
    (paths : List AdminPath) {viewer : Viewer} (restricted : viewer.isPrivileged = false)
    (policy : ScopePolicy) {v : OrderedValues} {place : FieldPlace} {f : Field}
    (found : (Form.build template paths viewer policy).schema.at? place = some f)
    (adminOnly : f.adminOnly = true) {p : Path}
    (binding : (Form.build template paths viewer policy).schema.Binding place p)
    (present : (v.get? p).isSome)
    (apart : (Form.build template paths viewer policy).schema.StandsApart place) (w : Json) :
    (Form.build template paths viewer policy).submission (v.toValues.set p w) =
      (Form.build template paths viewer policy).submission v.toValues := by
  have checked : (template.gate paths).Checked := (obtained.gated paths).checked
  have locked : f.isLockedFor viewer = true := by simp [Field.isLockedFor, adminOnly, restricted]
  refine Schema.submission_congr fun other g name isDirect foundOther unlocked bound named => ?_
  by_cases same : other = place.owner
  · -- A locked field is not read at all, and a group is read without what is locked in it.
    subst same
    cases binding with
    | itself placeIsDirect foundAgain namedOwn =>
        rw [FieldPlace.owner_of_direct placeIsDirect] at foundOther
        cases found.symm.trans foundOther
        exact absurd (locked.symm.trans unlocked) nofun
    | inRepetition inTemplate groupFound groupNamed foundAgain namedOwn repetition =>
        cases foundOther.symm.trans groupFound
        cases found.symm.trans foundAgain
        cases groupNamed.symm.trans named
        exact checked.holdsSame_of_locked inTemplate groupFound found namedOwn locked present w
  · obtain ⟨own, ownNamed, starts⟩ := binding.starts
    have apartOwn := apart own ownNamed other g name isDirect same foundOther bound named
    exact .inl (Values.get?_set_of_apart present (apartOwn.of_prefix starts) w)

/-- A group of steps with a gap and a memo each, beside a note. -/
def Schema.guarded : Schema :=
  ⟨"Guarded", "S", [⟨none, "a", [bound "steps" (.dynamic [nested "gap", nested "memo"] "Add"),
    bound "note" (.text .plain none)]⟩]⟩
where
  bound (name : String) (kind : FieldKind) : Field := ⟨some ⟨name, []⟩, name, none, false, kind⟩
  nested (name : String) : NestedField := ⟨bound name (.text .plain none), false⟩

/-- The gaps are for privileged viewers only. -/
def Form.guarded : Form := .build .guarded [⟨["S", "a", "gap"]⟩] ⟨false⟩ .wholeForm

def OrderedValues.guarded : OrderedValues :=
  ((empty.set ⟨"note", []⟩ (.text "n")).set ⟨"steps", [.index 0, .key "memo"]⟩ (.text "m")).set
    ⟨"steps", [.index 0, .key "gap"]⟩ (.int 1)

theorem Form.standsApart_steps : guarded.schema.StandsApart ⟨0, 0, ⟨[], some 0⟩⟩ := by
  intro own ownNamed other f name isDirect differ found bound named
  obtain ⟨sectionIndex, fieldIndex, options, nested⟩ := other
  cases isDirect
  cases ownNamed
  match sectionIndex, fieldIndex, options with
  | 0, 0, [] => exact absurd rfl differ
  | 0, 0, _ :: _ => cases found
  | 0, 1, [] =>
      cases found
      cases named
      exact ⟨rfl, rfl⟩
  | 0, 1, _ :: _ => cases found
  | 0, _ + 2, _ => cases found
  | _ + 1, _, _ => cases found

/-- A restricted viewer submits the same when the gap is another. -/
theorem Form.submission_set_gap :
    let values := OrderedValues.guarded.toValues
    values.get? ⟨"steps", [.index 0, .key "gap"]⟩ = some (.int 1) ∧
    guarded.submission (values.set ⟨"steps", [.index 0, .key "gap"]⟩ (.int 9)) =
      guarded.submission values := by
  intro values
  have accepted : Schema.build Schema.guarded.title Schema.guarded.backendKey
      Schema.guarded.sections = .ok .guarded := rfl
  have found : guarded.schema.at? ⟨0, 0, ⟨[], some 0⟩⟩ =
      some { (Schema.guarded.nested "gap").field with adminOnly := true } := rfl
  have binding : guarded.schema.Binding ⟨0, 0, ⟨[], some 0⟩⟩
      (((⟨"steps", []⟩ : Path).index 0).join ⟨"gap", []⟩) := .inRepetition rfl rfl rfl found rfl 0
  exact ⟨rfl, submission_set_locked (.built accepted) _ rfl _ (v := .guarded) found rfl binding rfl
    standsApart_steps (.int 9)⟩

end GatedForms

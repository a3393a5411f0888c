import GatedForms.Proofs.Gating.Marks
import GatedForms.Proofs.Places

/-! # What gating leaves alone

Gating sets marks and changes nothing else. It sets the mark of a field only if a path covers the
field, and a section in which it sets no mark is used as it is. This holds of every field in a
schema, also of those that gating never looks at.
-/

namespace GatedForms

/-! ## Schemas without their marks -/

mutual

/-- The field without the admin-only marks in it, however deep. -/
def Field.unmarked : Field → Field
  | ⟨name, label, tooltip, _, kind⟩ => ⟨name, label, tooltip, false, kind.unmarked⟩

def FieldKind.unmarked : FieldKind → FieldKind
  | .text input placeholder => .text input placeholder
  | .radio options => .radio (FieldOption.unmarkedAll options)
  | .checkbox none => .checkbox none
  | .checkbox (some options) => .checkbox (some (FieldOption.unmarkedAll options))
  | .toggle => .toggle
  | .dynamic nested addButtonLabel => .dynamic (NestedField.unmarkedAll nested) addButtonLabel
  | .button action id => .button action id
  | .static content => .static content

def FieldOption.unmarkedAll : List FieldOption → List FieldOption
  | [] => []
  | ⟨label, value, none⟩ :: rest => ⟨label, value, none⟩ :: FieldOption.unmarkedAll rest
  | ⟨label, value, some f⟩ :: rest =>
      ⟨label, value, some f.unmarked⟩ :: FieldOption.unmarkedAll rest

def NestedField.unmarkedAll : List NestedField → List NestedField
  | [] => []
  | ⟨f, disableOnFirst⟩ :: rest => ⟨f.unmarked, disableOnFirst⟩ :: NestedField.unmarkedAll rest

end

def Schema.unmarked (s : Schema) : Schema :=
  { s with sections := s.sections.map fun part =>
      { part with fields := part.fields.map Field.unmarked } }

section

variable {paths : List AdminPath} {owner : List String}

@[simp]
theorem Field.unmarked_mark (isNested : Bool) (f : Field) :
    (f.mark paths owner isNested).unmarked = f.unmarked := by
  rw [mark_eq]
  cases f
  rfl

theorem FieldOption.unmarkedAll_mark (options : List FieldOption) :
    unmarkedAll (options.map fun option =>
      { option with reveals := option.reveals.map fun g => g.mark paths owner false }) =
        unmarkedAll options := by
  induction options with
  | nil => rfl
  | cons option rest ih =>
      obtain ⟨label, value, reveals⟩ := option
      cases reveals with
      | none => simp only [List.map_cons, Option.map_none, unmarkedAll, ih]
      | some g => simp only [List.map_cons, Option.map_some, unmarkedAll, Field.unmarked_mark, ih]

theorem NestedField.unmarkedAll_mark (nested : List NestedField) :
    unmarkedAll (nested.map fun spec => { spec with field := spec.field.mark paths owner true }) =
      unmarkedAll nested := by
  induction nested with
  | nil => rfl
  | cons spec rest ih =>
      obtain ⟨f, disableOnFirst⟩ := spec
      simp only [List.map_cons, unmarkedAll, Field.unmarked_mark, ih]

theorem Field.unmarked_gatedKind (kind : FieldKind) :
    (gatedKind paths owner kind).unmarked = kind.unmarked := by
  cases kind with
  | radio options => simp only [gatedKind, FieldKind.unmarked, FieldOption.unmarkedAll_mark]
  | dynamic nested addButtonLabel =>
      simp only [gatedKind, FieldKind.unmarked, NestedField.unmarkedAll_mark]
  | text | checkbox | toggle | button | static => rfl

theorem Field.unmarked_gate (f : Field) : (f.gate paths owner).unmarked = f.unmarked := by
  rw [gate_eq, mark_eq]
  cases f
  simp only [unmarked, unmarked_gatedKind]

theorem Schema.unmarked_gate (s : Schema) : (s.gate paths).unmarked = s.unmarked := by
  have sections : (s.gate paths).sections = _ := s.sections_gate paths
  simp only [unmarked, sections, List.map_map, Function.comp_def, Field.unmarked_gate]
  rfl

end

/-! ## All fields in a schema -/

/-- One step from a field to a field in it. -/
inductive PartStep where
  /-- To what an option of a radio or a checkbox reveals. -/
  | option (position : Nat)
  /-- Into the template of a group. -/
  | nested (position : Nat)
  deriving Repr, DecidableEq, BEq

/-- The place of any field in a schema. Unlike a `FieldPlace` it goes on below the fields of a
    template, and below the options of a checkbox. -/
structure PartPlace where
  sectionIndex : Nat
  fieldIndex : Nat
  steps : List PartStep
  deriving Repr, DecidableEq, BEq

namespace Field

def step? (f : Field) : PartStep → Option Field
  | .option position => f.options?.bind fun options => options[position]?.bind FieldOption.reveals
  | .nested position => f.nestedAt? position

def part? : List PartStep → Field → Option Field
  | [], f => some f
  | step :: rest, f => (f.step? step).bind (part? rest)

end Field

namespace Schema

def part? (s : Schema) (place : PartPlace) : Option Field :=
  s.sections[place.sectionIndex]?.bind fun part =>
    part.fields[place.fieldIndex]?.bind (Field.part? place.steps)

def markAt? (s : Schema) (place : PartPlace) : Option Bool := (s.part? place).map Field.adminOnly

end Schema

/-- The steps to the fields that gating looks at; with them comes whether the field is nested in a
    group. -/
inductive PartStep.Shallow : List PartStep → Bool → Prop where
  | top : Shallow [] false
  | revealed (position : Nat) : Shallow [.option position] false
  | nested (position : Nat) : Shallow [.nested position] true

/-- One of the paths starts the full path of the field `f` at a place that gating looks at. -/
structure Schema.Covered (s : Schema) (paths : List AdminPath) (place : PartPlace)
    (isNested : Bool) (f : Field) : Prop where
  shallow : PartStep.Shallow place.steps isNested
  starts : ∃ part name path, s.sections[place.sectionIndex]? = some part ∧ f.name = some name ∧
    path ∈ paths ∧
    path.keys <+: [s.backendKey, part.backendKey] ++ name.keys.drop (if isNested then 0 else 1)

namespace Field

variable {paths : List AdminPath} {owner : List String}

theorem coveredBy_eq_true {f : Field} {isNested : Bool} :
    f.coveredBy paths owner isNested = true ↔
      ∃ name path, f.name = some name ∧ path ∈ paths ∧
        path.keys <+: owner ++ name.keys.drop (if isNested then 0 else 1) := by
  unfold coveredBy fullPath?
  cases f.name with
  | none => simp
  | some name => simp [AdminPath.anyCovers, AdminPath.covers]

theorem adminOnly_mark (isNested : Bool) (f : Field) :
    (f.mark paths owner isNested).adminOnly =
      (f.adminOnly || f.coveredBy paths owner isNested) := by
  rw [mark_eq]

theorem adminOnly_gate (f : Field) :
    (f.gate paths owner).adminOnly = (f.mark paths owner false).adminOnly := by
  rw [gate_eq]

theorem part?_cons_of_kind {f g : Field} (same : f.kind = g.kind) (step : PartStep)
    (rest : List PartStep) : f.part? (step :: rest) = g.part? (step :: rest) := by
  cases step with
  | option position => simp only [part?, step?, options?, same]
  | nested position => simp only [part?, step?, nestedAt?, same]

theorem step?_gate (paths : List AdminPath) (owner : List String) {f g : Field} {step : PartStep}
    (found : f.step? step = some g) :
    (f.gate paths owner).step? step = some g ∨
      ∃ isNested, PartStep.Shallow [step] isNested ∧
        (f.gate paths owner).step? step = some (g.mark paths owner isNested) := by
  cases step with
  | option position =>
      obtain ⟨options, hasOptions, found⟩ := Option.bind_eq_some_iff.mp found
      obtain ⟨option, atPosition, reveals⟩ := Option.bind_eq_some_iff.mp found
      cases kind : f.kind with
      | radio _ =>
          right
          simp only [options?, kind, Option.some.injEq] at hasOptions
          subst hasOptions
          refine ⟨false, .revealed position, ?_⟩
          simp [step?, options?, gate_eq, kind, gatedKind, atPosition, reveals]
      | checkbox _ =>
          left
          simp only [options?, kind] at hasOptions
          simp [step?, options?, gate_eq, kind, gatedKind, hasOptions, atPosition, reveals]
      | text | toggle | dynamic | button | static => simp [options?, kind] at hasOptions
  | nested position =>
      obtain ⟨nested, addButtonLabel, spec, isGroup, atPosition, rfl⟩ := nestedAt?_eq_some found
      right
      refine ⟨true, .nested position, ?_⟩
      simp [step?, nestedAt?, gate_eq, isGroup, gatedKind, atPosition]

/-- In a gated field every field is found again. Its mark is the old one, or the one that marking
    gives. -/
theorem part?_gate (paths : List AdminPath) (owner : List String) {f g : Field}
    {steps : List PartStep} (found : f.part? steps = some g) :
    ∃ h, (f.gate paths owner).part? steps = some h ∧
      (h.adminOnly = g.adminOnly ∨ ∃ isNested, PartStep.Shallow steps isNested ∧
        h.adminOnly = (g.mark paths owner isNested).adminOnly) := by
  cases steps with
  | nil =>
      cases found
      exact ⟨f.gate paths owner, rfl, .inr ⟨false, .top, adminOnly_gate f⟩⟩
  | cons step rest =>
      obtain ⟨inner, stepped, below⟩ := Option.bind_eq_some_iff.mp found
      rcases step?_gate paths owner stepped with same | ⟨isNested, shallow, marked⟩
      · exact ⟨g, by rw [part?, same]; exact below, .inl rfl⟩
      · cases rest with
        | nil =>
            cases below
            exact ⟨_, by rw [part?, marked]; rfl, .inr ⟨isNested, shallow, rfl⟩⟩
        | cons next rest =>
            -- Marking leaves the fields further down alone.
            have further : (inner.mark paths owner isNested).part? (next :: rest) = some g :=
              (part?_cons_of_kind (mark_kind isNested inner) next rest).trans below
            exact ⟨g, by rw [part?, marked]; exact further, .inl rfl⟩

/-- What gating sees in a field stands at some steps, and is found marked there. -/
theorem part?_gate_of_sees (paths : List AdminPath) (owner : List String) {f g : Field}
    {isNested : Bool} (sees : f.Sees isNested g) :
    ∃ steps h, f.part? steps = some g ∧ (f.gate paths owner).part? steps = some h ∧
      h.adminOnly = (g.mark paths owner isNested).adminOnly := by
  cases sees with
  | itself => exact ⟨[], f.gate paths owner, rfl, rfl, adminOnly_gate f⟩
  | @revealed _ position _ _ isRadio atPosition reveals =>
      refine ⟨[.option position], g.mark paths owner false, ?_, ?_, rfl⟩
      · simp [part?, step?, options?, isRadio, atPosition, reveals]
      · simp [part?, step?, options?, gate_eq, gatedKind, isRadio, atPosition, reveals]
  | @nested _ _ position spec isGroup atPosition =>
      refine ⟨[.nested position], spec.field.mark paths owner true, ?_, ?_, rfl⟩
      · simp [part?, step?, nestedAt?, isGroup, atPosition]
      · simp [part?, step?, nestedAt?, gate_eq, gatedKind, isGroup, atPosition]

theorem gainsMark_eq_false_iff_part? {f : Field} :
    f.gainsMark paths owner = false ↔
      ∀ steps, ((f.gate paths owner).part? steps).map adminOnly =
        (f.part? steps).map adminOnly := by
  constructor
  · intro unchanged steps
    rw [gate_eq_self unchanged]
  · intro same
    rw [gainsMark_eq_false]
    intro isNested g sees
    obtain ⟨steps, h, found, foundAgain, marked⟩ := part?_gate_of_sees paths owner sees
    have atSteps := same steps
    rw [found, foundAgain] at atSteps
    exact marked.symm.trans (Option.some.inj atSteps)

end Field

theorem FormSection.isNone_gate? {paths : List AdminPath} {schemaKey : String}
    (part : FormSection) :
    (part.gate? paths schemaKey).isNone = true ↔
      ∀ f ∈ part.fields, f.gainsMark paths (part.owner schemaKey) = false := by
  rw [gate?_eq, copyAfter]
  cases gains : part.fields.any (Field.gainsMark paths (part.owner schemaKey)) with
  | true =>
      obtain ⟨f, member, gained⟩ := List.any_eq_true.mp gains
      simp only [if_true, Option.isNone_some, Bool.false_eq_true, false_iff]
      intro none
      cases gained.symm.trans (none f member)
  | false =>
      simp only [Bool.false_eq_true, if_false, Option.isNone_none, true_iff]
      intro f member
      exact (Bool.not_eq_true _).mp (List.any_eq_false.mp gains f member)

namespace Schema

variable {s : Schema} {paths : List AdminPath}

theorem part?_gate_eq {sectionIndex fieldIndex : Nat} {part : FormSection}
    (atSection : s.sections[sectionIndex]? = some part) (steps : List PartStep) :
    (s.gate paths).part? ⟨sectionIndex, fieldIndex, steps⟩ =
      part.fields[fieldIndex]?.bind fun top =>
        (top.gate paths (part.owner s.backendKey)).part? steps := by
  simp only [Schema.part?, sections_gate, List.getElem?_map, atSection, Option.map_some,
    Option.bind_some, Option.bind_map, Function.comp_def]

theorem part?_eq {sectionIndex fieldIndex : Nat} {part : FormSection}
    (atSection : s.sections[sectionIndex]? = some part) (steps : List PartStep) :
    s.part? ⟨sectionIndex, fieldIndex, steps⟩ =
      part.fields[fieldIndex]?.bind (Field.part? steps) := by
  simp only [Schema.part?, atSection, Option.bind_some]

theorem adminOnly_gate {place : PartPlace} {f : Field} (found : s.part? place = some f) :
    ∃ g, (s.gate paths).part? place = some g ∧ (f.adminOnly = true → g.adminOnly = true) ∧
      (g.adminOnly ≠ f.adminOnly → ∃ isNested, s.Covered paths place isNested f) := by
  obtain ⟨sectionIndex, fieldIndex, steps⟩ := place
  obtain ⟨part, atSection, found⟩ := Option.bind_eq_some_iff.mp found
  obtain ⟨top, atField, found⟩ := Option.bind_eq_some_iff.mp found
  obtain ⟨g, foundAgain, marks⟩ := Field.part?_gate paths (part.owner s.backendKey) found
  refine ⟨g, by rw [part?_gate_eq atSection, atField]; exact foundAgain, ?_⟩
  rcases marks with same | ⟨isNested, shallow, marked⟩
  · exact ⟨fun set => same.trans set, fun differ => absurd same differ⟩
  · rw [Field.adminOnly_mark] at marked
    constructor
    · intro set
      rw [marked, set, Bool.true_or]
    · intro differ
      have covered : f.coveredBy paths (part.owner s.backendKey) isNested = true := by
        cases isCovered : f.coveredBy paths (part.owner s.backendKey) isNested with
        | true => rfl
        | false =>
            rw [isCovered, Bool.or_false] at marked
            exact absurd marked differ
      obtain ⟨name, path, named, inPaths, starts⟩ := Field.coveredBy_eq_true.mp covered
      exact ⟨isNested, shallow, part, name, path, atSection, named, inPaths, starts⟩

/-- A section is used as it is exactly if no mark in it changes. -/
theorem shared_iff {sectionIndex : Nat} {part : FormSection}
    (atSection : s.sections[sectionIndex]? = some part) :
    (s.sharedSections paths)[sectionIndex]? = some true ↔
      ∀ fieldIndex steps, (s.gate paths).markAt? ⟨sectionIndex, fieldIndex, steps⟩ =
        s.markAt? ⟨sectionIndex, fieldIndex, steps⟩ := by
  have shared : (s.sharedSections paths)[sectionIndex]? =
      some (part.gate? paths s.backendKey).isNone := by
    simp only [sharedSections, gatedSections, List.getElem?_map, atSection, Option.map_some]
  rw [shared, Option.some.injEq, FormSection.isNone_gate?]
  simp only [markAt?, part?_gate_eq atSection, part?_eq atSection]
  constructor
  · intro unchanged fieldIndex steps
    cases atField : part.fields[fieldIndex]? with
    | none => rfl
    | some top =>
        have none := unchanged top (List.mem_of_getElem? atField)
        exact Field.gainsMark_eq_false_iff_part?.mp none steps
  · intro same f member
    obtain ⟨fieldIndex, atField⟩ := List.mem_iff_getElem?.mp member
    refine Field.gainsMark_eq_false_iff_part?.mpr fun steps => ?_
    simpa only [atField, Option.bind_some] using same fieldIndex steps

/-- Gating changes nothing but marks. It clears none, and sets those of covered fields only; and a
    section is used as it is exactly if no mark in it changes. -/
theorem gating_sets_covered_marks_only (s : Schema) (paths : List AdminPath) :
    (s.gate paths).unmarked = s.unmarked ∧
    (∀ place f, s.part? place = some f →
      ∃ g, (s.gate paths).part? place = some g ∧ (f.adminOnly = true → g.adminOnly = true) ∧
        (g.adminOnly ≠ f.adminOnly → ∃ isNested, s.Covered paths place isNested f)) ∧
    ∀ sectionIndex part, s.sections[sectionIndex]? = some part →
      ((s.sharedSections paths)[sectionIndex]? = some true ↔
        ∀ fieldIndex steps, (s.gate paths).markAt? ⟨sectionIndex, fieldIndex, steps⟩ =
          s.markAt? ⟨sectionIndex, fieldIndex, steps⟩) := by
  refine ⟨s.unmarked_gate, ?_, ?_⟩
  · intro place f found
    exact adminOnly_gate found
  · intro sectionIndex part atSection
    exact shared_iff atSection

end Schema

end GatedForms

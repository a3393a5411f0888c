import GatedForms.Proofs.Validation.Seen

/-! # Declared rules

A rule is declared by the printed name of a field, and bound to the first field of this name. The
names of a schema are read as they are printed, so a rule that finds its field is bound to the path
of this field, and one that finds none says which name is unknown.
-/

namespace GatedForms

/-! ## Names of a schema -/

namespace Schema

variable {s : Schema} {place : FieldPlace} {f : Field} {name : Path}

/-- All names, those in templates included, are read from texts or put together from such. -/
def NamesObtained (s : Schema) : Prop :=
  ∀ place f name, s.at? place = some f → f.name = some name → name.Obtained

theorem at?_template {nested : List NestedField} {addButtonLabel : String} {spec : NestedField}
    {position : Nat} (isDirect : place.descent.nested = none) (found : s.at? place = some f)
    (isGroup : f.kind = .dynamic nested addButtonLabel)
    (atPosition : nested[position]? = some spec) :
    s.at? { place with descent := { place.descent with nested := some position } } =
      some spec.field := by
  obtain ⟨sectionIndex, fieldIndex, options, _⟩ := place
  cases isDirect
  rw [at?_inTemplate rfl]
  simp only [FieldPlace.owner, found, Option.bind_some, Field.nestedAt?, isGroup, atPosition,
    Option.map_some]

theorem Portable.namesObtained (portable : s.Portable) : s.NamesObtained := by
  intro place f name found named
  cases isDirect : place.descent.nested with
  | none => exact (portable.printable isDirect found named).obtained
  | some position =>
      rw [at?_inTemplate isDirect] at found
      obtain ⟨group, atOwner, found⟩ := Option.bind_eq_some_iff.mp found
      obtain ⟨nested, addButtonLabel, spec, isGroup, atPosition, rfl⟩ :=
        Field.nestedAt?_eq_some found
      exact (portable.printable_nested rfl atOwner isGroup (List.mem_of_getElem? atPosition)
        named).obtained

theorem NamesObtained.readName (names : s.NamesObtained) (checked : s.Checked)
    (isDirect : place.descent.nested = none) (found : s.at? place = some f)
    (named : f.name = some name) : RuleSpec.readName name.display = .ok name := by
  obtain ⟨_, fieldChecked⟩ := checked.at? isDirect found
  rw [RuleSpec.readName, Path.parseName_display (names place f name found named).printable
    (Field.isKeyOnly_of_check fieldChecked named)]

theorem NamesObtained.readName_nested (names : s.NamesObtained) (checked : s.Checked)
    (isDirect : place.descent.nested = none) (found : s.at? place = some f)
    {nested : List NestedField} {addButtonLabel : String}
    (isGroup : f.kind = .dynamic nested addButtonLabel) {spec : NestedField}
    (member : spec ∈ nested) (named : spec.field.name = some name) :
    RuleSpec.readName name.display = .ok name := by
  obtain ⟨_, groupChecked⟩ := checked.at? isDirect found
  obtain ⟨position, atPosition⟩ := List.mem_iff_getElem?.mp member
  have obtained := names _ _ name (at?_template isDirect found isGroup atPosition) named
  rw [RuleSpec.readName, Path.parseName_display obtained.printable
    (Field.isKeyOnly_of_check (Field.check_nested groupChecked isGroup member) named)]

end Schema

theorem Field.hasName_display {f : Field} {name : Path} (named : f.name = some name) :
    f.hasName name.display = true := by
  simp [hasName, named]

theorem Field.hasNested_iff {f : Field} {text : String} :
    f.hasNested text = true ↔ ∃ nested addButtonLabel spec,
      f.kind = .dynamic nested addButtonLabel ∧ spec ∈ nested ∧
        spec.field.hasName text = true := by
  unfold hasNested
  split
  · next nested addButtonLabel isGroup =>
    rw [List.any_eq_true]
    constructor
    · rintro ⟨spec, member, named⟩
      exact ⟨nested, addButtonLabel, spec, isGroup, member, named⟩
    · rintro ⟨_, _, spec, alsoGroup, member, named⟩
      cases isGroup.symm.trans alsoGroup
      exact ⟨spec, member, named⟩
  · next noGroup =>
    refine ⟨nofun, ?_⟩
    rintro ⟨nested, addButtonLabel, -, isGroup, -⟩
    exact absurd isGroup (noGroup nested addButtonLabel)

/-! ## One rule -/

namespace RuleSpec

variable {s : Schema} {spec : RuleSpec} {check : Check} {cause : RuleError}

/-- The rule is bound to the first field of its name: to the section and the name of this field, and
    for a rule about repetitions also to the name of a field in its template. -/
inductive Binds (s : Schema) : RuleSpec → Check → Prop where
  | field {rule : Rule} {place : FieldPlace} {f : Field} {name : Path}
      (first : s.IsFirst name.display place f) (named : f.name = some name) :
      Binds s ⟨name.display, none, rule⟩ ⟨place.sectionIndex, .field name, rule⟩
  | eachRepetition {rule : Rule} {place : FieldPlace} {f : Field} {name below : Path}
      {nested : List NestedField} {addButtonLabel : String} {inner : NestedField}
      (first : s.IsFirst name.display place f) (named : f.name = some name)
      (isGroup : f.kind = .dynamic nested addButtonLabel) (member : inner ∈ nested)
      (innerNamed : inner.field.name = some below) :
      Binds s ⟨name.display, some below.display, rule⟩
        ⟨place.sectionIndex, .eachRepetition name below, rule⟩

/-- The rule finds no field of its name, or the first one is no group with the nested field. -/
inductive Unbound (s : Schema) : RuleSpec → RuleError → Prop where
  | unknownField {spec : RuleSpec}
      (nowhere : ∀ place f, place.descent.nested = none → s.at? place = some f →
        f.hasName spec.field = false) : Unbound s spec (.unknownField spec.field)
  | unknownNested {rule : Rule} {text nestedText : String} {place : FieldPlace} {f : Field}
      (first : s.IsFirst text place f)
      (missing : ∀ nested addButtonLabel inner, f.kind = .dynamic nested addButtonLabel →
        inner ∈ nested → inner.field.hasName nestedText = false) :
      Unbound s ⟨text, some nestedText, rule⟩ (.unknownNested text nestedText)

theorem bind_of_binds (checked : s.Checked) (names : s.NamesObtained) (binds : Binds s spec check) :
    spec.bind s = .ok check := by
  cases binds with
  | field first named =>
      have located := Schema.locate?_eq_some_iff.mpr ⟨_, rfl, first⟩
      have read := names.readName checked first.isDirect first.found named
      simp only [bind, located, read, ok_bind]
  | eachRepetition first named isGroup member innerNamed =>
      have located := Schema.locate?_eq_some_iff.mpr ⟨_, rfl, first⟩
      have read := names.readName checked first.isDirect first.found named
      have hasNested := Field.hasNested_iff.mpr
        ⟨_, _, _, isGroup, member, Field.hasName_display innerNamed⟩
      have innerRead :=
        names.readName_nested checked first.isDirect first.found isGroup member innerNamed
      simp only [bind, located, read, ok_bind, hasNested, if_true, innerRead]

theorem bind_of_unbound (checked : s.Checked) (names : s.NamesObtained)
    (unbound : Unbound s spec cause) : spec.bind s = .error cause := by
  cases unbound with
  | unknownField nowhere => simp only [bind, Schema.locate?_eq_none.mpr nowhere]
  | @unknownNested rule text nestedText place f first missing =>
      have located := Schema.locate?_eq_some_iff.mpr ⟨_, rfl, first⟩
      obtain ⟨name, named, rfl⟩ := Field.exists_name_of_hasName first.named
      have read := names.readName checked first.isDirect first.found named
      have noNested : f.hasNested nestedText = false := by
        refine Bool.eq_false_iff.mpr fun hasNested => ?_
        obtain ⟨_, _, inner, isGroup, member, hasName⟩ := Field.hasNested_iff.mp hasNested
        rw [missing _ _ inner isGroup member] at hasName
        cases hasName
      simp only [bind, located, read, ok_bind, noNested]
      rfl

theorem binds_or_unbound (s : Schema) (spec : RuleSpec) :
    (∃ check, Binds s spec check) ∨ ∃ cause, Unbound s spec cause := by
  obtain ⟨text, nestedText, rule⟩ := spec
  cases located : s.locate? text with
  | none => exact .inr ⟨_, .unknownField (Schema.locate?_eq_none.mp located)⟩
  | some entry =>
      obtain ⟨place, -, first⟩ := Schema.isFirst_of_locate? located
      cases nestedText with
      | none =>
          obtain ⟨name, named, rfl⟩ := Field.exists_name_of_hasName first.named
          exact .inl ⟨_, .field first named⟩
      | some nestedText =>
          cases hasNested : entry.2.hasNested nestedText with
          | true =>
              obtain ⟨_, _, inner, isGroup, member, hasName⟩ := Field.hasNested_iff.mp hasNested
              obtain ⟨name, named, rfl⟩ := Field.exists_name_of_hasName first.named
              obtain ⟨below, innerNamed, rfl⟩ := Field.exists_name_of_hasName hasName
              exact .inl ⟨_, .eachRepetition first named isGroup member innerNamed⟩
          | false =>
              refine .inr ⟨_, .unknownNested first fun _ _ inner isGroup member => ?_⟩
              refine Bool.eq_false_iff.mpr fun hasName => Bool.eq_false_iff.mp hasNested ?_
              exact Field.hasNested_iff.mpr ⟨_, _, inner, isGroup, member, hasName⟩

theorem bind_eq_ok (checked : s.Checked) (names : s.NamesObtained) :
    spec.bind s = .ok check ↔ Binds s spec check := by
  refine ⟨fun bound => ?_, bind_of_binds checked names⟩
  rcases binds_or_unbound s spec with ⟨other, binds⟩ | ⟨cause, unbound⟩
  · cases (bind_of_binds checked names binds).symm.trans bound
    exact binds
  · cases (bind_of_unbound checked names unbound).symm.trans bound

theorem bind_eq_error (checked : s.Checked) (names : s.NamesObtained) :
    spec.bind s = .error cause ↔ Unbound s spec cause := by
  refine ⟨fun failed => ?_, bind_of_unbound checked names⟩
  rcases binds_or_unbound s spec with ⟨check, binds⟩ | ⟨other, unbound⟩
  · cases (bind_of_binds checked names binds).symm.trans failed
  · cases (bind_of_unbound checked names unbound).symm.trans failed
    exact unbound

/-- A rule binds if a field has its name, and for a rule about repetitions the first such field is a
    group with the nested field. -/
theorem exists_binds_iff :
    (∃ check, Binds s spec check) ↔
      (∃ place f, place.descent.nested = none ∧ s.at? place = some f ∧
        f.hasName spec.field = true) ∧
      ∀ nestedText, spec.nested = some nestedText →
        ∃ place f nested addButtonLabel inner, s.IsFirst spec.field place f ∧
          f.kind = .dynamic nested addButtonLabel ∧ inner ∈ nested ∧
          inner.field.hasName nestedText = true := by
  obtain ⟨text, nestedText, rule⟩ := spec
  constructor
  · rintro ⟨check, binds⟩
    cases binds with
    | field first named =>
        exact ⟨⟨_, _, first.isDirect, first.found, first.named⟩, nofun⟩
    | eachRepetition first named isGroup member innerNamed =>
        refine ⟨⟨_, _, first.isDirect, first.found, first.named⟩, fun _ same => ?_⟩
        cases same
        exact ⟨_, _, _, _, _, first, isGroup, member, Field.hasName_display innerNamed⟩
  · rintro ⟨⟨place, f, isDirect, found, hasName⟩, inTemplate⟩
    cases nestedText with
    | none =>
        obtain ⟨place, f, first⟩ := Schema.exists_isFirst isDirect found hasName
        obtain ⟨name, named, rfl⟩ := Field.exists_name_of_hasName first.named
        exact ⟨_, .field first named⟩
    | some nestedText =>
        obtain ⟨place, f, nested, _, inner, first, isGroup, member, innerHasName⟩ :=
          inTemplate _ rfl
        obtain ⟨name, named, rfl⟩ := Field.exists_name_of_hasName first.named
        obtain ⟨below, innerNamed, rfl⟩ := Field.exists_name_of_hasName innerHasName
        exact ⟨_, .eachRepetition first named isGroup member innerNamed⟩

/-! ## Many rules -/

theorem bindAll_eq_ok (checked : s.Checked) (names : s.NamesObtained) {specs : List RuleSpec}
    {checks : List Check} :
    bindAll s specs = .ok checks ↔ List.Forall₂ (Binds s) specs checks := by
  rw [bindAll_eq_mapM, mapM_eq_ok]
  simp only [bind_eq_ok checked names]

theorem bindAll_eq_error (checked : s.Checked) (names : s.NamesObtained) {specs : List RuleSpec} :
    bindAll s specs = .error cause ↔ ∃ before spec behind, specs = before ++ spec :: behind ∧
      (∀ other ∈ before, ∃ check, Binds s other check) ∧ Unbound s spec cause := by
  rw [bindAll_eq_mapM, mapM_eq_error]
  simp only [bind_eq_ok checked names, bind_eq_error checked names]

end RuleSpec

namespace Validator

/-- Rules bind exactly or not at all. A validator is built if every rule finds a field of its name,
    and every rule about repetitions finds the nested field in the first such field. It has one
    check for each rule in order, bound to the section and the name of the first field. Otherwise
    the first rule that does not bind says which name is unknown, and no name is ever malformed. -/
theorem rules_bind_exactly {s : Schema} (obtained : s.Obtainable) (names : s.NamesObtained)
    (specs : List RuleSpec) :
    ((∃ v, build s specs = .ok v) ↔ ∀ spec ∈ specs,
      (∃ place f, place.descent.nested = none ∧ s.at? place = some f ∧
        f.hasName spec.field = true) ∧
      ∀ nestedText, spec.nested = some nestedText →
        ∃ place f nested addButtonLabel inner, s.IsFirst spec.field place f ∧
          f.kind = .dynamic nested addButtonLabel ∧ inner ∈ nested ∧
          inner.field.hasName nestedText = true) ∧
    (∀ v, build s specs = .ok v ↔ List.Forall₂ (RuleSpec.Binds s) specs v.checks) ∧
    (∀ cause, build s specs = .error cause ↔
      ∃ before spec behind, specs = before ++ spec :: behind ∧
        (∀ other ∈ before, ∃ check, RuleSpec.Binds s other check) ∧ spec.Unbound s cause) ∧
    ∀ cause, build s specs ≠ .error (.path cause) := by
  have checked := obtained.checked
  have success (v : Validator) :
      build s specs = .ok v ↔ List.Forall₂ (RuleSpec.Binds s) specs v.checks := by
    rw [← RuleSpec.bindAll_eq_ok checked names, build, map_eq_ok]
    constructor
    · rintro ⟨checks, bound, rfl⟩
      exact bound
    · intro bound
      exact ⟨v.checks, bound, rfl⟩
  have failure (cause : RuleError) :
      build s specs = .error cause ↔ ∃ before spec behind, specs = before ++ spec :: behind ∧
        (∀ other ∈ before, ∃ check, RuleSpec.Binds s other check) ∧ spec.Unbound s cause := by
    rw [build, map_eq_error, RuleSpec.bindAll_eq_error checked names]
  refine ⟨⟨?_, ?_⟩, success, failure, ?_⟩
  · rintro ⟨v, built⟩ spec member
    obtain ⟨checks, bound, rfl⟩ := map_eq_ok.mp built
    rw [RuleSpec.bindAll_eq_mapM] at bound
    obtain ⟨check, -, specBound⟩ := exists_of_mapM_eq_ok bound member
    exact RuleSpec.exists_binds_iff.mp ⟨check, (RuleSpec.bind_eq_ok checked names).mp specBound⟩
  · intro each
    cases built : build s specs with
    | ok v => exact ⟨v, rfl⟩
    | error cause =>
        obtain ⟨before, spec, behind, rfl, -, unbound⟩ := (failure cause).mp built
        obtain ⟨check, binds⟩ := RuleSpec.exists_binds_iff.mpr
          (each spec (List.mem_append_right before List.mem_cons_self))
        have failed := (RuleSpec.bind_eq_error checked names).mpr unbound
        rw [(RuleSpec.bind_eq_ok checked names).mpr binds] at failed
        cases failed
  · intro cause failed
    obtain ⟨_, _, _, -, -, unbound⟩ := (failure _).mp failed
    cases unbound

/-- The rate is bound though an option reveals it, and the gap in the steps is. The mode is no group
    with a gap. -/
theorem paced_rules_bind_exactly :
    List.Forall₂ (RuleSpec.Binds .paced) paced.specs paced.checks ∧
    RuleSpec.Unbound .paced ⟨"a.mode", some "gap", .required⟩ (.unknownNested "a.mode" "gap") := by
  have obtained : Schema.paced.Obtainable :=
    .built (rfl : Schema.build Schema.paced.title Schema.paced.backendKey Schema.paced.sections =
      .ok .paced)
  have names : Schema.paced.NamesObtained := issued_paced.keeps.2.namesObtained
  obtain ⟨-, bound, -⟩ := rules_bind_exactly obtained names paced.specs
  obtain ⟨-, -, refused, -⟩ :=
    rules_bind_exactly obtained names [⟨"a.mode", some "gap", .required⟩]
  refine ⟨(bound paced).mp built_paced, ?_⟩
  obtain ⟨before, spec, behind, same, -, unbound⟩ :=
    (refused (.unknownNested "a.mode" "gap")).mp rfl
  cases before with
  | nil =>
      cases same
      exact unbound
  | cons first rest => cases rest <;> cases same

end Validator

end GatedForms

import GatedForms.Proofs.Gating.Marks
import GatedForms.Proofs.Places
import GatedForms.Proofs.Results

/-! # Checked schemas

What a schema is built from passes its checks, and so does every field in it, at any depth. Gating
keeps it that way, so whatever a form has in hand is checked.
-/

namespace GatedForms

variable {sectionKey : String}

/-! ## What the checks of a field say -/

theorem FieldOption.checkRevealed_eq_ok {options : List FieldOption} :
    checkRevealed sectionKey options = .ok () ↔
      ∀ option ∈ options, ∀ f, option.reveals = some f → f.check sectionKey = .ok () := by
  induction options with
  | nil => simp [checkRevealed]
  | cons option rest ih =>
      obtain ⟨label, value, reveals⟩ := option
      cases reveals with
      | none => simp [checkRevealed, ih]
      | some f => simp [checkRevealed, check_bind_eq_ok, ih]

theorem NestedField.checkAll_eq_ok {nested : List NestedField} :
    checkAll sectionKey nested = .ok () ↔
      ∀ spec ∈ nested, spec.field.tag.canBeNested = true ∧
        spec.field.check sectionKey = .ok () := by
  induction nested with
  | nil => simp [checkAll]
  | cons spec rest ih =>
      obtain ⟨f, disableOnFirst⟩ := spec
      cases nestable : f.tag.canBeNested with
      | true => simp [checkAll, check_bind_eq_ok, ih, nestable]
      | false => simp [checkAll, check_bind_eq_ok, nestable]

namespace Field

theorem check_eq_ok {f : Field} :
    f.check sectionKey = .ok () ↔
      f.checkName sectionKey = .ok () ∧ f.kind.check sectionKey f.displayName = .ok () ∧
        f.checkBound = .ok () := by
  obtain ⟨name, label, tooltip, adminOnly, kind⟩ := f
  simp [check, check_bind_eq_ok]

theorem checkBound_eq_ok {f : Field} :
    f.checkBound = .ok () ↔ (f.isBound && f.name.isNone) = false := by
  unfold checkBound
  cases f.isBound && f.name.isNone with
  | true => exact ⟨nofun, nofun⟩
  | false => exact ⟨fun _ => rfl, fun _ => rfl⟩

theorem isKeyOnly_of_check {f : Field} {name : Path} (checked : f.check sectionKey = .ok ())
    (named : f.name = some name) : name.isKeyOnly = true := by
  have nameChecked := (check_eq_ok.mp checked).1
  simp only [checkName, named, Path.checkKeyOnly] at nameChecked
  cases keyOnly : name.isKeyOnly with
  | true => rfl
  | false => simp [keyOnly] at nameChecked

theorem check_revealed {f : Field} {options : List FieldOption} {option : FieldOption} {g : Field}
    (checked : f.check sectionKey = .ok ()) (isRadio : f.kind = .radio options)
    (member : option ∈ options) (reveals : option.reveals = some g) :
    g.check sectionKey = .ok () := by
  have kindChecked := (check_eq_ok.mp checked).2.1
  rw [isRadio, FieldKind.check] at kindChecked
  split at kindChecked
  · cases kindChecked
  · exact FieldOption.checkRevealed_eq_ok.mp kindChecked option member g reveals

theorem exists_name_of_check {f : Field} (checked : f.check sectionKey = .ok ())
    (bound : f.isBound = true) : ∃ name, f.name = some name := by
  have boundChecked := checkBound_eq_ok.mp (check_eq_ok.mp checked).2.2
  rw [bound, Bool.true_and, Option.isNone_eq_false_iff] at boundChecked
  exact Option.isSome_iff_exists.mp boundChecked

theorem check_template {f : Field} {nested : List NestedField} {addButtonLabel : String}
    (checked : f.check sectionKey = .ok ()) (isGroup : f.kind = .dynamic nested addButtonLabel) :
    ∀ spec ∈ nested, spec.field.tag.canBeNested = true ∧ spec.field.check sectionKey = .ok () := by
  have kindChecked := (check_eq_ok.mp checked).2.1
  rw [isGroup, FieldKind.check] at kindChecked
  split at kindChecked
  · cases kindChecked
  · exact NestedField.checkAll_eq_ok.mp kindChecked

theorem check_nested {f : Field} {nested : List NestedField} {addButtonLabel : String}
    {spec : NestedField} (checked : f.check sectionKey = .ok ())
    (isGroup : f.kind = .dynamic nested addButtonLabel) (member : spec ∈ nested) :
    spec.field.check sectionKey = .ok () :=
  (check_template checked isGroup spec member).2

theorem check_revealed? {f g : Field} {options : List Nat} (checked : f.check sectionKey = .ok ())
    (found : f.revealed? options = some g) : g.check sectionKey = .ok () := by
  induction options generalizing f with
  | nil =>
      cases found
      exact checked
  | cons position rest ih =>
      obtain ⟨options, option, inner, isRadio, atPosition, reveals, below⟩ :=
        revealed?_cons_eq_some found
      exact ih (check_revealed checked isRadio (List.mem_of_getElem? atPosition) reveals) below

/-! ## Gating and filling in ids -/

variable {paths : List AdminPath} {owner : List String}

theorem check_mark (isNested : Bool) (f : Field) :
    (f.mark paths owner isNested).check sectionKey = f.check sectionKey := by
  rw [mark_eq]
  cases f
  rfl

theorem check_gatedKind {kind : FieldKind} {displayName : String}
    (checked : kind.check sectionKey displayName = .ok ()) :
    (gatedKind paths owner kind).check sectionKey displayName = .ok () := by
  cases kind with
  | radio options =>
      simp only [gatedKind, FieldKind.check, List.isEmpty_map] at checked ⊢
      split at checked
      · cases checked
      · next some =>
        rw [if_neg some]
        refine FieldOption.checkRevealed_eq_ok.mpr fun option member f reveals => ?_
        obtain ⟨ungated, before, rfl⟩ := List.mem_map.mp member
        obtain ⟨g, revealsBefore, rfl⟩ := Option.map_eq_some_iff.mp reveals
        rw [check_mark]
        exact FieldOption.checkRevealed_eq_ok.mp checked ungated before g revealsBefore
  | dynamic nested addButtonLabel =>
      simp only [gatedKind, FieldKind.check, List.isEmpty_map] at checked ⊢
      split at checked
      · cases checked
      · next some =>
        rw [if_neg some]
        refine NestedField.checkAll_eq_ok.mpr fun spec member => ?_
        obtain ⟨ungated, before, rfl⟩ := List.mem_map.mp member
        simp only [tag, mark_kind, check_mark]
        exact NestedField.checkAll_eq_ok.mp checked ungated before
  | text | checkbox | toggle | button | static => exact checked

theorem tag_gatedKind (kind : FieldKind) : (gatedKind paths owner kind).tag = kind.tag := by
  cases kind <;> rfl

theorem name_mark (isNested : Bool) (f : Field) : (f.mark paths owner isNested).name = f.name := by
  rw [mark_eq]

theorem name_gate (f : Field) : (f.gate paths owner).name = f.name := by
  rw [gate_eq, mark_eq]

theorem isBound_gate (f : Field) : (f.gate paths owner).isBound = f.isBound := by
  rw [isBound, isBound, tag, gate_eq]
  exact congrArg KindTag.isBound (tag_gatedKind f.kind)

theorem revealed?_of_gate {f h : Field} {options : List Nat}
    (found : (f.gate paths owner).revealed? options = some h) :
    ∃ g, f.revealed? options = some g ∧ h.name = g.name ∧ h.isBound = g.isBound := by
  cases options with
  | nil =>
      cases found
      exact ⟨f, rfl, name_gate f, isBound_gate f⟩
  | cons position rest =>
      obtain ⟨options, option, inner, isRadio, atPosition, reveals, below⟩ :=
        revealed?_cons_eq_some found
      rw [gate_eq] at isRadio
      cases kind : f.kind with
      | radio ungated =>
          rw [kind] at isRadio
          cases isRadio
          rw [List.getElem?_map] at atPosition
          obtain ⟨before, atBefore, rfl⟩ := Option.map_eq_some_iff.mp atPosition
          obtain ⟨g, revealsBefore, rfl⟩ := Option.map_eq_some_iff.mp reveals
          rw [revealed?_cons_of_reveals kind atBefore revealsBefore]
          cases rest with
          | nil =>
              cases below
              refine ⟨g, rfl, name_mark false g, ?_⟩
              rw [isBound, isBound, tag, mark_kind]
              rfl
          | cons next rest =>
              rw [revealed?_cons_of_kind (mark_kind false g)] at below
              exact ⟨h, below, rfl, rfl⟩
      | text | checkbox | toggle | dynamic | button | static =>
          rw [kind] at isRadio
          cases isRadio

theorem check_gate {f : Field} (checked : f.check sectionKey = .ok ()) :
    (f.gate paths owner).check sectionKey = .ok () := by
  have tagSame : (f.gate paths owner).tag = f.tag := by
    rw [tag, gate_eq]
    exact tag_gatedKind f.kind
  have nameSame : (f.gate paths owner).name = f.name := by rw [gate_eq, mark_eq]
  have labelSame : (f.gate paths owner).label = f.label := by rw [gate_eq, mark_eq]
  have kindIs : (f.gate paths owner).kind = gatedKind paths owner f.kind := by rw [gate_eq]
  obtain ⟨nameChecked, kindChecked, boundChecked⟩ := check_eq_ok.mp checked
  refine check_eq_ok.mpr ⟨?_, ?_, ?_⟩
  · simpa only [checkName, nameSame] using nameChecked
  · rw [kindIs]
    simpa only [displayName, nameSame, labelSame, tagSame] using check_gatedKind kindChecked
  · rw [checkBound_eq_ok] at boundChecked ⊢
    simpa only [isBound, nameSame, tagSame] using boundChecked

theorem check_fillId {f : Field} (sectionIndex fieldIndex : Nat)
    (checked : f.check sectionKey = .ok ()) :
    (f.fillId sectionIndex fieldIndex).check sectionKey = .ok () := by
  unfold fillId
  split
  · next action isButton =>
    have nameChecked := (check_eq_ok.mp checked).1
    exact check_eq_ok.mpr ⟨nameChecked, rfl, checkBound_eq_ok.mpr rfl⟩
  · exact checked

end Field

/-! ## Schemas -/

namespace Schema

def Checked (s : Schema) : Prop :=
  ∀ part ∈ s.sections, ∀ f ∈ part.fields, f.check part.backendKey = .ok ()

/-- The first field passes its checks and has an id that no button before it has, if it has one; the
    others are built behind it. -/
theorem buildFields_cons {sectionIndex fieldIndex : Nat} {ids idsAfter : List ButtonId} {f : Field}
    {rest built : List Field} :
    buildFields sectionKey sectionIndex fieldIndex ids (f :: rest) = .ok (built, idsAfter) ↔
      f.check sectionKey = .ok () ∧
        (∀ id, (f.fillId sectionIndex fieldIndex).buttonId? = some id → id ∉ ids) ∧
        ∃ others, built = f.fillId sectionIndex fieldIndex :: others ∧
          buildFields sectionKey sectionIndex (fieldIndex + 1)
            ((f.fillId sectionIndex fieldIndex).buttonId?.toList ++ ids) rest =
              .ok (others, idsAfter) := by
  have behind : ∀ idsBetween,
      (buildFields sectionKey sectionIndex (fieldIndex + 1) idsBetween rest >>= fun after =>
        .ok (f.fillId sectionIndex fieldIndex :: after.1, after.2)) = .ok (built, idsAfter) ↔
      ∃ others, built = f.fillId sectionIndex fieldIndex :: others ∧
        buildFields sectionKey sectionIndex (fieldIndex + 1) idsBetween rest =
          .ok (others, idsAfter) := by
    intro idsBetween
    rw [bind_eq_ok, Prod.exists]
    constructor
    · rintro ⟨others, idsAtEnd, restAccepted, accepted⟩
      cases accepted
      exact ⟨others, rfl, restAccepted⟩
    · rintro ⟨others, rfl, restAccepted⟩
      exact ⟨others, idsAfter, restAccepted, rfl⟩
  refine check_bind_eq_ok.trans (and_congr_right fun _ => ?_)
  cases hasId : (f.fillId sectionIndex fieldIndex).buttonId? with
  | none =>
      simp only [hasId, reduceCtorEq, false_implies, implies_true, true_and, Option.toList_none,
        List.nil_append]
      exact behind ids
  | some id =>
      simp only [hasId, Option.some.injEq, forall_eq', Option.toList_some, List.singleton_append]
      by_cases taken : id ∈ ids
      · simp only [taken, if_true, not_true_eq_false, false_and, iff_false]
        exact nofun
      · simp only [taken, if_false, not_false_eq_true, true_and]
        exact behind (id :: ids)

theorem checked_of_buildFields {sectionIndex fieldIndex : Nat} {ids idsAfter : List ButtonId}
    {fields built : List Field}
    (accepted : buildFields sectionKey sectionIndex fieldIndex ids fields = .ok (built, idsAfter)) :
    ∀ f ∈ built, f.check sectionKey = .ok () := by
  induction fields generalizing fieldIndex ids built idsAfter with
  | nil =>
      cases accepted
      exact nofun
  | cons f rest ih =>
      obtain ⟨checked, -, others, rfl, restAccepted⟩ := buildFields_cons.mp accepted
      exact List.forall_mem_cons.mpr
        ⟨Field.check_fillId sectionIndex fieldIndex checked, ih restAccepted⟩

theorem checked_of_buildSections {sectionIndex : Nat} {keys : List String} {ids : List ButtonId}
    {sections built : List FormSection}
    (accepted : buildSections sectionIndex keys ids sections = .ok built) :
    ∀ part ∈ built, ∀ f ∈ part.fields, f.check part.backendKey = .ok () := by
  induction sections generalizing sectionIndex keys ids built with
  | nil =>
      cases accepted
      exact nofun
  | cons part rest ih =>
      simp only [buildSections] at accepted
      split at accepted
      · cases accepted
      · obtain ⟨⟨fields, idsAfter⟩, fieldsAccepted, accepted⟩ := ok_of_bind accepted
        obtain ⟨others, restAccepted, accepted⟩ := ok_of_bind accepted
        cases accepted
        exact List.forall_mem_cons.mpr ⟨checked_of_buildFields fieldsAccepted, ih restAccepted⟩

theorem Checked.at? {s : Schema} (checked : s.Checked) {place : FieldPlace} {f : Field}
    (isDirect : place.descent.nested = none) (found : s.at? place = some f) :
    ∃ sectionKey, f.check sectionKey = .ok () := by
  obtain ⟨part, top, inSchema, inSection, found⟩ := exists_top_of_at? isDirect found
  have topChecked := checked part (List.mem_of_getElem? inSchema) top
    (List.mem_of_getElem? inSection)
  exact ⟨part.backendKey, Field.check_revealed? topChecked found⟩

/-- A schema as forms get it: built from its parts, and gated any number of times. -/
inductive Obtainable : Schema → Prop where
  | built {title backendKey : String} {sections : List FormSection} {s : Schema}
      (accepted : build title backendKey sections = .ok s) : Obtainable s
  | gated {s : Schema} (obtained : Obtainable s) (paths : List AdminPath) :
      Obtainable (s.gate paths)

theorem Obtainable.checked {s : Schema} (obtained : s.Obtainable) : s.Checked := by
  induction obtained with
  | built accepted =>
      obtain ⟨sections, sectionsAccepted, accepted⟩ := ok_of_bind accepted
      cases accepted
      exact checked_of_buildSections sectionsAccepted
  | @gated s obtained paths ih =>
      intro part member f inPart
      rw [sections_gate] at member
      obtain ⟨ungated, before, rfl⟩ := List.mem_map.mp member
      obtain ⟨g, inUngated, rfl⟩ := List.mem_map.mp inPart
      exact Field.check_gate (ih ungated before g inUngated)

end Schema

end GatedForms

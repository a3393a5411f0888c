import GatedForms.Proofs.Schema.Checked

/-! # Well-formed schemas

What makes a form well-formed can be said without running a check: what each field in it has to
have, however deep it stands, and that the keys of its sections and the ids of its buttons differ.
A schema is built from exactly such sections, and gating keeps it well-formed.
-/

namespace GatedForms

variable {sectionKey : String}

/-! ## Fields in fields -/

/-- What a kind has to have: a radio has options, no option of a checkbox reveals a field, and a
    dynamic group has nested fields, none of them a group or a button. -/
def FieldKind.Sound : FieldKind → Prop
  | .radio options => options ≠ []
  | .checkbox (some options) => ∀ option ∈ options, option.reveals = none
  | .dynamic nested _ =>
      nested ≠ [] ∧ ∀ spec ∈ nested, spec.field.tag ≠ .dynamic ∧ spec.field.tag ≠ .button
  | _ => True

/-- The fields that stand in a field of this kind: those that the options of a radio reveal, and the
    template of a dynamic group. -/
def FieldKind.parts : FieldKind → List Field
  | .radio options => options.filterMap FieldOption.reveals
  | .dynamic nested _ => nested.map NestedField.field
  | _ => []

namespace Field

/-- The second field is the first one or stands in it, however deep. -/
inductive Contains : Field → Field → Prop where
  | itself (f : Field) : Contains f f
  | inside {f g h : Field} (part : g ∈ f.kind.parts) (further : Contains g h) : Contains f h

/-- What a field has to have for itself, whatever stands in it. -/
structure Sound (f : Field) : Prop where
  nameKeyOnly : ∀ name, f.name = some name → name.isKeyOnly = true
  /-- Only buttons and static texts may go without a name. -/
  named : f.tag ≠ .button → f.tag ≠ .static → f.name.isSome = true
  kind : f.kind.Sound

theorem sizeOf_lt_of_part {f g : Field} (part : g ∈ f.kind.parts) : sizeOf g < sizeOf f := by
  obtain ⟨name, label, tooltip, adminOnly, kind⟩ := f
  cases kind with
  | radio options =>
      obtain ⟨⟨optionLabel, value, reveals⟩, member, rfl⟩ := List.mem_filterMap.mp part
      have inOptions := List.sizeOf_lt_of_mem member
      simp only [mk.sizeOf_spec, FieldKind.radio.sizeOf_spec, FieldOption.mk.sizeOf_spec,
        Option.some.sizeOf_spec] at inOptions ⊢
      omega
  | dynamic nested addButtonLabel =>
      obtain ⟨⟨g, disableOnFirst⟩, member, rfl⟩ := List.mem_map.mp part
      have inTemplate := List.sizeOf_lt_of_mem member
      simp only [mk.sizeOf_spec, FieldKind.dynamic.sizeOf_spec, NestedField.mk.sizeOf_spec]
        at inTemplate ⊢
      omega
  | text | checkbox | toggle | button | static => cases part

/-! ## The checks of a field -/

theorem checkName_eq_ok {f : Field} :
    f.checkName sectionKey = .ok () ↔ ∀ name, f.name = some name → name.isKeyOnly = true := by
  unfold checkName
  cases f.name with
  | none => simp
  | some name => cases keyOnly : name.isKeyOnly <;> simp [Path.checkKeyOnly, keyOnly]

theorem checkBound_eq_ok_iff {f : Field} :
    f.checkBound = .ok () ↔ (f.tag ≠ .button → f.tag ≠ .static → f.name.isSome = true) := by
  rw [checkBound_eq_ok, isBound]
  cases f.tag <;> cases f.name <;> simp [KindTag.isBound]

end Field

theorem KindTag.canBeNested_iff (tag : KindTag) :
    tag.canBeNested = true ↔ tag ≠ .dynamic ∧ tag ≠ .button := by
  cases tag <;> simp [canBeNested]

theorem FieldKind.check_eq_ok {kind : FieldKind} {displayName : String} :
    kind.check sectionKey displayName = .ok () ↔
      kind.Sound ∧ ∀ g ∈ kind.parts, g.check sectionKey = .ok () := by
  cases kind with
  | radio options =>
      have revealed : (∀ g ∈ parts (.radio options), g.check sectionKey = .ok ()) ↔
          FieldOption.checkRevealed sectionKey options = .ok () := by
        rw [FieldOption.checkRevealed_eq_ok]
        simp only [parts, List.mem_filterMap]
        exact ⟨fun each option member g reveals => each g ⟨option, member, reveals⟩,
          fun each g ⟨option, member, reveals⟩ => each option member g reveals⟩
      rw [revealed]
      cases options <;> simp [check, Sound]
  | dynamic nested addButtonLabel =>
      have template : (∀ spec ∈ nested, spec.field.tag ≠ .dynamic ∧ spec.field.tag ≠ .button) ∧
          (∀ g ∈ parts (.dynamic nested addButtonLabel), g.check sectionKey = .ok ()) ↔
          NestedField.checkAll sectionKey nested = .ok () := by
        rw [NestedField.checkAll_eq_ok]
        simp only [parts, List.forall_mem_map, KindTag.canBeNested_iff, forall_and]
      rw [Sound, and_assoc, template]
      cases nested <;> simp [check]
  | checkbox options => cases options <;> simp [check, Sound, parts]
  | text | toggle | button | static => simp [check, Sound, parts]

namespace Field

theorem check_eq_ok_iff_sound {f : Field} :
    f.check sectionKey = .ok () ↔
      f.Sound ∧ ∀ g ∈ f.kind.parts, g.check sectionKey = .ok () := by
  rw [check_eq_ok, checkName_eq_ok, FieldKind.check_eq_ok, checkBound_eq_ok_iff]
  exact ⟨fun ⟨nameKeyOnly, ⟨kind, inside⟩, named⟩ => ⟨⟨nameKeyOnly, named, kind⟩, inside⟩,
    fun ⟨sound, inside⟩ => ⟨sound.nameKeyOnly, ⟨sound.kind, inside⟩, sound.named⟩⟩

/-- A field passes its check exactly if it and all fields in it have what they have to have. -/
theorem check_eq_ok_iff_contains {f : Field} :
    f.check sectionKey = .ok () ↔ ∀ g, f.Contains g → g.Sound := by
  constructor
  · intro checked g contains
    induction contains with
    | itself f => exact (check_eq_ok_iff_sound.mp checked).1
    | inside part _ ih => exact ih ((check_eq_ok_iff_sound.mp checked).2 _ part)
  · intro sound
    refine check_eq_ok_iff_sound.mpr ⟨sound f (.itself f), fun g part => ?_⟩
    have smaller := sizeOf_lt_of_part part
    exact check_eq_ok_iff_contains.mpr fun h further => sound h (.inside part further)
termination_by sizeOf f

end Field

/-! ## Sections -/

namespace FormSection

def fillIds (sectionIndex : Nat) (part : FormSection) : FormSection :=
  { part with fields := part.fields.mapIdx (Field.fillId sectionIndex) }

def buttonIds (part : FormSection) : List ButtonId := part.fields.filterMap Field.buttonId?

/-- The keys of the sections differ, every field in them has what it has to have, and the ids of the
    buttons differ once they are filled in. -/
structure WellFormed (sections : List FormSection) : Prop where
  keysDiffer : (sections.map backendKey).Nodup
  fieldsSound : ∀ part ∈ sections, ∀ f ∈ part.fields, ∀ g, f.Contains g → g.Sound
  idsDiffer : ((sections.mapIdx fillIds).flatMap buttonIds).Nodup

end FormSection

namespace Schema

variable {ids idsAfter : List ButtonId} {keys : List String}

/-- Fields are built if they pass their checks and no id of theirs occurs twice or was there
    before. -/
theorem buildFields_eq_ok {sectionIndex fieldIndex : Nat} {fields built : List Field}
    (differ : ids.Nodup) :
    buildFields sectionKey sectionIndex fieldIndex ids fields = .ok (built, idsAfter) ↔
      (∀ f ∈ fields, f.check sectionKey = .ok ()) ∧
        built = fields.mapIdx (fun i => Field.fillId sectionIndex (fieldIndex + i)) ∧
        idsAfter = (built.filterMap Field.buttonId?).reverse ++ ids ∧ idsAfter.Nodup := by
  induction fields generalizing fieldIndex ids built with
  | nil =>
      simp only [buildFields, Except.ok.injEq, Prod.mk.injEq, List.not_mem_nil, false_implies,
        implies_true, true_and, List.mapIdx_nil]
      constructor
      · rintro ⟨rfl, rfl⟩
        exact ⟨rfl, rfl, differ⟩
      · rintro ⟨rfl, rfl, -⟩
        exact ⟨rfl, rfl⟩
  | cons f rest ih =>
      have filled : rest.mapIdx (fun i => Field.fillId sectionIndex (fieldIndex + (i + 1))) =
          rest.mapIdx (fun i => Field.fillId sectionIndex (fieldIndex + 1 + i)) := by
        simp only [Nat.add_comm 1, Nat.add_assoc]
      rw [buildFields_cons, List.forall_mem_cons, List.mapIdx_cons, filled, Nat.add_zero, and_assoc]
      refine and_congr_right fun _ => ?_
      generalize f.fillId sectionIndex fieldIndex = g
      have collected (others : List Field) :
          ((g :: others).filterMap Field.buttonId?).reverse ++ ids =
            (others.filterMap Field.buttonId?).reverse ++ (g.buttonId?.toList ++ ids) := by
        cases hasId : g.buttonId? <;> simp [hasId]
      have fresh_iff : (∀ id, g.buttonId? = some id → id ∉ ids) ↔
          (g.buttonId?.toList ++ ids).Nodup := by
        cases g.buttonId? <;> simp [differ]
      rw [fresh_iff]
      constructor
      · rintro ⟨fresh, others, rfl, restAccepted⟩
        obtain ⟨checked, rfl, rfl, differAfter⟩ := (ih fresh).mp restAccepted
        exact ⟨checked, rfl, (collected _).symm, differAfter⟩
      · rintro ⟨checked, rfl, rfl, differAfter⟩
        rw [collected] at differAfter
        have fresh : (g.buttonId?.toList ++ ids).Nodup := (List.nodup_append.mp differAfter).2.1
        exact ⟨fresh, _, rfl, (ih fresh).mpr ⟨checked, rfl, collected _, collected _ ▸ differAfter⟩⟩

theorem buildSections_cons {sectionIndex : Nat} {part : FormSection}
    {rest built : List FormSection} :
    buildSections sectionIndex keys ids (part :: rest) = .ok built ↔
      part.backendKey ∉ keys ∧ ∃ fields idsBetween others,
        buildFields part.backendKey sectionIndex 0 ids part.fields = .ok (fields, idsBetween) ∧
        buildSections (sectionIndex + 1) (part.backendKey :: keys) idsBetween rest = .ok others ∧
        built = { part with fields := fields } :: others := by
  rw [buildSections]
  by_cases taken : part.backendKey ∈ keys
  · simp [taken]
  · simp only [taken, if_false, not_false_eq_true, true_and, bind_eq_ok, Prod.exists]
    constructor
    · rintro ⟨fields, idsBetween, fieldsAccepted, others, restAccepted, accepted⟩
      cases accepted
      exact ⟨fields, idsBetween, others, fieldsAccepted, restAccepted, rfl⟩
    · rintro ⟨fields, idsBetween, others, fieldsAccepted, restAccepted, rfl⟩
      exact ⟨fields, idsBetween, fieldsAccepted, others, restAccepted, rfl⟩

theorem buildSections_eq_ok {sectionIndex : Nat} {sections built : List FormSection}
    (keysDiffer : keys.Nodup) (idsDiffer : ids.Nodup) :
    buildSections sectionIndex keys ids sections = .ok built ↔
      (∀ part ∈ sections, ∀ f ∈ part.fields, f.check part.backendKey = .ok ()) ∧
        built = sections.mapIdx (fun i => FormSection.fillIds (sectionIndex + i)) ∧
        ((sections.map FormSection.backendKey).reverse ++ keys).Nodup ∧
        ((built.flatMap FormSection.buttonIds).reverse ++ ids).Nodup := by
  -- Keys and ids of the sections so far are put before those that were there, and no such list
  -- repeats one.
  induction sections generalizing sectionIndex keys ids built with
  | nil =>
      simp only [buildSections, Except.ok.injEq, List.not_mem_nil, false_implies,
        implies_true, true_and, List.mapIdx_nil]
      constructor
      · rintro rfl
        exact ⟨rfl, keysDiffer, idsDiffer⟩
      · rintro ⟨rfl, -⟩
        rfl
  | cons part rest ih =>
      have filled : rest.mapIdx (fun i => FormSection.fillIds (sectionIndex + (i + 1))) =
          rest.mapIdx (fun i => FormSection.fillIds (sectionIndex + 1 + i)) := by
        simp only [Nat.add_comm 1, Nat.add_assoc]
      have firstFilled : FormSection.fillIds (sectionIndex + 0) part =
          { part with
            fields := part.fields.mapIdx (fun i => Field.fillId sectionIndex (0 + i)) } := by
        simp only [FormSection.fillIds, Nat.zero_add, Nat.add_zero]
      rw [buildSections_cons, List.forall_mem_cons, List.mapIdx_cons, filled, firstFilled]
      simp only [List.map_cons, List.reverse_cons, List.append_assoc, List.singleton_append]
      constructor
      · rintro ⟨newKey, fields, idsBetween, others, fieldsAccepted, restAccepted, rfl⟩
        obtain ⟨checked, rfl, rfl, differ⟩ := (buildFields_eq_ok idsDiffer).mp fieldsAccepted
        obtain ⟨restChecked, rfl, keysDifferAfter, idsDifferAfter⟩ :=
          (ih (List.nodup_cons.mpr ⟨newKey, keysDiffer⟩) differ).mp restAccepted
        refine ⟨⟨checked, restChecked⟩, rfl, keysDifferAfter, ?_⟩
        rwa [List.flatMap_cons, List.reverse_append, List.append_assoc]
      · rintro ⟨⟨checked, restChecked⟩, rfl, keysDifferAfter, idsDifferAfter⟩
        rw [List.flatMap_cons, List.reverse_append, List.append_assoc] at idsDifferAfter
        have keysUpToHere := (List.nodup_append.mp keysDifferAfter).2.1
        have idsUpToHere := (List.nodup_append.mp idsDifferAfter).2.1
        exact ⟨(List.nodup_cons.mp keysUpToHere).1, _, _, _,
          (buildFields_eq_ok idsDiffer).mpr ⟨checked, rfl, rfl, idsUpToHere⟩,
          (ih keysUpToHere idsUpToHere).mpr ⟨restChecked, rfl, keysDifferAfter, idsDifferAfter⟩,
          rfl⟩

/-- A schema is built from well-formed sections and from no others, and all that building adds is
    the ids of buttons that have none. -/
theorem build_eq_ok {title backendKey : String} {sections : List FormSection} {s : Schema} :
    build title backendKey sections = .ok s ↔
      FormSection.WellFormed sections ∧
        s = ⟨title, backendKey, sections.mapIdx FormSection.fillIds⟩ := by
  have built (checked : List FormSection) : buildSections 0 [] [] sections = .ok checked ↔ _ :=
    buildSections_eq_ok List.nodup_nil List.nodup_nil
  simp only [Nat.zero_add, List.append_nil, (List.reverse_perm _).nodup_iff,
    Field.check_eq_ok_iff_contains] at built
  rw [build, bind_eq_ok]
  constructor
  · rintro ⟨checked, accepted, same⟩
    cases same
    obtain ⟨sound, rfl, keysDiffer, idsDiffer⟩ := (built checked).mp accepted
    exact ⟨⟨keysDiffer, sound, idsDiffer⟩, rfl⟩
  · rintro ⟨wellFormed, rfl⟩
    have accepted := (built _).mpr
      ⟨wellFormed.fieldsSound, rfl, wellFormed.keysDiffer, wellFormed.idsDiffer⟩
    exact ⟨_, accepted, rfl⟩

end Schema

/-! ## Gating -/

/-- What is done at every position with regard to it can be done before or after what is done
    regardless of it, if that makes no difference at any position. -/
theorem mapIdx_map_comm {α : Type} {f : Nat → α → α} {g : α → α}
    (comm : ∀ i x, f i (g x) = g (f i x)) (l : List α) :
    (l.map g).mapIdx f = (l.mapIdx f).map g := by
  refine List.ext_getElem? fun i => ?_
  simp only [List.getElem?_mapIdx, List.getElem?_map, Option.map_map, Function.comp_def, comm]

theorem mapIdx_mapIdx_self {α : Type} {f : Nat → α → α} (again : ∀ i x, f i (f i x) = f i x)
    (l : List α) : (l.mapIdx f).mapIdx f = l.mapIdx f := by
  refine List.ext_getElem? fun i => ?_
  simp only [List.getElem?_mapIdx, Option.map_map, Function.comp_def, again]

namespace Field

variable {paths : List AdminPath} {owner : List String}

theorem buttonId?_gate (f : Field) : (f.gate paths owner).buttonId? = f.buttonId? := by
  rw [buttonId?, buttonId?, gate_eq]
  cases f.kind <;> rfl

theorem button?_gate (sectionIndex fieldIndex : Nat) (f : Field) :
    (f.gate paths owner).button? sectionIndex fieldIndex = f.button? sectionIndex fieldIndex := by
  rw [button?, button?, gate_eq]
  cases f.kind <;> rfl

theorem isButton_gate (f : Field) : (f.gate paths owner).isButton = f.isButton := by
  rw [isButton, isButton, tag, gate_eq]
  exact congrArg (· == KindTag.button) (tag_gatedKind f.kind)

theorem fillId_gate (sectionIndex fieldIndex : Nat) (f : Field) :
    (f.gate paths owner).fillId sectionIndex fieldIndex =
      (f.fillId sectionIndex fieldIndex).gate paths owner := by
  cases kind : f.kind with
  | button action id =>
      cases id with
      | none =>
          simp only [fillId, gate_eq, mark_eq, kind, gatedKind]
          rfl
      | some id => simp [fillId, gate_eq, kind, gatedKind]
  | text | radio | checkbox | toggle | dynamic | static =>
      simp [fillId, gate_eq, kind, gatedKind]

theorem fillId_fillId (sectionIndex fieldIndex : Nat) (f : Field) :
    (f.fillId sectionIndex fieldIndex).fillId sectionIndex fieldIndex =
      f.fillId sectionIndex fieldIndex := by
  obtain ⟨name, label, tooltip, adminOnly, kind⟩ := f
  cases kind with
  | button action id => cases id <;> rfl
  | text | radio | checkbox | toggle | dynamic | static => rfl

end Field

namespace FormSection

def gateFields (paths : List AdminPath) (schemaKey : String) (part : FormSection) : FormSection :=
  { part with fields := part.fields.map (Field.gate paths (part.owner schemaKey)) }

variable {paths : List AdminPath} {schemaKey : String}

theorem buttonIds_gateFields (part : FormSection) :
    (part.gateFields paths schemaKey).buttonIds = part.buttonIds := by
  simp only [buttonIds, gateFields, List.filterMap_map, Function.comp_def, Field.buttonId?_gate]

theorem layout_gateFields (part : FormSection) :
    (part.gateFields paths schemaKey).layout = part.layout := by
  simp only [layout, gateFields, List.isEmpty_map, List.all_map, Function.comp_def,
    Field.isButton_gate]

theorem fillIds_gateFields (sectionIndex : Nat) (part : FormSection) :
    (part.gateFields paths schemaKey).fillIds sectionIndex =
      (part.fillIds sectionIndex).gateFields paths schemaKey := by
  have comm := mapIdx_map_comm (f := Field.fillId sectionIndex)
    (g := Field.gate paths (part.owner schemaKey)) (fun i f => f.fillId_gate sectionIndex i)
    part.fields
  simp only [fillIds, gateFields, comm]
  rfl

theorem fillIds_fillIds (sectionIndex : Nat) (part : FormSection) :
    (part.fillIds sectionIndex).fillIds sectionIndex = part.fillIds sectionIndex := by
  have again := mapIdx_mapIdx_self (fun i f => f.fillId_fillId sectionIndex i) part.fields
  simp only [fillIds, again]

theorem WellFormed.gateFields {sections : List FormSection} (wellFormed : WellFormed sections) :
    WellFormed (sections.map (FormSection.gateFields paths schemaKey)) where
  keysDiffer := by
    rw [List.map_map]
    exact wellFormed.keysDiffer
  fieldsSound part member f inPart := by
    obtain ⟨ungated, before, rfl⟩ := List.mem_map.mp member
    obtain ⟨g, inUngated, rfl⟩ := List.mem_map.mp inPart
    have checked : g.check "" = .ok () :=
      Field.check_eq_ok_iff_contains.mpr (wellFormed.fieldsSound ungated before g inUngated)
    exact Field.check_eq_ok_iff_contains.mp (Field.check_gate checked)
  idsDiffer := by
    rw [mapIdx_map_comm fillIds_gateFields, List.flatMap_map]
    simp only [buttonIds_gateFields]
    exact wellFormed.idsDiffer

end FormSection

namespace Schema

variable {paths : List AdminPath}

theorem fieldButtons_gate {owner : List String} (sectionIndex fieldIndex : Nat)
    (fields : List Field) :
    fieldButtons sectionIndex fieldIndex (fields.map (Field.gate paths owner)) =
      fieldButtons sectionIndex fieldIndex fields := by
  induction fields generalizing fieldIndex with
  | nil => rfl
  | cons f rest ih => rw [List.map_cons, fieldButtons, fieldButtons, Field.button?_gate, ih]

theorem sectionButtons_gateFields {schemaKey : String} (sectionIndex : Nat)
    (sections : List FormSection) :
    sectionButtons sectionIndex (sections.map (FormSection.gateFields paths schemaKey)) =
      sectionButtons sectionIndex sections := by
  induction sections generalizing sectionIndex with
  | nil => rfl
  | cons part rest ih =>
      rw [List.map_cons, sectionButtons, sectionButtons, ih]
      exact congrArg (· ++ _) (fieldButtons_gate sectionIndex 0 part.fields)

def gateAll (gatings : List (List AdminPath)) (s : Schema) : Schema :=
  gatings.foldl (fun gated paths => gated.gate paths) s

theorem sections_gate_eq (s : Schema) :
    (s.gate paths).sections = s.sections.map (FormSection.gateFields paths s.backendKey) :=
  s.sections_gate paths

/-- A schema in hand: its sections are well-formed and none of its buttons lacks an id. -/
structure WellFormed (s : Schema) : Prop where
  sections : FormSection.WellFormed s.sections
  filled : s.sections.mapIdx FormSection.fillIds = s.sections

theorem WellFormed.gate {s : Schema} (wellFormed : s.WellFormed) : (s.gate paths).WellFormed where
  sections := by
    rw [sections_gate_eq]
    exact wellFormed.sections.gateFields
  filled := by
    rw [sections_gate_eq, mapIdx_map_comm FormSection.fillIds_gateFields, wellFormed.filled]

/-- What gating leaves as it was. -/
structure SameFrame (s t : Schema) : Prop where
  buttons : t.buttons = s.buttons
  keys : t.sections.map FormSection.backendKey = s.sections.map FormSection.backendKey
  layouts : t.sections.map FormSection.layout = s.sections.map FormSection.layout

theorem sameFrame_gate (s : Schema) : s.SameFrame (s.gate paths) where
  buttons := by
    rw [buttons, sections_gate_eq]
    exact sectionButtons_gateFields 0 s.sections
  keys := by
    rw [sections_gate_eq, List.map_map]
    rfl
  layouts := by
    rw [sections_gate_eq, List.map_map]
    exact List.map_congr_left fun part _ => part.layout_gateFields

theorem SameFrame.trans {s t u : Schema} (first : s.SameFrame t) (second : t.SameFrame u) :
    s.SameFrame u :=
  ⟨second.buttons.trans first.buttons, second.keys.trans first.keys,
    second.layouts.trans first.layouts⟩

theorem gateAll_keeps (gatings : List (List AdminPath)) {s : Schema} (wellFormed : s.WellFormed) :
    (s.gateAll gatings).WellFormed ∧ s.SameFrame (s.gateAll gatings) := by
  induction gatings generalizing s with
  | nil => exact ⟨wellFormed, rfl, rfl, rfl⟩
  | cons paths rest ih =>
      obtain ⟨gatedWellFormed, gatedFrame⟩ := ih wellFormed.gate
      exact ⟨gatedWellFormed, (sameFrame_gate s).trans gatedFrame⟩

theorem wellFormed_of_build {title backendKey : String} {sections : List FormSection} {s : Schema}
    (accepted : build title backendKey sections = .ok s) : s.WellFormed := by
  have checked := (Obtainable.built accepted).checked
  obtain ⟨wellFormed, rfl⟩ := build_eq_ok.mp accepted
  have filled := mapIdx_mapIdx_self FormSection.fillIds_fillIds sections
  have sameKeys : (sections.mapIdx FormSection.fillIds).map FormSection.backendKey =
      sections.map FormSection.backendKey := by
    refine List.ext_getElem? fun i => ?_
    simp only [List.getElem?_map, List.getElem?_mapIdx, Option.map_map]
    rfl
  refine ⟨⟨?_, fun part member f inPart => ?_, ?_⟩, filled⟩
  · rw [sameKeys]
    exact wellFormed.keysDiffer
  · exact Field.check_eq_ok_iff_contains.mp (checked part member f inPart)
  · rw [filled]
    exact wellFormed.idsDiffer

/-- Well-formed sections and no others are accepted. What is built of them differs by the ids of
    buttons that have none, and however often it is gated, it stays well-formed and keeps its
    buttons, section keys and layouts. -/
theorem build_accepts_well_formed (title backendKey : String) (sections : List FormSection) :
    ((∃ s, build title backendKey sections = .ok s) ↔ FormSection.WellFormed sections) ∧
    ∀ s, build title backendKey sections = .ok s →
      s = ⟨title, backendKey, sections.mapIdx FormSection.fillIds⟩ ∧
      ∀ gatings : List (List AdminPath),
        (s.gateAll gatings).WellFormed ∧ s.SameFrame (s.gateAll gatings) := by
  constructor
  · exact ⟨fun ⟨s, accepted⟩ => (build_eq_ok.mp accepted).1,
      fun wellFormed => ⟨_, build_eq_ok.mpr ⟨wellFormed, rfl⟩⟩⟩
  · intro s accepted
    exact ⟨(build_eq_ok.mp accepted).2, fun gatings =>
      gateAll_keeps gatings (wellFormed_of_build accepted)⟩

/-- A group of steps, each with a radio that may reveal a delay, and a row of buttons without
    ids. -/
def stepped : List FormSection :=
  [⟨none, "a",
      [⟨some ⟨"a", [.key "steps"]⟩, "Steps", none, false, .dynamic [⟨mode, false⟩] "Add"⟩]⟩,
    ⟨none, "row", [⟨none, "Back", none, false, .button .previous none⟩,
      ⟨none, "Save", none, false, .button .submit none⟩]⟩]
where
  delay : Field := ⟨some ⟨"delay", []⟩, "Delay", none, false, .text .number none⟩
  mode : Field :=
    ⟨some ⟨"mode", []⟩, "Mode", none, false, .radio [⟨"Later", .bool true, some delay⟩]⟩

/-- Gated twice, the steps have the buttons that they were built with. -/
theorem stepped_keeps_buttons :
    ∃ s, build "Steps" "S" stepped = .ok s ∧
      (s.gateAll [[⟨["S", "a"]⟩], [⟨["S"]⟩]]).WellFormed ∧
      (s.gateAll [[⟨["S", "a"]⟩], [⟨["S"]⟩]]).buttons =
        [⟨1, 0, "1:0:PREVIOUS", .previous⟩, ⟨1, 1, "1:1:SUBMIT", .submit⟩] := by
  obtain ⟨-, built⟩ := build_accepts_well_formed "Steps" "S" stepped
  have accepted : build "Steps" "S" stepped =
      .ok ⟨"Steps", "S", stepped.mapIdx FormSection.fillIds⟩ := rfl
  obtain ⟨-, kept⟩ := built _ accepted
  obtain ⟨wellFormed, frame⟩ := kept [[⟨["S", "a"]⟩], [⟨["S"]⟩]]
  exact ⟨_, accepted, wellFormed, frame.buttons.trans rfl⟩

end Schema

end GatedForms

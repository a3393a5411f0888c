import GatedForms.Proofs.Schema.Buttons

/-! # Clashes of button ids

A schema is refused for an id exactly if some button has an id that a button before it has, and all
that stands before the second of the two is in order. Ids of places never clash among themselves, so
one of the two buttons declares its id.
-/

namespace GatedForms

variable {sectionKey : String} {id : ButtonId}

/-! ## What field checks do not report -/

theorem Field.checkName_ne_duplicateButton (f : Field) :
    f.checkName sectionKey ≠ .error (.duplicateButton id) := by
  unfold checkName
  split
  · nofun
  · split <;> nofun

theorem Field.checkBound_ne_duplicateButton (f : Field) :
    f.checkBound ≠ .error (.duplicateButton id) := by
  unfold checkBound
  split <;> nofun

mutual

theorem Field.check_ne_duplicateButton (f : Field) :
    f.check sectionKey ≠ .error (.duplicateButton id) := by
  obtain ⟨name, label, tooltip, adminOnly, kind⟩ := f
  intro failed
  rw [Field.check, check_bind_eq_error] at failed
  rcases failed with failed | ⟨-, failed⟩
  · exact Field.checkName_ne_duplicateButton _ failed
  · rw [check_bind_eq_error] at failed
    rcases failed with failed | ⟨-, failed⟩
    · exact FieldKind.check_ne_duplicateButton kind _ failed
    · exact Field.checkBound_ne_duplicateButton _ failed

theorem FieldKind.check_ne_duplicateButton (kind : FieldKind) (owner : String) :
    kind.check sectionKey owner ≠ .error (.duplicateButton id) := by
  cases kind with
  | radio options =>
      rw [FieldKind.check]
      split
      · nofun
      · exact FieldOption.checkRevealed_ne_duplicateButton options
  | dynamic nested addButtonLabel =>
      rw [FieldKind.check]
      split
      · nofun
      · exact NestedField.checkAll_ne_duplicateButton nested
  | checkbox options =>
      cases options with
      | none => nofun
      | some options =>
          rw [FieldKind.check]
          split <;> nofun
  | text | toggle | button | static => nofun

theorem FieldOption.checkRevealed_ne_duplicateButton (options : List FieldOption) :
    FieldOption.checkRevealed sectionKey options ≠ .error (.duplicateButton id) := by
  match options with
  | [] => nofun
  | ⟨_, _, none⟩ :: rest => exact FieldOption.checkRevealed_ne_duplicateButton rest
  | ⟨_, _, some f⟩ :: rest =>
      intro failed
      rw [FieldOption.checkRevealed, check_bind_eq_error] at failed
      rcases failed with failed | ⟨-, failed⟩
      · exact f.check_ne_duplicateButton failed
      · exact FieldOption.checkRevealed_ne_duplicateButton rest failed

theorem NestedField.checkAll_ne_duplicateButton (nested : List NestedField) :
    NestedField.checkAll sectionKey nested ≠ .error (.duplicateButton id) := by
  match nested with
  | [] => nofun
  | ⟨f, _⟩ :: rest =>
      intro failed
      rw [NestedField.checkAll] at failed
      split at failed
      · rw [check_bind_eq_error] at failed
        rcases failed with failed | ⟨-, failed⟩
        · exact f.check_ne_duplicateButton failed
        · exact NestedField.checkAll_ne_duplicateButton rest failed
      · nomatch failed

end

/-! ## The buttons of a document -/

def ButtonPlace.Before (first second : ButtonPlace) : Prop :=
  first.sectionIndex < second.sectionIndex ∨
    first.sectionIndex = second.sectionIndex ∧ first.fieldIndex < second.fieldIndex

namespace FormSection

/-- The buttons of a document, each with its own id or with that of its place. -/
def buttonPlaces (sections : List FormSection) : List ButtonPlace :=
  Schema.sectionButtons 0 (sections.mapIdx fillIds)

/-- The button at a place declares the id that it goes by. -/
def Declares (sections : List FormSection) (place : ButtonPlace) : Prop :=
  ∃ part f, sections[place.sectionIndex]? = some part ∧ part.fields[place.fieldIndex]? = some f ∧
    f.kind = .button place.action (some place.id)

/-- What stands before a field: the sections before its own, and the fields before it. -/
def upTo : (sectionIndex fieldIndex : Nat) → List FormSection → List FormSection
  | _, _, [] => []
  | 0, fieldIndex, part :: _ => [{ part with fields := part.fields.take fieldIndex }]
  | sectionIndex + 1, fieldIndex, part :: rest => part :: upTo sectionIndex fieldIndex rest

theorem getElem?_upTo (i j k : Nat) (sections : List FormSection) :
    (upTo i j sections)[k]? =
      if k < i then sections[k]?
      else if k = i then sections[k]?.map fun part => { part with fields := part.fields.take j }
      else none := by
  induction sections generalizing i k with
  | nil => simp [upTo]
  | cons part rest ih =>
      cases i with
      | zero => cases k <;> simp [upTo]
      | succ i => cases k <;> simp [upTo, ih]

theorem mem_buttonPlaces {sections : List FormSection} {place : ButtonPlace} :
    place ∈ buttonPlaces sections ↔
      ∃ part f declared, sections[place.sectionIndex]? = some part ∧
        part.fields[place.fieldIndex]? = some f ∧ f.kind = .button place.action declared ∧
        place.id = declared.getD
          (ButtonId.derived place.sectionIndex place.fieldIndex place.action) := by
  rw [buttonPlaces, Schema.mem_sectionButtons_zero]
  simp only [List.getElem?_mapIdx, Option.map_eq_some_iff]
  constructor
  · rintro ⟨_, _, ⟨part, atSection, rfl⟩, atField, isButton⟩
    simp only [fillIds, List.getElem?_mapIdx, Option.map_eq_some_iff] at atField
    obtain ⟨f, atField, rfl⟩ := atField
    unfold Field.fillId at isButton
    split at isButton
    · next action undeclared =>
      simp only [FieldKind.button.injEq, Option.some.injEq] at isButton
      obtain ⟨rfl, sameId⟩ := isButton
      exact ⟨part, f, none, atSection, atField, undeclared, sameId.symm⟩
    · exact ⟨part, f, _, atSection, atField, isButton, rfl⟩
  · rintro ⟨part, f, declared, atSection, atField, isButton, sameId⟩
    refine ⟨_, f.fillId place.sectionIndex place.fieldIndex, ⟨part, atSection, rfl⟩, ?_, ?_⟩
    · simp only [fillIds, List.getElem?_mapIdx, atField, Option.map_some]
    · cases declared <;> simp [Field.fillId, isButton, sameId]

/-- The buttons up to a place are those before it. -/
theorem mem_buttonPlaces_upTo {sections : List FormSection} {place second : ButtonPlace} :
    place ∈ buttonPlaces (upTo second.sectionIndex second.fieldIndex sections) ↔
      place ∈ buttonPlaces sections ∧ place.Before second := by
  simp only [mem_buttonPlaces, getElem?_upTo, ButtonPlace.Before]
  rcases Nat.lt_trichotomy place.sectionIndex second.sectionIndex with less | same | more
  · simp [less]
  · rw [if_neg (Nat.not_lt_of_le (Nat.le_of_eq same.symm)), if_pos same]
    constructor
    · rintro ⟨_, f, declared, atSection, atField, isButton, sameId⟩
      obtain ⟨part, inSections, rfl⟩ := Option.map_eq_some_iff.mp atSection
      rw [List.getElem?_take] at atField
      obtain ⟨inside, atField⟩ := Option.ite_none_right_eq_some.mp atField
      exact ⟨⟨part, f, declared, inSections, atField, isButton, sameId⟩, .inr ⟨same, inside⟩⟩
    · rintro ⟨⟨part, f, declared, atSection, atField, isButton, sameId⟩, before⟩
      have inside : place.fieldIndex < second.fieldIndex := by omega
      refine ⟨_, f, declared, Option.map_eq_some_iff.mpr ⟨part, atSection, rfl⟩, ?_, isButton,
        sameId⟩
      rw [List.getElem?_take, if_pos inside, atField]
  · simp [Nat.not_lt_of_lt more, Nat.ne_of_gt more]

theorem map_id_buttonPlaces (sections : List FormSection) :
    (buttonPlaces sections).map ButtonPlace.id = (sections.mapIdx fillIds).flatMap buttonIds :=
  Schema.map_id_sectionButtons 0 _

end FormSection

/-! ## Where building stops -/

namespace Schema

variable {ids : List ButtonId} {keys : List String}

theorem buildFields_cons_eq_duplicate {i j : Nat} {f : Field} {rest : List Field} :
    buildFields sectionKey i j ids (f :: rest) = .error (.duplicateButton id) ↔
      f.check sectionKey = .ok () ∧
        ((f.fillId i j).buttonId? = some id ∧ id ∈ ids ∨
          (∀ own, (f.fillId i j).buttonId? = some own → own ∉ ids) ∧
            buildFields sectionKey i (j + 1) ((f.fillId i j).buttonId?.toList ++ ids) rest =
              .error (.duplicateButton id)) := by
  have behind (idsBetween : List ButtonId) :
      (buildFields sectionKey i (j + 1) idsBetween rest >>= fun after =>
        .ok (f.fillId i j :: after.1, after.2)) = .error (.duplicateButton id) ↔
      buildFields sectionKey i (j + 1) idsBetween rest = .error (.duplicateButton id) := by
    rw [bind_eq_error]
    simp
  rw [buildFields, check_bind_eq_error, or_iff_right f.check_ne_duplicateButton]
  refine and_congr_right fun _ => ?_
  cases hasId : (f.fillId i j).buttonId? with
  | none =>
      simp only [hasId, reduceCtorEq, false_and, false_implies, implies_true, true_and, false_or,
        Option.toList_none, List.nil_append]
      exact behind ids
  | some own =>
      simp only [hasId, Option.some.injEq, forall_eq', Option.toList_some, List.singleton_append]
      by_cases taken : own ∈ ids
      · simp only [taken, if_true, not_true_eq_false, false_and, or_false]
        constructor
        · intro failed
          cases failed
          exact ⟨rfl, taken⟩
        · rintro ⟨rfl, -⟩
          rfl
      · simp only [taken, if_false, not_false_eq_true, true_and]
        refine (behind (own :: ids)).trans (or_iff_right ?_).symm
        rintro ⟨rfl, alsoTaken⟩
        exact taken alsoTaken

/-- Fields are refused for an id at the first of them that has the id of one before it. -/
theorem buildFields_eq_duplicate {i j : Nat} {fields : List Field} :
    buildFields sectionKey i j ids fields = .error (.duplicateButton id) ↔
      ∃ k f built idsBefore, fields[k]? = some f ∧
        buildFields sectionKey i j ids (fields.take k) = .ok (built, idsBefore) ∧
        f.check sectionKey = .ok () ∧ (f.fillId i (j + k)).buttonId? = some id ∧
        id ∈ idsBefore := by
  induction fields generalizing j ids with
  | nil => simp [buildFields]
  | cons f rest ih =>
      have further (k : Nat) : j + 1 + k = j + (k + 1) := by omega
      rw [buildFields_cons_eq_duplicate, ih]
      simp only [further]
      constructor
      · rintro ⟨checked, ⟨hasId, taken⟩ |
          ⟨fresh, k, g, built, idsBefore, atPlace, before, gChecked, hasId, taken⟩⟩
        · exact ⟨0, f, [], ids, rfl, rfl, checked, hasId, taken⟩
        · exact ⟨k + 1, g, _, idsBefore, atPlace,
            buildFields_cons.mpr ⟨checked, fresh, built, rfl, before⟩, gChecked, hasId, taken⟩
      · rintro ⟨k, g, built, idsBefore, atPlace, before, gChecked, hasId, taken⟩
        cases k with
        | zero =>
            cases atPlace
            cases before
            exact ⟨gChecked, .inl ⟨hasId, taken⟩⟩
        | succ k =>
            obtain ⟨checked, fresh, others, rfl, restBefore⟩ := buildFields_cons.mp before
            exact ⟨checked, .inr
              ⟨fresh, k, g, others, idsBefore, atPlace, restBefore, gChecked, hasId, taken⟩⟩

theorem buildSections_cons_eq_duplicate {i : Nat} {part : FormSection} {rest : List FormSection} :
    buildSections i keys ids (part :: rest) = .error (.duplicateButton id) ↔
      part.backendKey ∉ keys ∧
        (buildFields part.backendKey i 0 ids part.fields = .error (.duplicateButton id) ∨
          ∃ fields idsBetween,
            buildFields part.backendKey i 0 ids part.fields = .ok (fields, idsBetween) ∧
            buildSections (i + 1) (part.backendKey :: keys) idsBetween rest =
              .error (.duplicateButton id)) := by
  rw [buildSections]
  by_cases taken : part.backendKey ∈ keys
  · simp [taken]
  · simp [taken, bind_eq_error]

/-- Sections are refused for an id at the first field that has the id of one before it. The ids up
    to a field are those of the buttons before it, behind those that were there. -/
theorem buildSections_eq_duplicate {i : Nat} {sections : List FormSection} (differ : ids.Nodup) :
    buildSections i keys ids sections = .error (.duplicateButton id) ↔
      ∃ k l part f built, sections[k]? = some part ∧ part.fields[l]? = some f ∧
        buildSections i keys ids (FormSection.upTo k l sections) = .ok built ∧
        f.check part.backendKey = .ok () ∧ (f.fillId (i + k) l).buttonId? = some id ∧
        id ∈ (built.flatMap FormSection.buttonIds).reverse ++ ids := by
  induction sections generalizing i keys ids with
  | nil => simp [buildSections]
  | cons part rest ih =>
      have further (k : Nat) : i + 1 + k = i + (k + 1) := by omega
      have collected (fields : List Field) (others : List FormSection) :
          ((({ part with fields := fields } : FormSection) :: others).flatMap
            FormSection.buttonIds).reverse ++ ids =
          (others.flatMap FormSection.buttonIds).reverse ++
            ((fields.filterMap Field.buttonId?).reverse ++ ids) := by
        rw [List.flatMap_cons, List.reverse_append, List.append_assoc]
        rfl
      rw [buildSections_cons_eq_duplicate, buildFields_eq_duplicate]
      constructor
      · rintro ⟨newKey, ⟨l, f, fields, idsBefore, atField, before, checked, hasId, taken⟩ |
          ⟨fields, idsBetween, fieldsAccepted, failed⟩⟩
        · obtain ⟨-, -, sameIds, -⟩ := (buildFields_eq_ok differ).mp before
          refine ⟨0, l, part, f, [{ part with fields := fields }], rfl, atField,
            buildSections_cons.mpr ⟨newKey, fields, idsBefore, [], before, rfl, rfl⟩, checked,
            by rwa [Nat.zero_add] at hasId, ?_⟩
          rw [collected, ← sameIds]
          exact taken
        · obtain ⟨-, -, sameIds, differBetween⟩ := (buildFields_eq_ok differ).mp fieldsAccepted
          obtain ⟨k, l, other, f, built, atSection, atField, before, checked, hasId, taken⟩ :=
            (ih differBetween).mp failed
          refine ⟨k + 1, l, other, f, { part with fields := fields } :: built, atSection, atField,
            buildSections_cons.mpr
              ⟨newKey, fields, idsBetween, built, fieldsAccepted, before, rfl⟩, checked,
            by rwa [further] at hasId, ?_⟩
          rw [collected, ← sameIds]
          exact taken
      · rintro ⟨k, l, other, f, built, atSection, atField, before, checked, hasId, taken⟩
        cases k with
        | zero =>
            cases atSection
            obtain ⟨newKey, fields, idsBefore, others, fieldsAccepted, restAccepted, rfl⟩ :=
              buildSections_cons.mp before
            cases restAccepted
            obtain ⟨-, -, sameIds, -⟩ := (buildFields_eq_ok differ).mp fieldsAccepted
            rw [collected, ← sameIds] at taken
            refine ⟨newKey, .inl ⟨l, f, fields, idsBefore, atField, fieldsAccepted, checked, ?_,
              taken⟩⟩
            rwa [Nat.zero_add]
        | succ k =>
            obtain ⟨newKey, fields, idsBetween, others, fieldsAccepted, restAccepted, rfl⟩ :=
              buildSections_cons.mp before
            obtain ⟨-, -, sameIds, differBetween⟩ := (buildFields_eq_ok differ).mp fieldsAccepted
            rw [collected, ← sameIds] at taken
            refine ⟨newKey, .inr ⟨fields, idsBetween, fieldsAccepted, (ih differBetween).mpr
              ⟨k, l, other, f, others, atSection, atField, restAccepted, checked, ?_, taken⟩⟩⟩
            rwa [further]

end Schema

/-! ## Two buttons of one id -/

theorem Field.buttonId?_fillId {i j : Nat} {f : Field} :
    (f.fillId i j).buttonId? = some id ↔
      ∃ action declared, f.kind = .button action declared ∧
        id = declared.getD (ButtonId.derived i j action) := by
  unfold fillId buttonId?
  cases isKind : f.kind with
  | button action declared => cases declared <;> simp [isKind, eq_comm]
  | text | radio | checkbox | toggle | dynamic | static => simp [isKind]

namespace FormSection

/-- The button at the second place has the id of the one at the first, and there is nothing wrong
    before. -/
structure Clash (sections : List FormSection) (first second : ButtonPlace) : Prop where
  firstStands : first ∈ buttonPlaces sections
  secondStands : second ∈ buttonPlaces sections
  before : first.Before second
  sameId : first.id = second.id
  accepted : WellFormed (upTo second.sectionIndex second.fieldIndex sections)
  sound : ∀ part f, sections[second.sectionIndex]? = some part →
    part.fields[second.fieldIndex]? = some f → f.Sound

/-- Ids of two places differ, so one of two ids that clash is declared. -/
theorem Clash.declares {sections : List FormSection} {first second : ButtonPlace}
    (clash : Clash sections first second) :
    Declares sections first ∨ Declares sections second := by
  obtain ⟨part, f, declared, atSection, atField, isButton, ownId⟩ :=
    mem_buttonPlaces.mp clash.firstStands
  obtain ⟨otherPart, g, otherDeclared, atOtherSection, atOtherField, isOther, otherId⟩ :=
    mem_buttonPlaces.mp clash.secondStands
  cases declared with
  | some own =>
      cases ownId
      exact .inl ⟨part, f, atSection, atField, isButton⟩
  | none =>
      cases otherDeclared with
      | some own =>
          cases otherId
          exact .inr ⟨otherPart, g, atOtherSection, atOtherField, isOther⟩
      | none =>
          have sameDerived := ownId.symm.trans (clash.sameId.trans otherId)
          obtain ⟨sameSection, sameField, -⟩ := ButtonId.derived_inj.mp sameDerived
          rcases clash.before with less | ⟨-, less⟩ <;> omega

end FormSection

namespace Schema

open FormSection

theorem buildSections_zero_eq_ok {sections built : List FormSection} :
    buildSections 0 [] [] sections = .ok built ↔
      FormSection.WellFormed sections ∧ built = sections.mapIdx fillIds := by
  have accepted : build "" "" sections = .ok ⟨"", "", built⟩ ↔ _ := build_eq_ok
  rw [build, bind_eq_ok] at accepted
  simpa using accepted

theorem build_eq_duplicate {title backendKey : String} {sections : List FormSection} :
    build title backendKey sections = .error (.duplicateButton id) ↔
      ∃ first second, Clash sections first second ∧ second.id = id := by
  have stopped : build title backendKey sections = .error (.duplicateButton id) ↔
      buildSections 0 [] [] sections = .error (.duplicateButton id) := by
    rw [build, bind_eq_error]
    simp
  rw [stopped, buildSections_eq_duplicate List.nodup_nil]
  simp only [Nat.zero_add, List.append_nil, List.mem_reverse, buildSections_zero_eq_ok]
  constructor
  · rintro ⟨i, j, part, f, _, atSection, atField, ⟨accepted, rfl⟩, checked, hasId, taken⟩
    obtain ⟨action, declared, isButton, ownId⟩ := Field.buttonId?_fillId.mp hasId
    rw [← map_id_buttonPlaces] at taken
    obtain ⟨first, standsBefore, firstId⟩ := List.mem_map.mp taken
    let second : ButtonPlace := ⟨i, j, id, action⟩
    obtain ⟨firstStands, before⟩ : first ∈ buttonPlaces sections ∧ first.Before second :=
      mem_buttonPlaces_upTo.mp standsBefore
    have secondStands : second ∈ buttonPlaces sections :=
      mem_buttonPlaces.mpr ⟨part, f, declared, atSection, atField, isButton, ownId⟩
    refine ⟨first, second, ⟨firstStands, secondStands, before, firstId, accepted, ?_⟩, rfl⟩
    intro other g inSections inFields
    cases atSection.symm.trans inSections
    cases atField.symm.trans inFields
    exact (Field.check_eq_ok_iff_sound.mp checked).1
  · rintro ⟨first, second, clash, rfl⟩
    obtain ⟨part, f, declared, atSection, atField, isButton, ownId⟩ :=
      mem_buttonPlaces.mp clash.secondStands
    have checked : f.check part.backendKey = .ok () := by
      refine Field.check_eq_ok_iff_sound.mpr ⟨clash.sound part f atSection atField, ?_⟩
      rw [isButton]
      intro g inside
      cases inside
    have hasId := Field.buttonId?_fillId.mpr ⟨_, declared, isButton, ownId⟩
    refine ⟨_, _, part, f, _, atSection, atField, ⟨clash.accepted, rfl⟩, checked, hasId, ?_⟩
    rw [← map_id_buttonPlaces]
    exact List.mem_map.mpr
      ⟨first, mem_buttonPlaces_upTo.mpr ⟨clash.firstStands, clash.before⟩, clash.sameId⟩

/-- The id of a place tells the place and the action. So a document that is refused for an id has a
    button that declares it: it is refused exactly if, with nothing wrong before, a button has the
    id of one that stands before it, and one of the two declares the id. -/
theorem clash_takes_declared_id (title backendKey : String) (sections : List FormSection) :
    (∀ i j a k l b, ButtonId.derived i j a = ButtonId.derived k l b ↔ i = k ∧ j = l ∧ a = b) ∧
    ∀ id, build title backendKey sections = .error (.duplicateButton id) ↔
      ∃ first second, Clash sections first second ∧ second.id = id ∧
        (Declares sections first ∨ Declares sections second) := by
  refine ⟨fun i j a k l b => ButtonId.derived_inj, fun id => build_eq_duplicate.trans ?_⟩
  constructor
  · rintro ⟨first, second, clash, sameId⟩
    exact ⟨first, second, clash, sameId, clash.declares⟩
  · rintro ⟨first, second, clash, sameId, -⟩
    exact ⟨first, second, clash, sameId⟩

/-- Two buttons in a row; the second one declares the id that the first one gets by its place. -/
def rivals : List FormSection :=
  [⟨none, "row", [⟨none, "Next", none, false, .button .next none⟩,
    ⟨none, "Skip", none, false, .button .custom (some "0:0:NEXT")⟩]⟩]

/-- The rivals are refused for the id that the second one declares. -/
theorem rivals_clash :
    let first : ButtonPlace := ⟨0, 0, "0:0:NEXT", .next⟩
    let second : ButtonPlace := ⟨0, 1, "0:0:NEXT", .custom⟩
    Clash rivals first second ∧ ¬ Declares rivals first ∧ Declares rivals second ∧
      build "Rivals" "R" rivals = .error (.duplicateButton "0:0:NEXT") := by
  intro first second
  have firstAccepted : build "Rivals" "R" (upTo 0 1 rivals) = .ok _ := rfl
  have clash : Clash rivals first second := by
    refine ⟨mem_buttonPlaces.mpr ⟨_, _, none, rfl, rfl, rfl, by decide⟩,
      mem_buttonPlaces.mpr ⟨_, _, some _, rfl, rfl, rfl, rfl⟩, .inr ⟨rfl, by decide⟩, rfl,
      (build_eq_ok.mp firstAccepted).1, ?_⟩
    rintro part f ⟨⟩ ⟨⟩
    exact (Field.check_eq_ok_iff_sound.mp (show Field.check "row" _ = .ok () from rfl)).1
  have declares : Declares rivals second := ⟨_, _, rfl, rfl, rfl⟩
  refine ⟨clash, ?_, declares, ?_⟩
  · rintro ⟨part, f, ⟨⟩, ⟨⟩, isButton⟩
    cases isButton
  · exact ((clash_takes_declared_id "Rivals" "R" rivals).2 _).mpr
      ⟨first, second, clash, rfl, .inr declares⟩

end Schema

end GatedForms

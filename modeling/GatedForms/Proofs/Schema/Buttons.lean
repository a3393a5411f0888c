import GatedForms.Proofs.Schema.WellFormed
import GatedForms.Proofs.Text
import Mathlib.Data.List.Nodup

/-! # Buttons and their ids

Each button of a section is listed once, at its place, and goes by its own id or by the one of its
place. In a well-formed schema the ids differ, so that looking one up leads back to its button. The
ids of different places differ from the start: an id ends its numbers by colons.
-/

namespace GatedForms

/-! ## Ids of places -/

theorem ButtonAction.name_injective {a b : ButtonAction} (same : a.name = b.name) : a = b := by
  cases a <;> cases b <;> first | rfl | exact absurd same (by decide)

namespace ButtonId

theorem toList_derived (i j : Nat) (a : ButtonAction) :
    (derived i j a).toList =
      Nat.toDigits 10 i ++ ':' :: (Nat.toDigits 10 j ++ ':' :: a.name.toList) := by
  have digits (n : Nat) : (toString n).toList = Nat.toDigits 10 n := Nat.toList_repr
  simp only [derived, String.toList_append, digits, List.append_assoc]
  rfl

/-- The id of a place tells the place and the action. -/
theorem derived_inj {i j k l : Nat} {a b : ButtonAction} :
    derived i j a = derived k l b ↔ i = k ∧ j = l ∧ a = b := by
  constructor
  · intro same
    have chars := congrArg String.toList same
    rw [toList_derived, toList_derived] at chars
    obtain ⟨sections, behind⟩ := Text.toDigits_append_inj rfl chars
    obtain ⟨fields, names⟩ := Text.toDigits_append_inj rfl behind
    exact ⟨sections, fields, ButtonAction.name_injective (String.toList_inj.mp names)⟩
  · rintro ⟨rfl, rfl, rfl⟩
    rfl

end ButtonId

/-! ## The list of buttons -/

theorem Field.button?_eq_some {i j : Nat} {f : Field} {place : ButtonPlace} :
    f.button? i j = some place ↔
      place.sectionIndex = i ∧ place.fieldIndex = j ∧
        f.kind = .button place.action (some place.id) := by
  unfold button?
  split
  · next action id isButton =>
    rw [isButton]
    constructor
    · rintro ⟨⟩
      exact ⟨rfl, rfl, rfl⟩
    · rintro ⟨rfl, rfl, same⟩
      cases same
      rfl
  · next other =>
    constructor
    · intro found
      cases found
    · rintro ⟨-, -, isButton⟩
      exact absurd isButton (other _ _)

namespace Schema

theorem mem_fieldButtons {i j : Nat} {fields : List Field} {place : ButtonPlace} :
    place ∈ fieldButtons i j fields ↔
      ∃ (k : Nat) (f : Field), fields[k]? = some f ∧ f.button? i (j + k) = some place := by
  induction fields generalizing j with
  | nil => simp [fieldButtons]
  | cons f rest ih =>
      rw [fieldButtons, List.mem_append, Option.mem_toList, ih]
      constructor
      · rintro (here | ⟨k, g, atPlace, later⟩)
        · exact ⟨0, f, rfl, here⟩
        · exact ⟨k + 1, g, atPlace, by rw [← later]; congr 1; omega⟩
      · rintro ⟨k, g, atPlace, found⟩
        cases k with
        | zero =>
            cases atPlace
            exact .inl found
        | succ k => exact .inr ⟨k, g, atPlace, by rw [← found]; congr 1; omega⟩

theorem mem_sectionButtons {i : Nat} {sections : List FormSection} {place : ButtonPlace} :
    place ∈ sectionButtons i sections ↔
      ∃ (k : Nat) (part : FormSection), sections[k]? = some part ∧
        place ∈ fieldButtons (i + k) 0 part.fields := by
  induction sections generalizing i with
  | nil => simp [sectionButtons]
  | cons part rest ih =>
      rw [sectionButtons, List.mem_append, ih]
      constructor
      · rintro (here | ⟨k, other, atPlace, later⟩)
        · exact ⟨0, part, rfl, here⟩
        · refine ⟨k + 1, other, atPlace, ?_⟩
          rwa [Nat.add_assoc, Nat.add_comm 1] at later
      · rintro ⟨k, other, atPlace, found⟩
        cases k with
        | zero =>
            cases atPlace
            exact .inl found
        | succ k =>
            refine .inr ⟨k, other, atPlace, ?_⟩
            rwa [Nat.add_assoc, Nat.add_comm 1]

theorem mem_sectionButtons_zero {sections : List FormSection} {place : ButtonPlace} :
    place ∈ sectionButtons 0 sections ↔
      ∃ part f, sections[place.sectionIndex]? = some part ∧
        part.fields[place.fieldIndex]? = some f ∧
        f.kind = .button place.action (some place.id) := by
  simp only [mem_sectionButtons, mem_fieldButtons, Field.button?_eq_some, Nat.zero_add]
  constructor
  · rintro ⟨_, part, atSection, _, f, atField, rfl, rfl, isButton⟩
    exact ⟨part, f, atSection, atField, isButton⟩
  · rintro ⟨part, f, atSection, atField, isButton⟩
    exact ⟨_, part, atSection, _, f, atField, rfl, rfl, isButton⟩

theorem map_id_fieldButtons (i j : Nat) (fields : List Field) :
    (fieldButtons i j fields).map ButtonPlace.id = fields.filterMap Field.buttonId? := by
  induction fields generalizing j with
  | nil => rfl
  | cons f rest ih =>
      rw [fieldButtons, List.map_append, ih, List.filterMap_cons]
      unfold Field.button? Field.buttonId?
      cases f.kind with
      | button action id => cases id <;> rfl
      | text | radio | checkbox | toggle | dynamic | static => rfl

theorem map_id_sectionButtons (i : Nat) (sections : List FormSection) :
    (sectionButtons i sections).map ButtonPlace.id = sections.flatMap FormSection.buttonIds := by
  induction sections generalizing i with
  | nil => rfl
  | cons part rest ih =>
      rw [sectionButtons, List.map_append, ih, map_id_fieldButtons, List.flatMap_cons]
      rfl

namespace WellFormed

variable {s : Schema} {place : ButtonPlace}

theorem ids_nodup (wellFormed : s.WellFormed) : (s.buttons.map ButtonPlace.id).Nodup := by
  have differ := wellFormed.sections.idsDiffer
  rwa [wellFormed.filled, ← map_id_sectionButtons 0] at differ

/-- An id leads to the one button that has it. -/
theorem button?_eq_some (wellFormed : s.WellFormed) {id : ButtonId} :
    s.button? id = some place ↔ place ∈ s.buttons ∧ place.id = id := by
  rw [button?]
  constructor
  · intro found
    exact ⟨List.mem_of_find?_eq_some found, by simpa using List.find?_some found⟩
  · rintro ⟨member, rfl⟩
    cases found : s.buttons.find? fun other => other.id = place.id with
    | none => simpa using List.find?_eq_none.mp found place member
    | some other =>
        have sameId : other.id = place.id := by simpa using List.find?_some found
        have alsoMember := List.mem_of_find?_eq_some found
        rw [List.inj_on_of_nodup_map wellFormed.ids_nodup alsoMember member sameId]

theorem exists_id (wellFormed : s.WellFormed) {i j : Nat} {part : FormSection} {f : Field}
    {action : ButtonAction} {id : Option ButtonId} (atSection : s.sections[i]? = some part)
    (atField : part.fields[j]? = some f) (isButton : f.kind = .button action id) :
    ∃ own, id = some own := by
  have filled : part = part.fillIds i := by
    have atFilled := congrArg (fun sections => sections[i]?) wellFormed.filled
    simp only [List.getElem?_mapIdx, atSection, Option.map_some, Option.some.injEq] at atFilled
    exact atFilled.symm
  have sameField : f = f.fillId i j := by
    have atFilled := congrArg (fun part => part.fields[j]?) filled
    simp only [FormSection.fillIds, List.getElem?_mapIdx, atField, Option.map_some,
      Option.some.injEq] at atFilled
    exact atFilled
  cases id with
  | some own => exact ⟨own, rfl⟩
  | none =>
      have kinds := congrArg Field.kind sameField
      rw [Field.fillId, isButton] at kinds
      cases kinds

end WellFormed

theorem Obtainable.wellFormed {s : Schema} (obtained : s.Obtainable) : s.WellFormed := by
  induction obtained with
  | built accepted => exact wellFormed_of_build accepted
  | gated _ paths ih => exact ih.gate

end Schema

end GatedForms

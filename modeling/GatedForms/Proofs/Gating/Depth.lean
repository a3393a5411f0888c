import GatedForms.Proofs.Gating.Marks
import GatedForms.Proofs.Places

/-! # How deep gating looks

Gating marks top-level fields, what the options of a top-level radio reveal and the template of a
top-level group. A field at a greater depth keeps its mark, whatever covers it, and a path that
covers such fields only is reported as unmatched.
-/

namespace GatedForms

namespace Field

variable (paths : List AdminPath) (owner : List String)

theorem nestedAt?_gate {f g : Field} {position : Nat} (found : f.nestedAt? position = some g) :
    (f.gate paths owner).nestedAt? position = some (g.mark paths owner true) := by
  obtain ⟨nested, addButtonLabel, spec, isGroup, atPosition, rfl⟩ := nestedAt?_eq_some found
  simp [nestedAt?, gate_eq, isGroup, gatedKind, List.getElem?_map, atPosition]

theorem revealed?_gate {f g : Field} {position : Nat} {rest : List Nat}
    (found : f.revealed? (position :: rest) = some g) :
    ∃ inner : Field, inner.revealed? rest = some g ∧
      (f.gate paths owner).revealed? (position :: rest) =
        (inner.mark paths owner false).revealed? rest := by
  obtain ⟨options, option, inner, isRadio, atPosition, reveals, below⟩ :=
    revealed?_cons_eq_some found
  refine ⟨inner, below, ?_⟩
  simp [revealed?, gate_eq, isRadio, gatedKind, List.getElem?_map, atPosition, reveals]

theorem at?_gate {f g : Field} {d : Descent} (found : f.at? d = some g) :
    ∃ h, (f.gate paths owner).at? d = some h ∧
      h.adminOnly = (g.adminOnly ||
        (g.coveredBy paths owner d.nested.isSome && decide (d.depth ≤ 1))) := by
  obtain ⟨options, nested⟩ := d
  cases nested with
  | none =>
      cases options with
      | nil =>
          cases found
          exact ⟨f.gate paths owner, rfl, by simp [gate_eq, mark_eq, Descent.depth]⟩
      | cons position rest =>
          obtain ⟨inner, below, gated⟩ := revealed?_gate paths owner found
          cases rest with
          | nil =>
              cases below
              exact ⟨g.mark paths owner false, gated, by simp [mark_eq, Descent.depth]⟩
          | cons second rest =>
              refine ⟨g, ?_, by simp [Descent.depth]⟩
              exact (gated.trans (revealed?_cons_of_kind (mark_kind false inner) _ _)).trans below
  | some position =>
      obtain ⟨group, reached, nestedIn⟩ := Option.bind_eq_some_iff.mp found
      cases options with
      | nil =>
          cases reached
          exact ⟨g.mark paths owner true, nestedAt?_gate paths owner nestedIn,
            by simp [mark_eq, Descent.depth]⟩
      | cons option rest =>
          obtain ⟨inner, below, gated⟩ := revealed?_gate paths owner reached
          refine ⟨g, ?_, by simp [Descent.depth]⟩
          simp only [at?, gated]
          cases rest with
          | nil =>
              cases below
              exact (nestedAt?_of_kind (mark_kind false group) position).trans nestedIn
          | cons second rest =>
              rw [revealed?_cons_of_kind (mark_kind false inner), below]
              exact nestedIn

theorem sees_iff {f g : Field} {isNested : Bool} :
    f.Sees isNested g ↔
      ∃ d : Descent, d.depth ≤ 1 ∧ d.nested.isSome = isNested ∧ f.at? d = some g := by
  constructor
  · intro sees
    cases sees with
    | itself => exact ⟨⟨[], none⟩, Nat.zero_le 1, rfl, rfl⟩
    | @revealed _ position _ _ isRadio atPosition reveals =>
        refine ⟨⟨[position], none⟩, Nat.le_refl 1, rfl, ?_⟩
        simp [at?, revealed?, isRadio, atPosition, reveals]
    | @nested _ _ position _ isGroup atPosition =>
        refine ⟨⟨[], some position⟩, Nat.le_refl 1, rfl, ?_⟩
        simp [at?, revealed?, nestedAt?, isGroup, atPosition]
  · rintro ⟨⟨options, nested⟩, shallow, rfl, found⟩
    cases nested with
    | none =>
        cases options with
        | nil =>
            cases found
            exact .itself
        | cons position rest =>
            have atEnd : rest = [] := by simpa [Descent.depth] using shallow
            subst atEnd
            obtain ⟨options, option, inner, isRadio, atPosition, reveals, below⟩ :=
              revealed?_cons_eq_some found
            cases below
            exact .revealed isRadio atPosition reveals
    | some position =>
        have atTop : options = [] := by simpa [Descent.depth] using shallow
        subst atTop
        obtain ⟨nested, addButtonLabel, spec, isGroup, atPosition, rfl⟩ := nestedAt?_eq_some found
        exact .nested isGroup atPosition

end Field

namespace Schema

variable {s : Schema} {place : FieldPlace}

/-- In a gated schema every field is found again, and those at depth one at most are marked. -/
theorem at?_gate (paths : List AdminPath) {f : Field} (found : s.at? place = some f) :
    ∃ g, (s.gate paths).at? place = some g ∧
      g.adminOnly = (f.adminOnly ||
        ((s.fullPathAt? place).any (AdminPath.anyCovers paths) &&
          decide (place.descent.depth ≤ 1))) := by
  obtain ⟨part, inSchema, found⟩ := Option.bind_eq_some_iff.mp found
  obtain ⟨top, inSection, found⟩ := Option.bind_eq_some_iff.mp found
  obtain ⟨g, foundAgain, mark⟩ :=
    Field.at?_gate paths (part.owner s.backendKey) found
  refine ⟨g, ?_, ?_⟩
  · simp [at?, sections_gate, List.getElem?_map, inSchema, inSection, foundAgain]
  · rw [mark]
    simp [fullPathAt?, inSchema, inSection, found, Field.coveredBy]

theorem fullPathAt?_eq_some {full : List String} :
    s.fullPathAt? place = some full ↔
      ∃ part top f, s.sections[place.sectionIndex]? = some part ∧
        part.fields[place.fieldIndex]? = some top ∧ top.at? place.descent = some f ∧
        f.fullPath? (part.owner s.backendKey) place.descent.nested.isSome = some full := by
  simp only [fullPathAt?, Option.bind_eq_some_iff]
  constructor
  · rintro ⟨part, inSchema, f, ⟨top, inSection, found⟩, path⟩
    exact ⟨part, top, f, inSchema, inSection, found, path⟩
  · rintro ⟨part, top, f, inSchema, inSection, found, path⟩
    exact ⟨part, inSchema, f, ⟨top, inSection, found⟩, path⟩

/-- The full paths that gating sees are those at depth one at most. -/
theorem mem_fullPaths {full : List String} :
    full ∈ s.fullPaths ↔
      ∃ place : FieldPlace, place.descent.depth ≤ 1 ∧ s.fullPathAt? place = some full := by
  simp only [fullPaths, FormSection.fullPaths, List.mem_flatMap, List.mem_filterMap]
  constructor
  · rintro ⟨part, inSchema, ⟨isNested, f⟩, ⟨top, inSection, seen⟩, path⟩
    obtain ⟨d, shallow, rfl, found⟩ := Field.sees_iff.mp (Field.mem_gated_iff_sees.mp seen)
    obtain ⟨sectionIndex, atSection⟩ := List.mem_iff_getElem?.mp inSchema
    obtain ⟨fieldIndex, atField⟩ := List.mem_iff_getElem?.mp inSection
    exact ⟨⟨sectionIndex, fieldIndex, d⟩, shallow,
      fullPathAt?_eq_some.mpr ⟨part, top, f, atSection, atField, found, path⟩⟩
  · rintro ⟨place, shallow, path⟩
    obtain ⟨part, top, f, atSection, atField, found, path⟩ := fullPathAt?_eq_some.mp path
    have seen := Field.mem_gated_iff_sees.mpr (Field.sees_iff.mpr ⟨_, shallow, rfl, found⟩)
    exact ⟨part, List.mem_of_getElem? atSection, (_, f), ⟨top, List.mem_of_getElem? atField, seen⟩,
      path⟩

/-- Of the fields that the paths cover, exactly those at depth one at most become admin-only, if
    they are not already; and a path is unmatched exactly if all fields that it covers are
    deeper. -/
theorem gate_reaches_depth_one (s : Schema) (paths : List AdminPath) :
    (∀ place full, s.fullPathAt? place = some full → AdminPath.anyCovers paths full = true →
      ∃ f g, s.at? place = some f ∧ (s.gate paths).at? place = some g ∧
        (g.adminOnly = true ↔ f.adminOnly = true ∨ place.descent.depth ≤ 1)) ∧
    (∀ path ∈ paths, path ∈ (s.gatingReport paths).unmatched ↔
      ∀ place full, s.fullPathAt? place = some full → path.covers full = true →
        1 < place.descent.depth) := by
  constructor
  · intro place full path covered
    obtain ⟨part, top, f, inSchema, inSection, found, _⟩ := fullPathAt?_eq_some.mp path
    have foundField : s.at? place = some f := by simp [at?, inSchema, inSection, found]
    obtain ⟨g, foundAgain, mark⟩ := at?_gate paths foundField
    refine ⟨f, g, foundField, foundAgain, ?_⟩
    simp [mark, path, covered]
  · intro path inPaths
    simp only [gatingReport, List.mem_filter, inPaths, true_and, Bool.not_eq_true',
      List.any_eq_false]
    constructor
    · intro unmatched place full atPlace covers
      refine Nat.lt_of_not_le fun shallow => ?_
      exact unmatched full (mem_fullPaths.mpr ⟨place, shallow, atPlace⟩) covers
    · intro deep full seen covers
      obtain ⟨place, shallow, atPlace⟩ := mem_fullPaths.mp seen
      exact absurd (deep place full atPlace covers) (Nat.not_lt.mpr shallow)

/-- A radio whose option reveals a radio whose option reveals a text. -/
def chained : Schema :=
  ⟨"Chain", "S", [⟨none, "a", [radio "mode" (radio "sub" (bound "deep" (.text .plain none)))]⟩]⟩
where
  bound (name : String) (kind : FieldKind) : Field :=
    ⟨some ⟨"a", [.key name]⟩, name, none, false, kind⟩
  radio (name : String) (revealed : Field) : Field :=
    bound name (.radio [⟨"on", .bool true, some revealed⟩])

/-- The path of the text at the end of the chain neither marks it nor counts as matched. -/
theorem chained_text_stays_editable :
    Schema.build chained.title chained.backendKey chained.sections = .ok chained ∧
    chained.fullPathAt? ⟨0, 0, ⟨[0, 0], none⟩⟩ = some ["S", "a", "deep"] ∧
    AdminPath.anyCovers [⟨["S", "a", "deep"]⟩] ["S", "a", "deep"] = true ∧
    ((chained.gate [⟨["S", "a", "deep"]⟩]).at? ⟨0, 0, ⟨[0, 0], none⟩⟩).map Field.adminOnly =
      some false ∧
    (chained.gatingReport [⟨["S", "a", "deep"]⟩]).unmatched = [⟨["S", "a", "deep"]⟩] :=
  ⟨rfl, rfl, rfl, rfl, rfl⟩

end Schema

end GatedForms

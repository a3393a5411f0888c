import GatedForms.Proofs.Gating.Frame
import GatedForms.Rules

/-! # Rules of gated schemas

Rules are bound by the names and the kinds of fields. Gating leaves both alone, so a gated schema
has the validator that it had before.
-/

namespace GatedForms

mutual

theorem Field.find?_unmarked (name : String) (f : Field) :
    f.unmarked.find? name = (f.find? name).map Field.unmarked := by
  obtain ⟨fieldName, label, tooltip, adminOnly, kind⟩ := f
  simp only [Field.unmarked, Field.find?, FieldKind.find?_unmarked name kind]
  rw [apply_ite (Option.map Field.unmarked)]
  rfl

theorem FieldKind.find?_unmarked (name : String) (kind : FieldKind) :
    kind.unmarked.find? name = (kind.find? name).map Field.unmarked := by
  cases kind with
  | radio options => exact FieldOption.findRevealed?_unmarked name options
  | checkbox options => cases options <;> rfl
  | text | toggle | dynamic | button | static => rfl

theorem FieldOption.findRevealed?_unmarked (name : String) (options : List FieldOption) :
    FieldOption.findRevealed? name (FieldOption.unmarkedAll options) =
      (FieldOption.findRevealed? name options).map Field.unmarked := by
  match options with
  | [] => rfl
  | ⟨_, _, none⟩ :: rest => exact FieldOption.findRevealed?_unmarked name rest
  | ⟨_, _, some f⟩ :: rest =>
      simp only [FieldOption.unmarkedAll, FieldOption.findRevealed?, Option.map_or,
        Field.find?_unmarked name f, FieldOption.findRevealed?_unmarked name rest]

end

theorem NestedField.any_hasName_unmarkedAll (name : String) (nested : List NestedField) :
    (unmarkedAll nested).any (fun spec => spec.field.hasName name) =
      nested.any fun spec => spec.field.hasName name := by
  induction nested with
  | nil => rfl
  | cons spec rest ih =>
      obtain ⟨⟨fieldName, label, tooltip, adminOnly, kind⟩, disableOnFirst⟩ := spec
      simp only [unmarkedAll, List.any_cons, ih]
      rfl

theorem Field.hasNested_unmarked (f : Field) (name : String) :
    f.unmarked.hasNested name = f.hasNested name := by
  obtain ⟨fieldName, label, tooltip, adminOnly, kind⟩ := f
  cases kind with
  | dynamic nested addButtonLabel => exact NestedField.any_hasName_unmarkedAll name nested
  | checkbox options => cases options <;> rfl
  | text | radio | toggle | button | static => rfl

theorem Schema.locate?_unmarked (s : Schema) (name : String) :
    s.unmarked.locate? name = (s.locate? name).map fun found => (found.1, found.2.unmarked) := by
  unfold locate? unmarked
  generalize s.sections = sections
  generalize 0 = index
  induction sections generalizing index with
  | nil => rfl
  | cons part rest ih =>
      have inPart : (part.fields.map Field.unmarked).findSome? (Field.find? name) =
          (part.fields.findSome? (Field.find? name)).map Field.unmarked := by
        rw [List.findSome?_map, List.map_findSome?]
        congr 1
        funext f
        exact f.find?_unmarked name
      simp only [List.map_cons, locateFrom, inPart]
      cases part.fields.findSome? (Field.find? name) with
      | none => exact ih (index + 1)
      | some f => rfl

theorem RuleSpec.bind_unmarked (s : Schema) (spec : RuleSpec) :
    spec.bind s.unmarked = spec.bind s := by
  simp only [bind, Schema.locate?_unmarked]
  cases s.locate? spec.field with
  | none => rfl
  | some found => simp only [Option.map_some, Field.hasNested_unmarked]

theorem RuleSpec.bindAll_unmarked (s : Schema) (specs : List RuleSpec) :
    bindAll s.unmarked specs = bindAll s specs := by
  induction specs with
  | nil => rfl
  | cons spec rest ih => simp only [bindAll, bind_unmarked, ih]

/-- Rules fit a gated schema as they fit its template, and make the same validator. -/
theorem Validator.build_gate (s : Schema) (paths : List AdminPath) (specs : List RuleSpec) :
    build (s.gate paths) specs = build s specs := by
  rw [build, ← RuleSpec.bindAll_unmarked, s.unmarked_gate, RuleSpec.bindAll_unmarked]
  rfl

end GatedForms

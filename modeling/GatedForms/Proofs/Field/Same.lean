import GatedForms.Proofs.Paths
import GatedForms.Schema.Basic

/-! # Equal schemas

Fields and schemas are compared part by part, and option values as values. Each is equal to itself,
so whatever is read back as it was is equal to what was written.
-/

namespace GatedForms

deriving instance ReflBEq, LawfulBEq for Path, TextInput, ButtonAction

mutual

theorem Json.same_self (x : Json) : x.same x = true := by
  cases x with
  | null => rfl
  | bool b => exact beq_self_eq_true b
  | int n => exact beq_self_eq_true n
  | float number => simp [Json.same, Binary64.same]
  | text s => exact beq_self_eq_true s
  | array items => exact Json.sameItems_self items
  | object members => exact Json.sameMembers_self members

theorem Json.sameItems_self (items : List Json) : Json.sameItems items items = true := by
  cases items with
  | nil => rfl
  | cons item rest => rw [Json.sameItems, Json.same_self item, Json.sameItems_self rest]; rfl

theorem Json.sameMembers_self (members : List (String × Json)) :
    Json.sameMembers members members = true := by
  match members with
  | [] => rfl
  | (key, member) :: rest =>
      rw [Json.sameMembers, beq_self_eq_true, Json.same_self member, Json.sameMembers_self rest]
      rfl

end

mutual

theorem Field.same_self (f : Field) : f.same f = true := by
  obtain ⟨name, label, tooltip, adminOnly, kind⟩ := f
  simp [Field.same, FieldKind.same_self kind]

theorem FieldKind.same_self (kind : FieldKind) : kind.same kind = true := by
  cases kind with
  | text input placeholder => simp [FieldKind.same]
  | radio options => rw [FieldKind.same, FieldOption.sameAll_self options]
  | checkbox options =>
      cases options with
      | none => rw [FieldKind.same]
      | some options => rw [FieldKind.same, FieldOption.sameAll_self options]
  | toggle => rw [FieldKind.same]
  | dynamic nested addButtonLabel => simp [FieldKind.same, NestedField.sameAll_self nested]
  | button action id => simp [FieldKind.same]
  | static content => simp [FieldKind.same]

theorem FieldOption.sameAll_self (options : List FieldOption) :
    FieldOption.sameAll options options = true := by
  match options with
  | [] => rw [FieldOption.sameAll]
  | ⟨label, value, none⟩ :: rest =>
      simp [FieldOption.sameAll, Json.same_self, FieldOption.sameAll_self rest]
  | ⟨label, value, some f⟩ :: rest =>
      simp [FieldOption.sameAll, Json.same_self, Field.same_self f, FieldOption.sameAll_self rest]

theorem NestedField.sameAll_self (nested : List NestedField) :
    NestedField.sameAll nested nested = true := by
  match nested with
  | [] => rw [NestedField.sameAll]
  | ⟨f, disableOnFirst⟩ :: rest =>
      simp [NestedField.sameAll, Field.same_self f, NestedField.sameAll_self rest]

end

theorem FormSection.same_self (part : FormSection) : part.same part = true := by
  have fields : ∀ fields : List Field, FormSection.same.sameFields fields fields = true := by
    intro fields
    induction fields with
    | nil => rfl
    | cons f rest ih => simp [FormSection.same.sameFields, f.same_self, ih]
  simp [FormSection.same, fields]

theorem Schema.same_self (s : Schema) : s.same s = true := by
  have sections : ∀ parts : List FormSection, Schema.same.sameSections parts parts = true := by
    intro parts
    induction parts with
    | nil => rfl
    | cons part rest ih => simp [Schema.same.sameSections, part.same_self, ih]
  simp [Schema.same, sections]

end GatedForms

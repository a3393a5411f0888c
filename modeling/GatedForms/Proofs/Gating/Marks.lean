import GatedForms.Gating

/-! # What marking changes

Marking a field sets its admin-only flag or leaves the field alone. A gated section is therefore the
section with every field gated, also where it is used as it was because no mark changed.
-/

namespace GatedForms

namespace Field

variable {paths : List AdminPath} {owner : List String}

def coveredBy (paths : List AdminPath) (owner : List String) (isNested : Bool) (f : Field) : Bool :=
  (f.fullPath? owner isNested).any (AdminPath.anyCovers paths)

theorem mark_eq (isNested : Bool) (f : Field) :
    f.mark paths owner isNested =
      { f with adminOnly := f.adminOnly || f.coveredBy paths owner isNested } := by
  unfold mark coveredBy
  cases f.fullPath? owner isNested with
  | none =>
      cases f
      simp
  | some full =>
      cases covered : AdminPath.anyCovers paths full with
      | false =>
          cases f
          simp [covered]
      | true => simp [covered]

@[simp]
theorem mark_kind (isNested : Bool) (f : Field) : (f.mark paths owner isNested).kind = f.kind := by
  rw [mark_eq]

theorem mark_eq_self {isNested : Bool} {f : Field}
    (same : (f.mark paths owner isNested).adminOnly = f.adminOnly) :
    f.mark paths owner isNested = f := by
  rw [mark_eq] at same ⊢
  simp only at same
  rw [same]
  cases f
  rfl

def gatedKind (paths : List AdminPath) (owner : List String) : FieldKind → FieldKind
  | .dynamic nested addButtonLabel =>
      .dynamic (nested.map fun spec => { spec with field := spec.field.mark paths owner true })
        addButtonLabel
  | .radio options =>
      .radio (options.map fun option =>
        { option with reveals := option.reveals.map fun g => g.mark paths owner false })
  | kind => kind

theorem gate_eq (f : Field) :
    f.gate paths owner =
      { f.mark paths owner false with kind := gatedKind paths owner f.kind } := by
  have same : (f.mark paths owner false).kind = f.kind := mark_kind false f
  unfold gate
  generalize f.mark paths owner false = marked at same ⊢
  obtain ⟨name, label, tooltip, adminOnly, kind⟩ := marked
  simp only at same ⊢
  subst same
  cases f.kind with
  | text | radio | checkbox | toggle | dynamic | button | static => rfl

/-! ## Marks that do not change -/

theorem map_mark_eq_self (nested : List NestedField)
    (same : ∀ spec ∈ nested, (spec.field.mark paths owner true).adminOnly = spec.field.adminOnly) :
    (nested.map fun spec => { spec with field := spec.field.mark paths owner true }) = nested := by
  refine (List.map_congr_left fun spec member => ?_).trans (List.map_id nested)
  rw [mark_eq_self (same spec member)]
  cases spec
  rfl

theorem map_reveals_mark_eq_self (options : List FieldOption)
    (same : ∀ option ∈ options, ∀ g, option.reveals = some g →
      (g.mark paths owner false).adminOnly = g.adminOnly) :
    (options.map fun option =>
      { option with reveals := option.reveals.map fun g => g.mark paths owner false }) =
        options := by
  refine (List.map_congr_left fun option member => ?_).trans (List.map_id options)
  obtain ⟨label, value, reveals⟩ := option
  cases reveals with
  | none => rfl
  | some g => simp only [Option.map_some, mark_eq_self (same _ member g rfl), id_eq]

/-- What gating sees in a field: the field itself, what an option of a radio reveals, or a field of
    a template. With it comes whether it is nested in a group. -/
inductive Sees (f : Field) : Bool → Field → Prop where
  | itself : Sees f false f
  | revealed {options : List FieldOption} {position : Nat} {option : FieldOption} {g : Field}
      (isRadio : f.kind = .radio options) (atPosition : options[position]? = some option)
      (reveals : option.reveals = some g) : Sees f false g
  | nested {template : List NestedField} {addButtonLabel : String} {position : Nat}
      {spec : NestedField} (isGroup : f.kind = .dynamic template addButtonLabel)
      (atPosition : template[position]? = some spec) : Sees f true spec.field

theorem mem_gated_iff_sees {f g : Field} {isNested : Bool} :
    (isNested, g) ∈ f.gated ↔ Sees f isNested g := by
  unfold gated
  rw [List.mem_cons]
  constructor
  · rintro (itself | below)
    · cases itself
      exact .itself
    · cases kind : f.kind with
      | dynamic template addButtonLabel =>
          simp only [kind, List.mem_map, Prod.mk.injEq] at below
          obtain ⟨spec, inTemplate, rfl, rfl⟩ := below
          obtain ⟨position, atPosition⟩ := List.mem_iff_getElem?.mp inTemplate
          exact .nested kind atPosition
      | radio options =>
          simp only [kind, List.mem_filterMap, Option.map_eq_some_iff, Prod.mk.injEq] at below
          obtain ⟨option, inOptions, _, reveals, rfl, rfl⟩ := below
          obtain ⟨position, atPosition⟩ := List.mem_iff_getElem?.mp inOptions
          exact .revealed kind atPosition reveals
      | text | checkbox | toggle | button | static => simp [kind] at below
  · intro sees
    cases sees with
    | itself => exact .inl rfl
    | revealed isRadio atPosition reveals =>
        have inOptions := List.mem_of_getElem? atPosition
        refine .inr ?_
        simpa [isRadio] using ⟨_, inOptions, reveals⟩
    | @nested _ _ _ spec isGroup atPosition =>
        have inTemplate := List.mem_of_getElem? atPosition
        refine .inr ?_
        simpa [isGroup] using ⟨spec, inTemplate, rfl⟩

theorem gainsMark_eq_false {f : Field} :
    f.gainsMark paths owner = false ↔
      ∀ isNested g, Sees f isNested g →
        (g.mark paths owner isNested).adminOnly = g.adminOnly := by
  simp only [gainsMark, List.any_eq_false, Prod.forall, mem_gated_iff_sees]
  refine forall_congr' fun isNested => forall_congr' fun g => imp_congr_right fun _ => ?_
  rw [mark_eq]
  cases g.adminOnly with
  | true => simp
  | false => simp

theorem gate_eq_self {f : Field} (unchanged : f.gainsMark paths owner = false) :
    f.gate paths owner = f := by
  have same := gainsMark_eq_false.mp unchanged
  have kindSame : gatedKind paths owner f.kind = f.kind := by
    cases kind : f.kind with
    | dynamic nested addButtonLabel =>
        rw [gatedKind, map_mark_eq_self nested fun spec member => ?_]
        obtain ⟨position, atPosition⟩ := List.mem_iff_getElem?.mp member
        exact same true spec.field (.nested kind atPosition)
    | radio options =>
        rw [gatedKind, map_reveals_mark_eq_self options fun option member g reveals => ?_]
        obtain ⟨position, atPosition⟩ := List.mem_iff_getElem?.mp member
        exact same false g (.revealed kind atPosition reveals)
    | text | checkbox | toggle | button | static => rfl
  rw [gate_eq, mark_eq_self (same false f .itself), kindSame]
  cases f
  rfl

end Field

/-! ## Gated sections -/

namespace FormSection

variable {paths : List AdminPath} {schemaKey : String}

/-- The copy of a section once the fields `done` in front of `rest` are gated. There is none as long
    as no field has gained a mark. -/
def copyAfter (paths : List AdminPath) (schemaKey : String) (part : FormSection)
    (done rest : List Field) : Option FormSection :=
  if done.any (Field.gainsMark paths (part.owner schemaKey)) then
    some { part with fields := done.map (Field.gate paths (part.owner schemaKey)) ++ rest }
  else none

theorem getD_copyAfter {part : FormSection} {done rest : List Field}
    (split : part.fields = done ++ rest) :
    (part.copyAfter paths schemaKey done rest).getD part =
      { part with fields := done.map (Field.gate paths (part.owner schemaKey)) ++ rest } := by
  unfold copyAfter
  split
  · rfl
  · next none =>
    have unchanged := List.any_eq_false.mp ((Bool.not_eq_true _).mp none)
    have same : done.map (Field.gate paths (part.owner schemaKey)) = done :=
      (List.map_congr_left fun f member => Field.gate_eq_self
        ((Bool.not_eq_true _).mp (unchanged f member))).trans (List.map_id done)
    rw [same, ← split]
    rfl

theorem gateField_copyAfter {part : FormSection} {f : Field} {done rest : List Field}
    (split : part.fields = done ++ f :: rest) :
    part.gateField paths schemaKey (part.copyAfter paths schemaKey done (f :: rest))
        (f, done.length) =
      part.copyAfter paths schemaKey (done ++ [f]) rest := by
  cases gains : f.gainsMark paths (part.owner schemaKey) with
  | true =>
      simp only [gateField, gains, if_true, getD_copyAfter split]
      simp [copyAfter, gains]
  | false =>
      simp only [gateField, gains, Bool.false_eq_true, if_false]
      simp [copyAfter, gains, Field.gate_eq_self gains]

theorem foldl_gateField {part : FormSection} {done rest : List Field}
    (split : part.fields = done ++ rest) :
    (rest.zipIdx done.length).foldl (part.gateField paths schemaKey)
        (part.copyAfter paths schemaKey done rest) =
      part.copyAfter paths schemaKey part.fields [] := by
  induction rest generalizing done with
  | nil => rw [List.zipIdx_nil, List.foldl_nil, split, List.append_nil]
  | cons f rest ih =>
      have further : part.fields = (done ++ [f]) ++ rest := by rw [split, List.append_cons]
      have gated := ih further
      rw [List.length_append, List.length_singleton] at gated
      rw [List.zipIdx_cons, List.foldl_cons, gateField_copyAfter split, gated]

/-- A section is copied if some field in it gains a mark, and then all its fields are gated. -/
theorem gate?_eq (part : FormSection) :
    part.gate? paths schemaKey = part.copyAfter paths schemaKey part.fields [] :=
  foldl_gateField (List.nil_append part.fields).symm

theorem gate?_getD (paths : List AdminPath) (schemaKey : String) (part : FormSection) :
    (part.gate? paths schemaKey).getD part =
      { part with fields := part.fields.map (Field.gate paths (part.owner schemaKey)) } := by
  rw [gate?_eq, getD_copyAfter (List.append_nil part.fields).symm, List.append_nil]

end FormSection

theorem Schema.sections_gate (paths : List AdminPath) (s : Schema) :
    (s.gate paths).sections = s.sections.map fun part =>
      { part with fields := part.fields.map (Field.gate paths (part.owner s.backendKey)) } :=
  List.map_congr_left fun part _ => part.gate?_getD paths s.backendKey

end GatedForms

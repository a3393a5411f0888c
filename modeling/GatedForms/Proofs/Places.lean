import GatedForms.Gating

/-! # Places of fields

A field of a schema is reached from a top-level field through options of radios, each revealed by
the one before, and at the end perhaps into the template of a group. Places name all fields, however
deep; what looks at fields at some depth only can be compared with them.
-/

namespace GatedForms

/-- The way from a field to itself or to a field in it. -/
structure Descent where
  /-- Positions of the options that reveal a field each, outermost first. -/
  options : List Nat
  /-- Position in the template of the group that is reached, unless the group itself is meant. -/
  nested : Option Nat
  deriving Repr, DecidableEq, BEq

structure FieldPlace where
  sectionIndex : Nat
  fieldIndex : Nat
  descent : Descent
  deriving Repr, DecidableEq, BEq

/-- The place of the field itself, or for a field in a template the place of its group. -/
def FieldPlace.owner (place : FieldPlace) : FieldPlace :=
  { place with descent := { place.descent with nested := none } }

theorem FieldPlace.owner_of_direct {place : FieldPlace}
    (isDirect : place.descent.nested = none) : place.owner = place := by
  obtain ⟨sectionIndex, fieldIndex, options, nested⟩ := place
  cases isDirect
  rfl

namespace Descent

/-- Number of fields on the way above the one that is reached. -/
def depth (d : Descent) : Nat := d.options.length + if d.nested.isSome then 1 else 0

end Descent

namespace Field

/-- The field that options reveal, one inside the other. -/
def revealed? : List Nat → Field → Option Field
  | [], f => some f
  | position :: rest, f =>
      match f.kind with
      | .radio options => (options[position]?.bind FieldOption.reveals).bind (revealed? rest)
      | _ => none

/-- A field in the template of a group. -/
def nestedAt? (f : Field) (position : Nat) : Option Field :=
  match f.kind with
  | .dynamic nested _ => nested[position]?.map NestedField.field
  | _ => none

def at? (d : Descent) (f : Field) : Option Field :=
  match d.nested with
  | none => f.revealed? d.options
  | some position => (f.revealed? d.options).bind fun group => group.nestedAt? position

theorem isBound_of_kind {f : Field} {kind : FieldKind} (isKind : f.kind = kind) :
    f.isBound = kind.tag.isBound := by
  rw [isBound, tag, isKind]

theorem revealed?_cons_of_kind {f g : Field} (same : f.kind = g.kind) (position : Nat)
    (rest : List Nat) : f.revealed? (position :: rest) = g.revealed? (position :: rest) := by
  simp only [revealed?, same]

theorem nestedAt?_of_kind {f g : Field} (same : f.kind = g.kind) (position : Nat) :
    f.nestedAt? position = g.nestedAt? position := by
  simp only [nestedAt?, same]

theorem revealed?_cons_eq_some {f g : Field} {position : Nat} {rest : List Nat}
    (found : f.revealed? (position :: rest) = some g) :
    ∃ options option inner, f.kind = .radio options ∧ options[position]? = some option ∧
      option.reveals = some inner ∧ inner.revealed? rest = some g := by
  unfold revealed? at found
  split at found
  · next options isRadio =>
    obtain ⟨inner, revealed, found⟩ := Option.bind_eq_some_iff.mp found
    obtain ⟨option, atPosition, reveals⟩ := Option.bind_eq_some_iff.mp revealed
    exact ⟨options, option, inner, isRadio, atPosition, reveals, found⟩
  · cases found

theorem revealed?_append (options further : List Nat) (f : Field) :
    f.revealed? (options ++ further) = (f.revealed? options).bind (revealed? further) := by
  induction options generalizing f with
  | nil => rfl
  | cons position rest ih =>
      simp only [List.cons_append, revealed?]
      cases f.kind with
      | radio options =>
          simp only
          cases options[position]?.bind FieldOption.reveals with
          | none => rfl
          | some inner => exact ih inner
      | text | checkbox | toggle | dynamic | button | static => rfl

theorem revealed?_cons_of_reveals {f g : Field} {options : List FieldOption} {position : Nat}
    {option : FieldOption} (isRadio : f.kind = .radio options)
    (atPosition : options[position]? = some option) (reveals : option.reveals = some g)
    (rest : List Nat) : f.revealed? (position :: rest) = g.revealed? rest := by
  simp only [revealed?, isRadio, atPosition, Option.bind_some, reveals]

theorem nestedAt?_eq_some {f g : Field} {position : Nat} (found : f.nestedAt? position = some g) :
    ∃ nested addButtonLabel spec, f.kind = .dynamic nested addButtonLabel ∧
      nested[position]? = some spec ∧ spec.field = g := by
  unfold nestedAt? at found
  split at found
  · next nested addButtonLabel isGroup =>
    obtain ⟨spec, atPosition, rfl⟩ := Option.map_eq_some_iff.mp found
    exact ⟨nested, addButtonLabel, spec, isGroup, atPosition, rfl⟩
  · cases found

end Field

namespace Schema

def at? (s : Schema) (place : FieldPlace) : Option Field :=
  s.sections[place.sectionIndex]?.bind fun part =>
    part.fields[place.fieldIndex]?.bind (Field.at? place.descent)

def fullPathAt? (s : Schema) (place : FieldPlace) : Option (List String) :=
  s.sections[place.sectionIndex]?.bind fun part =>
    (part.fields[place.fieldIndex]?.bind (Field.at? place.descent)).bind
      (Field.fullPath? (part.owner s.backendKey) place.descent.nested.isSome)

theorem at?_append {s : Schema} {sectionIndex fieldIndex : Nat} (options further : List Nat) :
    s.at? ⟨sectionIndex, fieldIndex, ⟨options ++ further, none⟩⟩ =
      (s.at? ⟨sectionIndex, fieldIndex, ⟨options, none⟩⟩).bind (Field.revealed? further) := by
  simp only [at?]
  cases s.sections[sectionIndex]? with
  | none => rfl
  | some part =>
      simp only [Option.bind_some]
      cases part.fields[fieldIndex]? with
      | none => rfl
      | some top => exact top.revealed?_append options further

theorem exists_top_of_at? {s : Schema} {place : FieldPlace} {f : Field}
    (isDirect : place.descent.nested = none) (found : s.at? place = some f) :
    ∃ part top, s.sections[place.sectionIndex]? = some part ∧
      part.fields[place.fieldIndex]? = some top ∧
        top.revealed? place.descent.options = some f := by
  obtain ⟨part, atSection, found⟩ := Option.bind_eq_some_iff.mp found
  obtain ⟨top, atField, found⟩ := Option.bind_eq_some_iff.mp found
  simp only [Field.at?, isDirect] at found
  exact ⟨part, top, atSection, atField, found⟩

theorem at?_inTemplate {s : Schema} {place : FieldPlace} {position : Nat}
    (inTemplate : place.descent.nested = some position) :
    s.at? place = (s.at? place.owner).bind fun group => group.nestedAt? position := by
  obtain ⟨sectionIndex, fieldIndex, options, nested⟩ := place
  cases inTemplate
  simp only [at?, FieldPlace.owner]
  cases s.sections[sectionIndex]? with
  | none => rfl
  | some part =>
      simp only [Option.bind_some]
      cases part.fields[fieldIndex]? with
      | none | some top => rfl

end Schema

end GatedForms

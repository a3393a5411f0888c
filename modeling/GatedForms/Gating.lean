import GatedForms.AdminPath
import GatedForms.Schema.Basic

/-! # Admin gating

Gating marks every field that an admin-only path covers. A field has the full path of its schema
key, its section key and the keys of its name without the first; a field nested in a dynamic group
keeps all keys of its name. Gating looks at the top-level fields, at the nested fields of top-level
groups and at the fields that the options of top-level radios reveal.
-/

namespace GatedForms

namespace Field

/-- Full path of a field below the keys of its schema and section, if it has a name. The first key
    of a name repeats the section, except in a nested field. -/
def fullPath? (owner : List String) (isNested : Bool) (f : Field) : Option (List String) :=
  f.name.map fun name => owner ++ name.keys.drop (if isNested then 0 else 1)

/-- Mark a field that a path covers. -/
def mark (paths : List AdminPath) (owner : List String) (isNested : Bool) (f : Field) : Field :=
  match f.fullPath? owner isNested with
  | some full => if AdminPath.anyCovers paths full then { f with adminOnly := true } else f
  | none => f

/-- Mark a top-level field and the fields that gating sees in it. -/
def gate (paths : List AdminPath) (owner : List String) (f : Field) : Field :=
  let marked := f.mark paths owner false
  match marked.kind with
  | .dynamic nested addButtonLabel =>
      let gated := nested.map fun spec => { spec with field := spec.field.mark paths owner true }
      { marked with kind := .dynamic gated addButtonLabel }
  | .radio options =>
      let gated := options.map fun option =>
        { option with reveals := option.reveals.map fun g => g.mark paths owner false }
      { marked with kind := .radio gated }
  | _ => marked

/-- The fields that gating sees in a top-level field, itself first; with each comes whether it is
    nested in a group. -/
def gated (f : Field) : List (Bool × Field) :=
  (false, f) :: match f.kind with
    | .dynamic nested _ => nested.map fun spec => (true, spec.field)
    | .radio options => options.filterMap fun option => option.reveals.map fun g => (false, g)
    | _ => []

/-- Whether gating sets a mark in a top-level field that was not set before. -/
def gainsMark (paths : List AdminPath) (owner : List String) (f : Field) : Bool :=
  f.gated.any fun (isNested, g) => !g.adminOnly && (g.mark paths owner isNested).adminOnly

end Field

namespace FormSection

/-- The keys under which the fields of a section stand. -/
def owner (schemaKey : String) (s : FormSection) : List String := [schemaKey, s.backendKey]

/-- Gate one field of a section. The section is copied when the first field gains a mark, and the
    copy takes the gated fields in their places; a field that gains no mark is left alone. -/
def gateField (paths : List AdminPath) (schemaKey : String) (s : FormSection)
    (copy : Option FormSection) : Field × Nat → Option FormSection
  | (f, position) =>
      if f.gainsMark paths (s.owner schemaKey) then
        let copied := copy.getD s
        let gated := f.gate paths (s.owner schemaKey)
        some { copied with fields := copied.fields.set position gated }
      else copy

/-- The copy of the section with its fields marked; none if no mark changed, so that the section
    itself can go on being used. -/
def gate? (paths : List AdminPath) (schemaKey : String) (s : FormSection) : Option FormSection :=
  s.fields.zipIdx.foldl (s.gateField paths schemaKey) none

/-- Full paths of the named fields that gating sees in a section. -/
def fullPaths (schemaKey : String) (s : FormSection) : List (List String) :=
  (s.fields.flatMap Field.gated).filterMap fun (isNested, f) =>
    f.fullPath? (s.owner schemaKey) isNested

/-- The named fields that gating sees in a section and that are admin-only. -/
def adminOnlyFields (s : FormSection) : List (Bool × Field) :=
  (s.fields.flatMap Field.gated).filter fun (_, f) => f.name.isSome && f.adminOnly

end FormSection

/-- What gating found. -/
structure GatingReport where
  /-- Paths that cover no field. -/
  unmatched : List AdminPath
  /-- Number of admin-only fields in the gated schema. -/
  gatedFields : Nat
  deriving Repr, DecidableEq, BEq

namespace Schema

/-- The sections of the gated schema; none in the place of a section that is used as it is. -/
def gatedSections (paths : List AdminPath) (s : Schema) : List (Option FormSection) :=
  s.sections.map (FormSection.gate? paths s.backendKey)

/-- The schema with its fields marked. -/
def gate (paths : List AdminPath) (s : Schema) : Schema :=
  { s with sections := s.sections.map fun part => (part.gate? paths s.backendKey).getD part }

/-- Full paths of all named fields that gating sees. -/
def fullPaths (s : Schema) : List (List String) :=
  s.sections.flatMap (FormSection.fullPaths s.backendKey)

def gatingReport (paths : List AdminPath) (s : Schema) : GatingReport :=
  { unmatched := paths.filter fun path => !s.fullPaths.any path.covers
    gatedFields := ((s.gate paths).sections.flatMap FormSection.adminOnlyFields).length }

/-- For every section whether the gated schema uses it as it is. -/
def sharedSections (paths : List AdminPath) (s : Schema) : List Bool :=
  (s.gatedSections paths).map Option.isNone

end Schema

end GatedForms

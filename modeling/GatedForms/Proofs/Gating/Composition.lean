import GatedForms.Proofs.Gating.Depth
import GatedForms.Proofs.Paths.Display
import GatedForms.Proofs.Schema.Checked
import GatedForms.Settings

/-! # Gating more than once

Whether a path covers a field depends on names only, and marks are never cleared. So gatings add up
in any order, and only the paths matter that begin with the key of the schema.
-/

namespace GatedForms

/-! ## Lists of paths -/

namespace AdminPath

variable {paths others : List AdminPath} {full : List String}

theorem anyCovers_eq_true :
    anyCovers paths full = true ↔ ∃ path ∈ paths, path.covers full = true := List.any_eq_true

theorem anyCovers_append :
    anyCovers (paths ++ others) full = (anyCovers paths full || anyCovers others full) :=
  List.any_append

theorem anyCovers_congr (same : ∀ path, path ∈ paths ↔ path ∈ others) (full : List String) :
    anyCovers paths full = anyCovers others full := by
  rw [Bool.eq_iff_iff, anyCovers_eq_true, anyCovers_eq_true]
  simp only [same]

theorem head?_of_covers {path : AdminPath} {key : String} {rest : List String}
    (somewhere : path.keys ≠ []) (covers : path.covers (key :: rest) = true) :
    path.keys.head? = some key := by
  unfold AdminPath.covers at covers
  cases keys : path.keys with
  | nil => exact absurd keys somewhere
  | cons first further =>
      rw [keys, List.isPrefixOf_iff_prefix, List.cons_prefix_cons] at covers
      rw [covers.1]
      rfl

theorem anyCovers_filter_rooted {key : String} (somewhere : ∀ path ∈ paths, path.keys ≠ [])
    (rest : List String) :
    anyCovers (paths.filter fun path => path.keys.head? = some key) (key :: rest) =
      anyCovers paths (key :: rest) := by
  rw [Bool.eq_iff_iff, anyCovers_eq_true, anyCovers_eq_true]
  constructor
  · rintro ⟨path, member, covers⟩
    exact ⟨path, (List.mem_filter.mp member).1, covers⟩
  · rintro ⟨path, member, covers⟩
    have rooted := head?_of_covers (somewhere path member) covers
    exact ⟨path, List.mem_filter.mpr ⟨member, decide_eq_true rooted⟩, covers⟩

theorem keys_ne_nil_of_parse {raw : String} {path : AdminPath} (read : parse raw = .ok path) :
    path.keys ≠ [] := by
  unfold parse at read
  split at read
  · cases read
  · dsimp only at read
    split at read
    · cases read
    · cases read
      obtain ⟨first, rest, split, -⟩ := Text.splitOn_joined '.' raw.toList
      rw [Text.split, split]
      exact List.cons_ne_nil _ _

theorem keys_ne_nil_of_parseAll {raws : List String} (read : parseAll raws = .ok paths) :
    ∀ path ∈ paths, path.keys ≠ [] := by
  induction raws generalizing paths with
  | nil =>
      cases read
      exact nofun
  | cons raw rest ih =>
      obtain ⟨first, firstRead, read⟩ := ok_of_bind read
      obtain ⟨further, furtherRead, read⟩ := ok_of_bind read
      cases read
      exact List.forall_mem_cons.mpr ⟨keys_ne_nil_of_parse firstRead, ih furtherRead⟩

end AdminPath

/-! ## Gated fields -/

namespace Field

variable {paths others : List AdminPath} {owner : List String}

theorem mark_congr
    (same : ∀ rest, AdminPath.anyCovers paths (owner ++ rest) =
      AdminPath.anyCovers others (owner ++ rest)) (isNested : Bool) (f : Field) :
    f.mark paths owner isNested = f.mark others owner isNested := by
  have covered : f.coveredBy paths owner isNested = f.coveredBy others owner isNested := by
    unfold coveredBy fullPath?
    cases f.name with
    | none => rfl
    | some name => simp only [Option.map_some, Option.any_some, same]
  rw [mark_eq, mark_eq, covered]

/-- Fields are gated alike by lists of paths that cover the same below their owner. -/
theorem gate_congr
    (same : ∀ rest, AdminPath.anyCovers paths (owner ++ rest) =
      AdminPath.anyCovers others (owner ++ rest)) (f : Field) :
    f.gate paths owner = f.gate others owner := by
  have kinds : gatedKind paths owner f.kind = gatedKind others owner f.kind := by
    cases f.kind with
    | dynamic nested addButtonLabel => simp only [gatedKind, mark_congr same]
    | radio options => simp only [gatedKind, mark_congr same]
    | text | checkbox | toggle | button | static => rfl
  rw [gate_eq, gate_eq, mark_congr same, kinds]

theorem coveredBy_of_name {f g : Field} (same : f.name = g.name) (isNested : Bool) :
    f.coveredBy paths owner isNested = g.coveredBy paths owner isNested := by
  simp only [coveredBy, fullPath?, same]

theorem coveredBy_append (isNested : Bool) (f : Field) :
    f.coveredBy (paths ++ others) owner isNested =
      (f.coveredBy paths owner isNested || f.coveredBy others owner isNested) := by
  unfold coveredBy
  cases f.fullPath? owner isNested with
  | none => rfl
  | some full => exact AdminPath.anyCovers_append

theorem mark_mark (isNested : Bool) (f : Field) :
    (f.mark paths owner isNested).mark others owner isNested =
      f.mark (paths ++ others) owner isNested :=
  calc
    _ = { f with adminOnly := f.adminOnly || f.coveredBy paths owner isNested ||
          f.coveredBy others owner isNested } := by
      rw [mark_eq, coveredBy_of_name (name_mark isNested f), mark_eq]
    _ = f.mark (paths ++ others) owner isNested := by
      rw [mark_eq, coveredBy_append, Bool.or_assoc]

theorem gatedKind_gatedKind (kind : FieldKind) :
    gatedKind others owner (gatedKind paths owner kind) =
      gatedKind (paths ++ others) owner kind := by
  cases kind with
  | dynamic nested addButtonLabel =>
      simp only [gatedKind, List.map_map, Function.comp_def, mark_mark]
  | radio options =>
      simp only [gatedKind, List.map_map, Function.comp_def, Option.map_map, mark_mark]
  | text | checkbox | toggle | button | static => rfl

/-- Gating by one list after another is gating by both. -/
theorem gate_gate (f : Field) :
    (f.gate paths owner).gate others owner = f.gate (paths ++ others) owner :=
  calc
    _ = { f with
          adminOnly := f.adminOnly || f.coveredBy paths owner false ||
            f.coveredBy others owner false
          kind := gatedKind others owner (gatedKind paths owner f.kind) } := by
      rw [gate_eq, mark_eq, coveredBy_of_name (name_gate f), gate_eq, mark_eq]
    _ = f.gate (paths ++ others) owner := by
      rw [gate_eq, mark_eq, coveredBy_append, gatedKind_gatedKind, Bool.or_assoc]

end Field

/-! ## Gated schemas -/

namespace Schema

variable {s : Schema} {paths others : List AdminPath}

theorem gate_eq (s : Schema) (paths : List AdminPath) :
    s.gate paths = { s with sections := s.sections.map fun part =>
      { part with fields := part.fields.map (Field.gate paths (part.owner s.backendKey)) } } := by
  rw [← sections_gate]
  rfl

theorem gate_gate (s : Schema) (paths others : List AdminPath) :
    (s.gate paths).gate others = s.gate (paths ++ others) := by
  rw [gate_eq (s.gate paths), gate_eq s paths, gate_eq s (paths ++ others)]
  simp only [List.map_map, Function.comp_def, FormSection.owner, Field.gate_gate]

theorem gate_congr
    (same : ∀ rest, AdminPath.anyCovers paths (s.backendKey :: rest) =
      AdminPath.anyCovers others (s.backendKey :: rest)) :
    s.gate paths = s.gate others := by
  rw [gate_eq, gate_eq]
  have fields : ∀ part : FormSection, part.fields.map (Field.gate paths (part.owner s.backendKey)) =
      part.fields.map (Field.gate others (part.owner s.backendKey)) := by
    intro part
    refine List.map_congr_left fun f _ => Field.gate_congr (fun rest => ?_) f
    exact same (part.backendKey :: rest)
  simp only [fields]

theorem gate_of_mem_iff (same : ∀ path, path ∈ paths ↔ path ∈ others) :
    s.gate paths = s.gate others :=
  gate_congr fun rest => AdminPath.anyCovers_congr same (s.backendKey :: rest)

/-- Gating only by the paths of the schema finds the same. -/
theorem gate_filter_rooted (somewhere : ∀ path ∈ paths, path.keys ≠ []) :
    s.gate (paths.filter fun path => path.keys.head? = some s.backendKey) = s.gate paths :=
  gate_congr fun rest => AdminPath.anyCovers_filter_rooted somewhere rest

/-- Gatings add up in any order, and neither the order of the paths matters nor how often one is
    listed. Of the paths of settings, those of the schema decide everything but which others are
    unmatched. -/
theorem gate_composes (s : Schema) (paths others : List AdminPath) :
    (s.gate paths).gate others = s.gate (paths ++ others) ∧
    (s.gate others).gate paths = s.gate (paths ++ others) ∧
    (s.gate paths).gate paths = s.gate paths ∧
    (∀ listed : List AdminPath, (∀ path, path ∈ listed ↔ path ∈ paths) →
      s.gate listed = s.gate paths) ∧
    ∀ (settings : Settings) all, settings.adminPaths = .ok all →
      ∃ rooted, settings.adminPathsFor s.backendKey = .ok rooted ∧
        s.gate rooted = s.gate all ∧
        (s.gatingReport rooted).gatedFields = (s.gatingReport all).gatedFields ∧
        (s.gatingReport rooted).unmatched = (s.gatingReport all).unmatched.filter fun path =>
          path.keys.head? = some s.backendKey := by
  refine ⟨s.gate_gate paths others, ?_, ?_, fun listed => gate_of_mem_iff, ?_⟩
  · rw [gate_gate]
    apply gate_of_mem_iff
    intro path
    rw [List.mem_append, List.mem_append, or_comm]
  · rw [gate_gate]
    apply gate_of_mem_iff
    intro path
    rw [List.mem_append, or_self]
  · intro settings all read
    have somewhere : ∀ path ∈ all, path.keys ≠ [] := AdminPath.keys_ne_nil_of_parseAll read
    have gated := gate_filter_rooted (s := s) somewhere
    refine ⟨all.filter fun path => path.keys.head? = some s.backendKey, ?_, gated, ?_, ?_⟩
    · rw [Settings.adminPathsFor, read]
      rfl
    · simp only [gatingReport, gated]
    · simp only [gatingReport, List.filter_filter, Bool.and_comm]

/-- Settings with two paths of the chained form, one of which covers nothing, and one of another. -/
def twoForms : Settings := ⟨["S.a.mode", "S.b", "T.a"], 3000, .wholeForm⟩

/-- The path of the other form makes no difference, and is not reported with the own one. -/
theorem chained_gated_by_two_forms :
    ∃ rooted, twoForms.adminPathsFor "S" = .ok rooted ∧
      chained.gate rooted = chained.gate [⟨["S", "a", "mode"]⟩, ⟨["S", "b"]⟩, ⟨["T", "a"]⟩] ∧
      (chained.gatingReport rooted).unmatched = [⟨["S", "b"]⟩] := by
  have read : twoForms.adminPaths =
      .ok [⟨["S", "a", "mode"]⟩, ⟨["S", "b"]⟩, ⟨["T", "a"]⟩] := rfl
  obtain ⟨-, -, -, -, bySettings⟩ := chained.gate_composes [] []
  obtain ⟨rooted, isRooted, gated, -, unmatched⟩ := bySettings twoForms _ read
  exact ⟨rooted, isRooted, gated, unmatched⟩

end Schema

end GatedForms

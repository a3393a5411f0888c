import GatedForms.Proofs.Paths.Display
import GatedForms.Proofs.Validation.Located

/-! # Paths of bound rules

A rule is bound to the section of the first field that has its name. The name can be read off every
path that the rule is applied at, so no two sections have rules for one path.
-/

namespace GatedForms

namespace Path

def beforeIndex (p : Path) : Path := ⟨p.root, p.below.takeWhile fun s => !isIndex s⟩

theorem beforeIndex_of_isKeyOnly {p : Path} (keyOnly : p.isKeyOnly = true) :
    p.beforeIndex = p := by
  have noIndex : ∀ s ∈ p.below, (!isIndex s) = true := by simpa [isKeyOnly] using keyOnly
  have kept : (p.below ++ []).takeWhile (fun s => !isIndex s) = p.below ++ [] :=
    List.takeWhile_append_of_pos noIndex
  rw [List.append_nil] at kept
  rw [beforeIndex, kept]

theorem beforeIndex_repetition {group : Path} (keyOnly : group.isKeyOnly = true) (position : Nat)
    (name : Path) : ((group.index position).join name).beforeIndex = group := by
  have noIndex : ∀ s ∈ group.below, (!isIndex s) = true := by simpa [isKeyOnly] using keyOnly
  simp only [beforeIndex, join, index, List.append_assoc]
  rw [List.takeWhile_append_of_pos noIndex]
  simp [isIndex]

end Path

/-! ## Sections of paths -/

namespace Schema

variable {s : Schema}

/-- The section of the first field that has the printed name of a path without its indices. -/
def sectionOf? (s : Schema) (p : Path) : Option Nat :=
  (s.locate? p.beforeIndex.display).map Prod.fst

theorem sectionOf?_lt {p : Path} {i : Nat} (located : s.sectionOf? p = some i) :
    i < s.sections.length := by
  obtain ⟨⟨_, f⟩, found, rfl⟩ := Option.map_eq_some_iff.mp located
  obtain ⟨fieldIndex, options, atPlace, -⟩ := exists_place_of_locate? found
  obtain ⟨part, -, atIndex, -⟩ := exists_top_of_at? rfl atPlace
  exact (List.getElem?_eq_some_iff.mp atIndex).1

end Schema

/-! ## Bound rules -/

theorem RuleSpec.parseName_of_readName {name : String} {p : Path}
    (read : readName name = .ok p) : Path.parseName name = .ok p := by
  unfold readName at read
  split at read
  · next path pathRead =>
    cases read
    exact pathRead
  · cases read

theorem RuleSpec.bindAll_eq_mapM (s : Schema) (specs : List RuleSpec) :
    bindAll s specs = specs.mapM (bind s) := by
  induction specs with
  | nil => rfl
  | cons spec rest ih =>
      rw [bindAll, List.mapM_cons, ih]
      rfl

/-- What binding a rule finds: the field, the path of its name, and for a rule about repetitions the
    path of a nested field. -/
inductive Check.Bound (s : Schema) : Check → Prop where
  | field {name : String} {sectionIndex : Nat} {f : Field} {path : Path} {rule : Rule}
      (located : s.locate? name = some (sectionIndex, f)) (read : Path.parseName name = .ok path) :
      Bound s ⟨sectionIndex, .field path, rule⟩
  | eachRepetition {name nestedName : String} {sectionIndex : Nat} {f : Field}
      {path nested : Path} {rule : Rule} (located : s.locate? name = some (sectionIndex, f))
      (read : Path.parseName name = .ok path) (hasNested : f.hasNested nestedName = true)
      (nestedRead : Path.parseName nestedName = .ok nested) :
      Bound s ⟨sectionIndex, .eachRepetition path nested, rule⟩

theorem RuleSpec.found_of_bind {s : Schema} {spec : RuleSpec} {check : Check}
    (bound : spec.bind s = .ok check) :
    ∃ sectionIndex f path, s.locate? spec.field = some (sectionIndex, f) ∧
      Path.parseName spec.field = .ok path ∧
      (spec.nested = none ∧ check = ⟨sectionIndex, .field path, spec.rule⟩ ∨
        ∃ nested below, spec.nested = some nested ∧ f.hasNested nested = true ∧
          Path.parseName nested = .ok below ∧
          check = ⟨sectionIndex, .eachRepetition path below, spec.rule⟩) := by
  unfold bind at bound
  split at bound
  · cases bound
  · next sectionIndex f located =>
    obtain ⟨path, read, bound⟩ := ok_of_bind bound
    refine ⟨sectionIndex, f, path, located, parseName_of_readName read, ?_⟩
    split at bound
    · next direct =>
      cases bound
      exact .inl ⟨direct, rfl⟩
    · next nested isNested =>
      split at bound
      · next hasNested =>
        obtain ⟨below, belowRead, bound⟩ := ok_of_bind bound
        cases bound
        exact .inr ⟨nested, below, isNested, hasNested, parseName_of_readName belowRead, rfl⟩
      · cases bound

theorem RuleSpec.bound_of_bind {s : Schema} {spec : RuleSpec} {check : Check}
    (bound : spec.bind s = .ok check) : check.Bound s := by
  obtain ⟨_, _, _, located, read, ⟨-, rfl⟩ | ⟨_, _, -, hasNested, belowRead, rfl⟩⟩ :=
    found_of_bind bound
  · exact .field located read
  · exact .eachRepetition located read hasNested belowRead

theorem RuleSpec.bound_of_bindAll {s : Schema} {specs : List RuleSpec} {checks : List Check}
    (bound : bindAll s specs = .ok checks) : ∀ check ∈ checks, check.Bound s := by
  induction specs generalizing checks with
  | nil =>
      cases bound
      exact nofun
  | cons spec rest ih =>
      obtain ⟨check, checkBound, bound⟩ := ok_of_bind bound
      obtain ⟨others, othersBound, bound⟩ := ok_of_bind bound
      cases bound
      exact List.forall_mem_cons.mpr ⟨bound_of_bind checkBound, ih othersBound⟩

theorem Validator.bound_of_build {s : Schema} {specs : List RuleSpec} {v : Validator}
    (built : build s specs = .ok v) : ∀ check ∈ v.checks, check.Bound s := by
  obtain ⟨checks, bound, rfl⟩ := map_eq_ok.mp built
  exact RuleSpec.bound_of_bindAll bound

/-- The text of a path tells the section of every rule that is applied there. -/
theorem Check.Bound.paths {s : Schema} {check : Check} (bound : check.Bound s) {values : Values}
    {p : Path} (member : p ∈ check.target.paths values) :
    p.Plain ∧ s.sectionOf? p = some check.sectionIndex := by
  cases bound with
  | @field name sectionIndex f path rule located read =>
      cases List.mem_singleton.mp member
      obtain ⟨pathRead, keyOnly⟩ := Path.parse_of_parseName read
      refine ⟨(Path.printable_of_parse pathRead).plain, ?_⟩
      rw [Schema.sectionOf?, Path.beforeIndex_of_isKeyOnly keyOnly, Path.display_of_parseName read,
        located]
      rfl
  | @eachRepetition name nestedName sectionIndex f path nested rule located read hasNested
      nestedRead =>
      obtain ⟨position, -, rfl⟩ := List.mem_map.mp member
      obtain ⟨pathRead, keyOnly⟩ := Path.parse_of_parseName read
      have nestedParsed := (Path.parse_of_parseName nestedRead).1
      refine ⟨(Path.printable_of_parse pathRead).plain.repetition
        (Path.printable_of_parse nestedParsed).plain position, ?_⟩
      rw [Schema.sectionOf?, Path.beforeIndex_repetition keyOnly, Path.display_of_parseName read,
        located]
      rfl

end GatedForms

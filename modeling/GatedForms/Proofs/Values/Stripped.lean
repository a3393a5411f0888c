import GatedForms.Proofs.Values.Strip

/-! # What stripped records hold

Removing a place takes away what is read from it on. Everything else is read as before, except that
the objects above the place lack a member. Stripping a record does so for each locked place.
-/

namespace GatedForms

namespace Json

/-! ## Removing one place -/

theorem without_of_not_object {x : Json} (notObject : ¬ ∃ members, x = .object members)
    (keys : List String) : x.without keys = x := by
  have nothing : x.remove? (keys.map .key) = none := by
    cases x with
    | object members => exact absurd ⟨members, rfl⟩ notObject
    | null | bool | int | float | text | array =>
        match keys with
        | [] | [_] | _ :: _ :: _ => rfl
  rw [without, nothing]
  rfl

theorem get?_key_of_not_object {x : Json} (notObject : ¬ ∃ members, x = .object members)
    (name : String) (rest : List Segment) : x.get? (.key name :: rest) = none := by
  cases x with
  | object members => exact absurd ⟨members, rfl⟩ notObject
  | null | bool | int | float | text | array => rfl

theorem get?_without_removed (x : Json) {keys : List String} (somewhere : keys ≠ [])
    (below : List Segment) : (x.without keys).get? (keys.map .key ++ below) = none := by
  induction keys generalizing x with
  | nil => exact absurd rfl somewhere
  | cons key rest ih =>
      by_cases isObject : ∃ members, x = .object members
      · obtain ⟨members, rfl⟩ := isObject
        obtain ⟨left, isLeft, -, atKey, -⟩ := exists_without_object members key rest
        rw [isLeft]
        simp only [List.map_cons, List.cons_append, Json.get?, member?, atKey]
        cases rest with
        | nil => rfl
        | cons next rest =>
            cases KeyMap.find? key members with
            | none => rfl
            | some child => exact ih child (List.cons_ne_nil next rest)
      · rw [without_of_not_object isObject]
        exact get?_key_of_not_object isObject _ _

/-- What does not lead on from a removed place is read as before, or is an object above it. -/
theorem get?_without (x : Json) {keys : List String} {steps : List Segment}
    (notBelow : ¬ keys.map .key <+: steps) :
    (x.without keys).get? steps = x.get? steps ∨
      steps <+: keys.map .key ∧ ∃ less whole, (x.without keys).get? steps = some (.object less) ∧
        x.get? steps = some (.object whole) := by
  induction keys generalizing x steps with
  | nil => exact absurd List.nil_prefix notBelow
  | cons key rest ih =>
      by_cases isObject : ∃ members, x = .object members
      · obtain ⟨members, rfl⟩ := isObject
        obtain ⟨left, isLeft, -, atKey, others⟩ := exists_without_object members key rest
        rw [isLeft]
        cases steps with
        | nil => exact .inr ⟨List.nil_prefix, left, members, rfl, rfl⟩
        | cons step below =>
            cases step with
            | index position => exact .inl rfl
            | key other =>
                simp only [Json.get?, member?]
                by_cases same : key = other
                · subst same
                  rw [atKey]
                  have notBelow : ¬ rest.map .key <+: below := fun inBelow =>
                    notBelow (List.cons_prefix_cons.mpr ⟨rfl, inBelow⟩)
                  cases rest with
                  | nil => exact absurd List.nil_prefix notBelow
                  | cons next rest =>
                      cases KeyMap.find? key members with
                      | none => exact .inl rfl
                      | some child =>
                          refine (ih child notBelow).imp_right (And.imp_left fun above => ?_)
                          exact List.cons_prefix_cons.mpr ⟨rfl, above⟩
                · exact .inl (by rw [others other same])
      · rw [without_of_not_object isObject]
        exact .inl rfl

theorem without_of_absent {x : Json} {keys : List String}
    (absent : x.get? (keys.map .key) = none) : x.without keys = x := by
  have somewhere : keys.map Segment.key ≠ [] := by
    intro nowhere
    rw [nowhere] at absent
    cases absent
  have nothing : remove? (keys.map .key) x = none := by
    rw [← Option.map_eq_none_iff, map_fst_remove? somewhere x]
    exact absent
  rw [without, nothing]
  rfl

/-! ## Stripped records -/

/-- `left` is `record` without its locked values, and lacks nothing else. -/
structure Stripped (locked : List Path) (record left : Json) : Prop where
  /-- At a locked name, and further down, nothing is read. -/
  gone : ∀ name ∈ locked, ∀ below, left.get? (name.segments ++ below) = none
  /-- Elsewhere the same is read as in the record, or an object that lacks something. -/
  kept : ∀ steps, (∀ name ∈ locked, ¬ name.segments <+: steps) →
    left.get? steps = record.get? steps ∨
      (∃ name ∈ locked, steps <+: name.segments) ∧
        ∃ less whole, left.get? steps = some (.object less) ∧
          record.get? steps = some (.object whole)

namespace Stripped

theorem of_nothing_locked (record : Json) : Stripped [] record record :=
  ⟨nofun, fun _ _ => .inl rfl⟩

theorem get?_cases {locked : List Path} {record left : Json}
    (stripped : Stripped locked record left) (steps : List Segment) :
    left.get? steps = none ∨ left.get? steps = record.get? steps ∨
      (∃ name ∈ locked, steps <+: name.segments) ∧
        ∃ less whole, left.get? steps = some (.object less) ∧
          record.get? steps = some (.object whole) := by
  by_cases further : ∃ name ∈ locked, name.segments <+: steps
  · obtain ⟨name, isLocked, below, rfl⟩ := further
    exact .inl (stripped.gone name isLocked below)
  · exact .inr (stripped.kept steps fun name isLocked above => further ⟨name, isLocked, above⟩)

theorem get?_eq_none {locked : List Path} {record left : Json}
    (stripped : Stripped locked record left) {steps : List Segment}
    (absent : record.get? steps = none) : left.get? steps = none := by
  rcases stripped.get?_cases steps with nothing | same | ⟨-, less, whole, -, present⟩
  · exact nothing
  · exact same.trans absent
  · cases absent.symm.trans present

theorem cons {locked : List Path} {record left : Json} {name : Path}
    (keyOnly : name.isKeyOnly = true) (stripped : Stripped locked (record.without name.keys) left) :
    Stripped (name :: locked) record left := by
  have segments := Path.segments_of_isKeyOnly keyOnly
  constructor
  · intro other member below
    rcases List.mem_cons.mp member with rfl | isLocked
    · have somewhere : other.keys ≠ [] := nofun
      have removed := get?_without_removed record somewhere below
      rw [← segments] at removed
      exact stripped.get?_eq_none removed
    · exact stripped.gone other isLocked below
  · intro steps apart
    obtain ⟨first, others⟩ := List.forall_mem_cons.mp apart
    rw [segments] at first
    have once := get?_without record first
    rw [← segments] at once
    rcases once with same | ⟨above, less, whole, isLess, isWhole⟩
    · rcases stripped.kept steps others with kept | ⟨⟨other, isLocked, above⟩, objects⟩
      · exact .inl (kept.trans same)
      · rw [same] at objects
        exact .inr ⟨⟨other, List.mem_cons_of_mem _ isLocked, above⟩, objects⟩
    · refine .inr ⟨⟨name, List.mem_cons_self, above⟩, ?_⟩
      rcases stripped.kept steps others with kept | ⟨-, fewer, _, isFewer, _⟩
      · exact ⟨less, whole, kept.trans isLess, isWhole⟩
      · exact ⟨fewer, whole, isFewer, isWhole⟩

theorem foldl_without {locked : List Path} (keyOnly : ∀ name ∈ locked, name.isKeyOnly = true)
    (record : Json) :
    Stripped locked record
      ((locked.map Path.keys).foldl (fun left each => left.without each) record) := by
  induction locked generalizing record with
  | nil => exact of_nothing_locked record
  | cons name rest ih =>
      obtain ⟨first, others⟩ := List.forall_mem_cons.mp keyOnly
      exact cons first (ih others (record.without name.keys))

end Stripped

/-- A stripped record lacks its locked values and nothing else; what is no object lacks nothing. -/
theorem stripped_strip {locked : List Path} (keyOnly : ∀ name ∈ locked, name.isKeyOnly = true)
    (record : Json) : Stripped locked record (strip locked record) := by
  by_cases isObject : ∃ members, record = .object members
  · obtain ⟨members, rfl⟩ := isObject
    rw [strip_object keyOnly]
    exact Stripped.foldl_without keyOnly _
  · have unchanged : strip locked record = record := by
      cases record with
      | object members => exact absurd ⟨members, rfl⟩ isObject
      | null | bool | int | float | text | array => rfl
    rw [unchanged]
    refine ⟨fun name _ below => get?_key_of_not_object isObject _ _, fun _ _ => .inl rfl⟩

theorem strip_of_absent {locked : List Path} (keyOnly : ∀ name ∈ locked, name.isKeyOnly = true)
    {record : Json} (absent : ∀ name ∈ locked, record.get? name.segments = none) :
    strip locked record = record := by
  cases record with
  | object members =>
      rw [strip_object keyOnly]
      induction locked with
      | nil => rfl
      | cons name rest ih =>
          obtain ⟨firstKeyOnly, restKeyOnly⟩ := List.forall_mem_cons.mp keyOnly
          obtain ⟨firstAbsent, restAbsent⟩ := List.forall_mem_cons.mp absent
          rw [Path.segments_of_isKeyOnly firstKeyOnly] at firstAbsent
          rw [List.map_cons, List.foldl_cons, without_of_absent firstAbsent]
          exact ih restKeyOnly restAbsent
  | null | bool | int | float | text | array => rfl

theorem strip_strip {locked : List Path} (keyOnly : ∀ name ∈ locked, name.isKeyOnly = true)
    (record : Json) : strip locked (strip locked record) = strip locked record := by
  apply strip_of_absent keyOnly
  intro name isLocked
  have gone := (stripped_strip keyOnly record).gone name isLocked []
  rwa [List.append_nil] at gone

end Json

end GatedForms

import GatedForms.Path

/-! # Paths that stand apart

Two paths stand apart if neither leads on from the other. What leads on from a path that stands
apart from a third stands apart from it too. Paths that stand apart part at their first different
steps, and a path without indices parts from another at a key.
-/

namespace GatedForms

deriving instance ReflBEq, LawfulBEq for Segment

theorem exists_first_difference {α : Type} {p q : List α} (notBelow : ¬ p <+: q)
    (notAbove : ¬ q <+: p) :
    ∃ common a b p' q', p = common ++ a :: p' ∧ q = common ++ b :: q' ∧ a ≠ b := by
  induction p generalizing q with
  | nil => exact absurd List.nil_prefix notBelow
  | cons a p' ih =>
      cases q with
      | nil => exact absurd List.nil_prefix notAbove
      | cons b q' =>
          by_cases same : a = b
          · subst same
            have further : ∀ {l m : List α}, ¬ a :: l <+: a :: m → ¬ l <+: m :=
              fun apart below => apart (List.cons_prefix_cons.mpr ⟨rfl, below⟩)
            obtain ⟨common, c, d, p'', q'', rfl, rfl, differ⟩ :=
              ih (further notBelow) (further notAbove)
            exact ⟨a :: common, c, d, p'', q'', rfl, rfl, differ⟩
          · exact ⟨[], a, b, p', q', rfl, rfl, same⟩

namespace Path

theorem segments_injective {p q : Path} (same : p.segments = q.segments) : p = q := by
  cases p
  cases q
  cases same
  rfl

theorem segments_ne_nil (p : Path) : p.segments ≠ [] := List.cons_ne_nil _ _

theorem segments_index (p : Path) (position : Nat) :
    (p.index position).segments = p.segments ++ [.index position] := rfl

theorem segments_join (p q : Path) : (p.join q).segments = p.segments ++ q.segments := rfl

/-- Neither path is the other or starts it. -/
def Apart (p q : Path) : Prop := p.startsWith q = false ∧ q.startsWith p = false

instance (p q : Path) : Decidable (p.Apart q) :=
  inferInstanceAs (Decidable (p.startsWith q = false ∧ q.startsWith p = false))

theorem Apart.symm {p q : Path} (apart : p.Apart q) : q.Apart p := ⟨apart.2, apart.1⟩

theorem startsWith_eq_false {p q : Path} :
    p.startsWith q = false ↔ ¬ q.segments <+: p.segments := by
  rw [startsWith, ← List.isPrefixOf_iff_prefix, Bool.not_eq_true]

/-- The paths go the same way up to the steps `s` of the one and `t` of the other, which differ. -/
structure PartsAt (p q : Path) (common : List Segment) (s t : Segment) : Prop where
  differ : s ≠ t
  first : common ++ [s] <+: p.segments
  second : common ++ [t] <+: q.segments

theorem PartsAt.symm {p q : Path} {common : List Segment} {s t : Segment}
    (parts : p.PartsAt q common s t) : q.PartsAt p common t s :=
  ⟨parts.differ.symm, parts.second, parts.first⟩

theorem PartsAt.exists_segments {p q : Path} {common : List Segment} {s t : Segment}
    (parts : p.PartsAt q common s t) :
    ∃ below below', p.segments = common ++ s :: below ∧ q.segments = common ++ t :: below' := by
  obtain ⟨below, first⟩ := parts.first
  obtain ⟨below', second⟩ := parts.second
  exact ⟨below, below', by rw [← first, ← List.append_cons], by rw [← second, ← List.append_cons]⟩

theorem PartsAt.startsWith_eq_false {p q : Path} {common : List Segment} {s t : Segment}
    (parts : p.PartsAt q common s t) : p.startsWith q = false := by
  rw [Path.startsWith_eq_false]
  intro above
  have shorter := List.prefix_of_prefix_length_le (parts.second.trans above) parts.first (by simp)
  have same := shorter.eq_of_length (by simp)
  exact parts.differ (List.singleton_inj.mp (List.append_cancel_left same)).symm

theorem eq_keys_of_no_index {steps : List Segment} (noIndex : ∀ s ∈ steps, isIndex s = false) :
    steps = (steps.filterMap keyOf?).map .key := by
  induction steps with
  | nil => rfl
  | cons s rest ih =>
      have ⟨isKey, restKeys⟩ := List.forall_mem_cons.mp noIndex
      cases s with
      | key name => exact congrArg (List.cons (.key name)) (ih restKeys)
      | index position => cases isKey

theorem segments_of_isKeyOnly {p : Path} (keyOnly : p.isKeyOnly = true) :
    p.segments = p.keys.map .key := by
  refine eq_keys_of_no_index fun s member => ?_
  rcases List.mem_cons.mp member with rfl | inBelow
  · rfl
  · have noIndex : ∀ s ∈ p.below, isIndex s = false := by simpa [isKeyOnly] using keyOnly
    exact noIndex s inBelow

theorem segments_repetition (group name : Path) (position : Nat) :
    ((group.index position).join name).segments =
      group.segments ++ .index position :: name.segments := by
  simp [segments, join, index]

theorem Apart.of_prefix {p own name : Path} (apart : own.Apart name)
    (further : own.segments <+: p.segments) : p.Apart name := by
  obtain ⟨notAbove, notBelow⟩ := apart
  rw [startsWith_eq_false] at notAbove notBelow
  refine ⟨startsWith_eq_false.mpr fun above => ?_, startsWith_eq_false.mpr fun below => ?_⟩
  · rcases List.prefix_or_prefix_of_prefix above further with nameFirst | ownFirst
    · exact notAbove nameFirst
    · exact notBelow ownFirst
  · exact notBelow (further.trans below)

theorem isIndex_eq_false {p : Path} (keyOnly : p.isKeyOnly = true) {s : Segment}
    (member : s ∈ p.segments) : isIndex s = false := by
  rw [segments_of_isKeyOnly keyOnly] at member
  obtain ⟨name, _, rfl⟩ := List.mem_map.mp member
  rfl

theorem PartsAt.exists_key {p q : Path} {common : List Segment} {s t : Segment}
    (parts : p.PartsAt q common s t) (keyOnly : p.isKeyOnly = true) : ∃ name, s = .key name := by
  cases s with
  | key name => exact ⟨name, rfl⟩
  | index position =>
      have isKey := isIndex_eq_false keyOnly
        (parts.first.subset (List.mem_append_right common List.mem_cons_self))
      cases isKey

/-- Paths that stand apart part at some step. -/
theorem Apart.exists_partsAt {p q : Path} (apart : p.Apart q) :
    ∃ common s t, p.PartsAt q common s t := by
  obtain ⟨common, s, t, below, below', atFirst, atSecond, differ⟩ := exists_first_difference
    (startsWith_eq_false.mp apart.2) (startsWith_eq_false.mp apart.1)
  refine ⟨common, s, t, differ, ⟨below, ?_⟩, ⟨below', ?_⟩⟩
  · rw [atFirst, ← List.append_cons]
  · rw [atSecond, ← List.append_cons]

end Path

end GatedForms

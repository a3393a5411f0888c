import GatedForms.Proofs.Validation.Refusals

/-! # What validation makes of values

Of the values that pass, a validator returns the same tree with numbers in the places that it
bounds. Nothing else changes: no container is made, grows or shrinks. What is returned passes once
more, as it is.
-/

namespace GatedForms

namespace Validator

variable {v : Validator} {values normalized : Values} {scope : ValidationScope} {p : Path}

/-- A range in scope is about the path, and a value is given there. -/
inductive Bounds (v : Validator) (scope : ValidationScope) (values : Values) (p : Path) : Prop where
  | range {check : Check} {min max : Int} (inChecks : check ∈ v.checks)
      (inScope : scope.covers check.sectionIndex = true) (isRange : check.rule = .range min max)
      (reached : check.target.Reaches values p) (given : ¬ Json.Blank (values.get? p))

theorem alike_of_check (accepted : v.check values scope = .ok normalized) :
    normalized.Alike values := by
  obtain ⟨-, rfl⟩ := check_eq_ok.mp accepted
  exact Values.alike_setAll denotes_of_mem_filterMap

/-- The values that a validation has made pass it, and come out as they are. -/
theorem check_normalized (accepted : v.check values scope = .ok normalized) :
    v.check normalized scope = .ok normalized := by
  have alike := alike_of_check accepted
  obtain ⟨pass, rfl⟩ := check_eq_ok.mp accepted
  refine check_eq_ok.mpr ⟨fun task member => ?_, ?_⟩
  · rw [tasks_congr v alike] at member
    rw [refusal?_congr alike]
    exact pass task member
  · rw [tasks_congr v alike, number?_congr alike,
      Values.setAll_setAll_of_denotes denotes_of_mem_filterMap]

theorem blank_or_reads_of_check (accepted : v.check values scope = .ok normalized) {min max : Int}
    (member : (.range min max, p) ∈ v.tasks values scope) :
    Json.Blank (values.get? p) ∨ ∃ n, (Rule.range min max).Reads (values.get? p) n ∧
      (p, .int n) ∈ (v.tasks values scope).filterMap (number? values) := by
  obtain ⟨pass, -⟩ := check_eq_ok.mp accepted
  have notRefused := pass _ member
  cases applied : (Rule.range min max).apply (values.get? p) with
  | pass => exact .inl (Rule.apply_range_eq_pass.mp applied)
  | normalize n =>
      refine .inr ⟨n, Rule.apply_eq_normalize.mp applied, ?_⟩
      exact List.mem_filterMap.mpr ⟨_, member, by simp only [number?, applied]⟩
  | fail message => simp [refusal?, applied] at notRefused

theorem mem_numbers_of_bounds (accepted : v.check values scope = .ok normalized)
    (bounds : v.Bounds scope values p) :
    ∃ x n, values.get? p = some x ∧ x.Denotes n ∧
      (p, .int n) ∈ (v.tasks values scope).filterMap (number? values) := by
  cases bounds with
  | @range check min max inChecks inScope isRange reached given =>
      have member : (.range min max, p) ∈ v.tasks values scope :=
        mem_tasks.mpr ⟨check, inChecks, inScope, CheckTarget.mem_paths.mpr reached, isRange.symm⟩
      rcases blank_or_reads_of_check accepted member with blank | ⟨n, reads, written⟩
      · exact absurd blank given
      · obtain ⟨x, stored, denotes⟩ := reads.denotes
        exact ⟨x, n, stored, denotes, written⟩

theorem bounds_of_mem_numbers {entry : Path × Json}
    (member : entry ∈ (v.tasks values scope).filterMap (number? values)) :
    v.Bounds scope values entry.1 := by
  obtain ⟨task, inTasks, found⟩ := List.mem_filterMap.mp member
  obtain ⟨check, inChecks, inScope, pathMember, isRule⟩ := mem_tasks.mp inTasks
  unfold number? at found
  split at found
  · next n applied =>
    cases found
    obtain ⟨⟨min, max, isRange⟩, given⟩ := (Rule.apply_eq_normalize.mp applied).range_of_given
    rw [isRule] at isRange
    exact .range inChecks inScope isRange (CheckTarget.mem_paths.mp pathMember) given
  · cases found

/-- Validation touches nothing but the values that it bounds. If values pass, then what is returned
    has something at the same paths; where no value is bounded, there is the same as before, or a
    container of the same extent; where one is bounded, there is the number that it denotes. What is
    returned passes as it is. -/
theorem check_touches_bounded_values (v : Validator) (values normalized : Values)
    (scope : ValidationScope) (accepted : v.check values scope = .ok normalized) :
    (∀ p, (normalized.get? p).isSome = (values.get? p).isSome) ∧
    (∀ p, ¬ v.Bounds scope values p → Json.Framed (normalized.get? p) (values.get? p)) ∧
    (∀ p, v.Bounds scope values p →
      ∃ x n, values.get? p = some x ∧ x.Denotes n ∧ normalized.get? p = some (.int n)) ∧
    v.check normalized scope = .ok normalized := by
  obtain ⟨-, written⟩ := check_eq_ok.mp accepted
  have framed : ∀ p, ¬ v.Bounds scope values p →
      Json.Framed (normalized.get? p) (values.get? p) := by
    intro p unbounded
    rw [written]
    apply Values.framed_get?_setAll denotes_of_mem_filterMap
    intro entry member same
    rw [same] at unbounded
    exact unbounded (bounds_of_mem_numbers member)
  have numbers : ∀ p, v.Bounds scope values p →
      ∃ x n, values.get? p = some x ∧ x.Denotes n ∧ normalized.get? p = some (.int n) := by
    intro p bounds
    obtain ⟨x, n, stored, denotes, member⟩ := mem_numbers_of_bounds accepted bounds
    refine ⟨x, n, stored, denotes, ?_⟩
    rw [written]
    exact Values.get?_setAll_of_denotes denotes_of_mem_filterMap member
  refine ⟨?_, framed, numbers, check_normalized accepted⟩
  intro p
  by_cases bounds : v.Bounds scope values p
  · obtain ⟨x, n, stored, -, number⟩ := numbers p bounds
    rw [stored, number]
    rfl
  · exact (framed p bounds).isSome_eq

def strict.typed : Values :=
  ⟨[("a", .object [("mode", .bool true), ("rate", .text " 007"),
    ("steps", .array [.object [("gap", .text "+60 "), ("memo", .text "12")]])])]⟩

/-- The rate and the gap become numbers, and the memo stays a text. -/
theorem strict_makes_numbers :
    ∃ normalized, strict.check strict.typed .form = .ok normalized ∧
      normalized.get? ⟨"a", [.key "rate"]⟩ = some (.int 7) ∧
      normalized.get? ⟨"a", [.key "steps", .index 0, .key "gap"]⟩ = some (.int 60) ∧
      normalized.get? ⟨"a", [.key "steps", .index 0, .key "memo"]⟩ = some (.text "12") ∧
      strict.check normalized .form = .ok normalized := by
  have rateRead : (Json.text " 007").toInteger? = some 7 := by decide
  have gapRead : (Json.text "+60 ").toInteger? = some 60 := by decide
  obtain ⟨normalized, accepted⟩ : ∃ normalized, strict.check strict.typed .form = .ok normalized :=
    ⟨_, rfl⟩
  obtain ⟨-, framed, numbers, again⟩ :=
    strict.check_touches_bounded_values strict.typed normalized .form accepted
  have rate : strict.Bounds .form strict.typed ⟨"a", [.key "rate"]⟩ := by
    refine .range (.head _) rfl rfl (.field _) ?_
    exact (Json.toInteger?_eq_some.mp rateRead).not_blank
  have gap : strict.Bounds .form strict.typed ⟨"a", [.key "steps", .index 0, .key "gap"]⟩ := by
    refine .range (.tail _ (.tail _ (.head _))) rfl rfl (.repetition (i := 0) rfl (by decide)) ?_
    exact (Json.toInteger?_eq_some.mp gapRead).not_blank
  refine ⟨normalized, accepted, ?_, ?_, ?_, again⟩
  · obtain ⟨x, n, stored, denotes, written⟩ := numbers _ rate
    cases stored
    cases rateRead.symm.trans (Json.toInteger?_eq_some.mpr denotes)
    exact written
  · obtain ⟨x, n, stored, denotes, written⟩ := numbers _ gap
    cases stored
    cases gapRead.symm.trans (Json.toInteger?_eq_some.mpr denotes)
    exact written
  · have noCheck : ∀ check ∈ strict.checks,
        ⟨"a", [.key "steps", .index 0, .key "memo"]⟩ ∉ check.target.paths strict.typed := by decide
    have unbounded : ¬ strict.Bounds .form strict.typed
        ⟨"a", [.key "steps", .index 0, .key "memo"]⟩ := by
      intro bounds
      cases bounds with
      | range inChecks _ _ reached =>
          exact noCheck _ inChecks (CheckTarget.mem_paths.mpr reached)
    have stored : strict.typed.get? ⟨"a", [.key "steps", .index 0, .key "memo"]⟩ =
        some (.text "12") := rfl
    have same := framed _ unbounded
    rw [stored] at same
    generalize normalized.get? _ = memo at same
    cases same
    rfl

end Validator

end GatedForms

import GatedForms.Proofs.Validation.Seen

/-! # What a validator refuses

A check refuses some of the values at its paths. A tree is rejected exactly if a check in scope
refuses a value; the messages are about the paths of such values, and each is that of the first
check that refuses the value there.
-/

namespace GatedForms

/-- The paths that a check is about: that of a field, or one for each repetition that is stored. -/
inductive CheckTarget.Reaches (values : Values) : CheckTarget → Path → Prop where
  | field (path : Path) : Reaches values (.field path) path
  | repetition {group nested : Path} {items : List Json} {i : Nat}
      (stored : values.get? group = some (.array items)) (inside : i < items.length) :
      Reaches values (.eachRepetition group nested) ((group.index i).join nested)

theorem CheckTarget.mem_paths {target : CheckTarget} {values : Values} {p : Path} :
    p ∈ target.paths values ↔ target.Reaches values p := by
  cases target with
  | field path =>
      rw [paths, List.mem_singleton]
      constructor
      · intro same
        subst same
        exact .field p
      · intro reached
        cases reached
        rfl
  | eachRepetition group nested =>
      simp only [paths, List.mem_map, List.mem_range]
      constructor
      · intro among
        obtain ⟨i, inside, rfl⟩ := among
        -- Only an array has any items.
        cases stored : values.get? group with
        | none =>
            rw [stored] at inside
            cases inside
        | some x =>
            rw [stored] at inside
            cases x with
            | array items => exact .repetition stored inside
            | null | bool | int | float | text | object => cases inside
      · intro reached
        cases reached with
        | @repetition _ _ items i stored inside =>
            refine ⟨i, ?_, rfl⟩
            rw [stored]
            exact inside

theorem Validator.refusal?_eq_some {values : Values} {task : Rule × Path} {text : String} :
    refusal? values task = some text ↔
      task.1.Refuses (values.get? task.2) ∧ text = task.1.refusal := by
  rw [← Rule.apply_eq_fail, refusal?]
  cases task.1.apply (values.get? task.2) with
  | pass | normalize => simp
  | fail message => simp

/-! ## Checks -/

namespace Check

variable {scope : ValidationScope} {values : Values} {check : Check} {p : Path} {key text : String}

/-- The check is in scope, and refuses the value at one of its paths. -/
structure Refuses (scope : ValidationScope) (values : Values) (check : Check) (p : Path) :
    Prop where
  inScope : scope.covers check.sectionIndex = true
  reached : check.target.Reaches values p
  refused : check.rule.Refuses (values.get? p)

def refusalAt? (scope : ValidationScope) (values : Values) (key : String) (check : Check) :
    Option String :=
  if scope.covers check.sectionIndex then
    (check.target.paths values).findSome? fun p => Validator.refusalAt? values key (check.rule, p)
  else none

theorem Refuses.of_refusalAt? (found : check.refusalAt? scope values key = some text) :
    ∃ p, check.Refuses scope values p ∧ p.display = key ∧ text = check.rule.refusal := by
  obtain ⟨inScope, found⟩ := Option.ite_none_right_eq_some.mp found
  obtain ⟨p, member, found⟩ := List.exists_of_findSome?_eq_some found
  obtain ⟨same, found⟩ := Option.ite_none_right_eq_some.mp found
  obtain ⟨refused, isRefusal⟩ := Validator.refusal?_eq_some.mp found
  exact ⟨p, ⟨inScope, CheckTarget.mem_paths.mp member, refused⟩, same, isRefusal⟩

theorem Refuses.refusalAt? (refuses : check.Refuses scope values p) :
    check.refusalAt? scope values p.display = some check.rule.refusal := by
  cases found : check.refusalAt? scope values p.display with
  | some text =>
      obtain ⟨_, _, _, isRefusal⟩ := of_refusalAt? found
      rw [isRefusal]
  | none =>
      rw [Check.refusalAt?, if_pos refuses.inScope, List.findSome?_eq_none_iff] at found
      have nothing := found p (CheckTarget.mem_paths.mpr refuses.reached)
      have message : Validator.refusal? values (check.rule, p) = some check.rule.refusal :=
        Validator.refusal?_eq_some.mpr ⟨refuses.refused, rfl⟩
      rw [Validator.refusalAt?, if_pos rfl, message] at nothing
      cases nothing

end Check

/-! ## Validators -/

namespace Validator

variable {scope : ValidationScope} {values : Values} {key text : String}

theorem findSome?_tasks (v : Validator) (values : Values) (scope : ValidationScope)
    (key : String) :
    (v.tasks values scope).findSome? (refusalAt? values key) =
      v.checks.findSome? (Check.refusalAt? scope values key) := by
  obtain ⟨checks⟩ := v
  unfold tasks
  induction checks with
  | nil => rfl
  | cons check rest ih =>
      rw [List.findSome?_cons, ← ih]
      by_cases inScope : scope.covers check.sectionIndex = true
      · simp only [List.filter_cons, inScope, if_true, List.flatMap_cons, List.findSome?_append,
          List.findSome?_map, Function.comp_def, Check.refusalAt?]
        cases List.findSome? _ (check.target.paths values) <;> rfl
      · simp only [List.filter_cons, inScope, if_false, Check.refusalAt?, Bool.false_eq_true]

theorem ascending_foldl (tasks : List (Rule × Path)) {progress : Progress}
    (ascending : KeyMap.Ascending progress.messages.fields) :
    KeyMap.Ascending (tasks.foldl (step values) progress).messages.fields := by
  induction tasks generalizing progress with
  | nil => exact ascending
  | cons task rest ih =>
      apply ih
      unfold step
      simp only
      split
      · exact ascending
      · split
        · exact ascending
        · exact ascending
        · exact KeyMap.ascending_insert _ _ ascending

theorem form_and_fields_of_check {v : Validator} {messages : Messages}
    (rejected : v.check values scope = .error messages) :
    messages.form = [] ∧ KeyMap.Ascending messages.fields := by
  unfold check at rejected
  simp only at rejected
  split at rejected
  · cases rejected
  · cases rejected
    exact ⟨form_foldl _ _, ascending_foldl _ KeyMap.ascending_nil⟩

/-- The first check in the order of the validator that refuses the value at a path. -/
def FirstRefuses (v : Validator) (scope : ValidationScope) (values : Values) (p : Path)
    (check : Check) : Prop :=
  ∃ before after, v.checks = before ++ check :: after ∧ check.Refuses scope values p ∧
    ∀ earlier ∈ before, ¬ earlier.Refuses scope values p

theorem display_injective_of_refuses {s : Schema} {v : Validator}
    (bound : ∀ check ∈ v.checks, check.Bound s) {check other : Check} {p q : Path}
    (member : check ∈ v.checks) (otherMember : other ∈ v.checks)
    (refuses : check.Refuses scope values p) (otherRefuses : other.Refuses scope values q)
    (same : p.display = q.display) : p = q := by
  have plain := ((bound check member).paths (CheckTarget.mem_paths.mpr refuses.reached)).1
  have otherPlain :=
    ((bound other otherMember).paths (CheckTarget.mem_paths.mpr otherRefuses.reached)).1
  exact Path.display_injective plain otherPlain same

theorem FirstRefuses.mem {v : Validator} {p : Path} {check : Check}
    (first : v.FirstRefuses scope values p check) : check ∈ v.checks := by
  obtain ⟨before, after, split, -⟩ := first
  rw [split]
  exact List.mem_append_right _ List.mem_cons_self

theorem FirstRefuses.refuses {v : Validator} {p : Path} {check : Check}
    (first : v.FirstRefuses scope values p check) : check.Refuses scope values p := by
  obtain ⟨_, _, _, refuses, _⟩ := first
  exact refuses

/-- The first message for a text is that of the first check that refuses the value at its path. -/
theorem findSome?_refusalAt? {s : Schema} {v : Validator}
    (bound : ∀ check ∈ v.checks, check.Bound s) :
    v.checks.findSome? (Check.refusalAt? scope values key) = some text ↔
      ∃ p check, v.FirstRefuses scope values p check ∧ key = p.display ∧
        text = check.rule.refusal := by
  rw [List.findSome?_eq_some_iff]
  constructor
  · intro found
    obtain ⟨before, check, after, split, refusal, nothingBefore⟩ := found
    obtain ⟨p, refuses, rfl, isRefusal⟩ := Check.Refuses.of_refusalAt? refusal
    refine ⟨p, check, ⟨before, after, split, refuses, ?_⟩, rfl, isRefusal⟩
    intro earlier member earlierRefuses
    cases (nothingBefore earlier member).symm.trans earlierRefuses.refusalAt?
  · intro first
    obtain ⟨p, check, first, rfl, rfl⟩ := first
    have member := first.mem
    obtain ⟨before, after, split, refuses, noneBefore⟩ := first
    refine ⟨before, check, after, split, refuses.refusalAt?, ?_⟩
    intro earlier inBefore
    cases found : earlier.refusalAt? scope values p.display with
    | none => rfl
    | some text =>
        -- A refusal of this text would be about the same path.
        obtain ⟨q, earlierRefuses, same, -⟩ := Check.Refuses.of_refusalAt? found
        have earlierMember : earlier ∈ v.checks := by
          rw [split]
          exact List.mem_append_left _ inBefore
        cases display_injective_of_refuses bound earlierMember member earlierRefuses refuses same
        exact absurd earlierRefuses (noneBefore earlier inBefore)

theorem exists_refused_task {v : Validator} :
    (∃ task ∈ v.tasks values scope, refusal? values task ≠ none) ↔
      ∃ check ∈ v.checks, ∃ p, check.Refuses scope values p := by
  constructor
  · intro refused
    obtain ⟨task, member, refused⟩ := refused
    obtain ⟨check, inChecks, inScope, pathMember, isRule⟩ := mem_tasks.mp member
    obtain ⟨text, message⟩ := Option.ne_none_iff_exists'.mp refused
    have refuses := (refusal?_eq_some.mp message).1
    rw [isRule] at refuses
    exact ⟨check, inChecks, task.2, inScope, CheckTarget.mem_paths.mp pathMember, refuses⟩
  · intro refused
    obtain ⟨check, inChecks, p, refuses⟩ := refused
    have reached := CheckTarget.mem_paths.mpr refuses.reached
    refine ⟨(check.rule, p), mem_tasks.mpr ⟨check, inChecks, refuses.inScope, reached, rfl⟩, ?_⟩
    rw [refusal?_eq_some.mpr ⟨refuses.refused, rfl⟩]
    exact Option.some_ne_none _

/-- A validator that was built for a schema rejects a tree exactly if one of its checks refuses a
    value. There is one message for each path at which a value is refused, that of the first check
    that refuses it, and there are no others. -/
theorem rejects_refused_values {s : Schema} {specs : List RuleSpec} {v : Validator}
    (built : build s specs = .ok v) (values : Values) (scope : ValidationScope) :
    ((∃ messages, v.check values scope = .error messages) ↔
      ∃ check ∈ v.checks, ∃ p, check.Refuses scope values p) ∧
    ∀ messages, v.check values scope = .error messages →
      messages.form = [] ∧ KeyMap.Ascending messages.fields ∧
      (∀ key text, (key, text) ∈ messages.fields ↔
        ∃ p check, v.FirstRefuses scope values p check ∧ key = p.display ∧
          text = check.rule.refusal) ∧
      ∀ p q check other, v.FirstRefuses scope values p check →
        v.FirstRefuses scope values q other → p.display = q.display → p = q := by
  have bound := bound_of_build built
  constructor
  · rw [← exists_refused_task]
    rcases v.check_cases values scope with ⟨messages, rejected, refused, _⟩ | ⟨pass, accepted⟩
    · exact iff_of_true ⟨messages, rejected⟩ refused
    · apply iff_of_false
      · intro rejected
        obtain ⟨messages, rejected⟩ := rejected
        cases rejected.symm.trans accepted
      · intro refused
        obtain ⟨task, member, refused⟩ := refused
        exact refused (pass task member)
  · intro messages rejected
    obtain ⟨noForm, ascending⟩ := form_and_fields_of_check rejected
    refine ⟨noForm, ascending, ?_, ?_⟩
    · intro key text
      have found := v.get?_errors values scope key
      rw [errors, rejected, findSome?_tasks] at found
      rw [← findSome?_refusalAt? bound, ← found]
      exact ⟨KeyMap.find?_of_mem ascending, KeyMap.mem_of_find?⟩
    · intro p q check other first otherFirst same
      exact display_injective_of_refuses bound first.mem otherFirst.mem first.refuses
        otherFirst.refuses same

/-- The rate is bounded and required, and the gaps of the steps are bounded. -/
def strict : Validator :=
  ⟨[⟨0, .field ⟨"a", [.key "rate"]⟩, .range 1 100⟩, ⟨0, .field ⟨"a", [.key "rate"]⟩, .required⟩,
    ⟨0, .eachRepetition ⟨"a", [.key "steps"]⟩ ⟨"gap", []⟩, .range 0 60⟩]⟩
where
  specs : List RuleSpec :=
    [⟨"a.rate", none, .range 1 100⟩, ⟨"a.rate", none, .required⟩,
      ⟨"a.steps", some "gap", .range 0 60⟩]
  /-- No rate, a gap that was typed with a sign, and one that is too long for 64 bits. -/
  values : Values :=
    ⟨[("a", .object [("mode", .bool true), ("steps", .array
      [.object [("gap", .text "+60 ")], .object [("gap", .text "9223372036854775808")]])])]⟩

/-- The rate is missing, and the second gap is no number of 64 bits. -/
theorem strict_refusals :
    ∃ messages, strict.check strict.values .form = .error messages ∧
      ("a.rate", "Required") ∈ messages.fields ∧
      ("a.steps[1].gap", "Must be a number in range [0..60]") ∈ messages.fields := by
  have built : build .paced strict.specs = .ok strict := rfl
  obtain ⟨rejects, exactly⟩ := rejects_refused_values built strict.values .form
  have rate : Check.Refuses .form strict.values ⟨0, .field ⟨"a", [.key "rate"]⟩, .required⟩
      ⟨"a", [.key "rate"]⟩ := ⟨rfl, .field _, .blank .nothing⟩
  have gap : Check.Refuses .form strict.values
      ⟨0, .eachRepetition ⟨"a", [.key "steps"]⟩ ⟨"gap", []⟩, .range 0 60⟩
      ⟨"a", [.key "steps", .index 1, .key "gap"]⟩ := by
    refine ⟨rfl, .repetition (i := 1) rfl (by decide), ?_⟩
    exact (Rule.apply_eq_fail.mp rfl).1
  obtain ⟨messages, rejected⟩ := rejects.mpr ⟨_, .tail _ (.head _), _, rate⟩
  obtain ⟨-, -, fields, -⟩ := exactly messages rejected
  refine ⟨messages, rejected, ?_, ?_⟩
  · refine (fields _ _).mpr ⟨_, _, ⟨[_], [_], rfl, rate, ?_⟩, rfl, rfl⟩
    intro earlier member refuses
    cases List.mem_singleton.mp member
    -- The bounds allow a rate that is not given.
    cases refuses.refused with
    | outside given => exact given .nothing
  · refine (fields _ _).mpr ⟨_, _, ⟨[_, _], [], rfl, gap, ?_⟩, rfl, rfl⟩
    intro earlier member refuses
    have reached := CheckTarget.mem_paths.mpr refuses.reached
    rcases List.mem_cons.mp member with rfl | rest
    · exact absurd reached (by decide)
    · cases List.mem_singleton.mp rest
      exact absurd reached (by decide)

end Validator

end GatedForms

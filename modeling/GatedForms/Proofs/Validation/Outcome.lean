import GatedForms.Proofs.Validation.Alike
import GatedForms.Proofs.Validation.Reading

/-! # What a validator finds

A validator passes over its tasks once, and each task is judged by the values that came in. Of the
refusals at one path the first is kept. If there is none, the numbers that were read are written in
the places of the values that denote them.
-/

namespace GatedForms

theorem KeyMap.eq_nil_iff {β : Type} {entries : List (String × β)} :
    entries = [] ↔ ∀ key, KeyMap.find? key entries = none := by
  cases entries with
  | nil => simp
  | cons entry rest =>
      refine ⟨nofun, fun absent => ?_⟩
      have found := absent entry.1
      simp [KeyMap.find?] at found

namespace Rule

theorem apply_congr (rule : Rule) {a b : Option Json} (alike : Json.Alike a b) :
    rule.apply a = rule.apply b := by
  cases rule with
  | required => rw [apply, apply, alike.blank]
  | range min max => rw [apply, apply, alike.blank, alike.number]

end Rule

theorem CheckTarget.paths_congr (target : CheckTarget) {v v' : Values} (alike : v.Alike v') :
    target.paths v = target.paths v' := by
  cases target with
  | field path => rfl
  | eachRepetition group nested => rw [paths, paths, (alike group).length]

namespace Validator

def refusal? (values : Values) (task : Rule × Path) : Option String :=
  match task.1.apply (values.get? task.2) with
  | .fail message => some message
  | _ => none

/-- The message of a task for a path of this text. -/
def refusalAt? (values : Values) (key : String) (task : Rule × Path) : Option String :=
  if task.2.display = key then refusal? values task else none

/-- The number that a task finds, to be written in the place of the value. -/
def number? (values : Values) (task : Rule × Path) : Option (Path × Json) :=
  match task.1.apply (values.get? task.2) with
  | .normalize n => some (task.2, .int n)
  | _ => none

variable {values : Values}

theorem denotes_of_number? {task : Rule × Path} {entry : Path × Json}
    (found : number? values task = some entry) : values.Denotes entry := by
  unfold number? at found
  split at found
  · next n applied =>
    cases found
    exact ⟨n, (Rule.apply_eq_normalize.mp applied).number, rfl⟩
  · cases found

theorem denotes_of_mem_filterMap {tasks : List (Rule × Path)} :
    ∀ entry ∈ tasks.filterMap (number? values), values.Denotes entry := by
  intro entry member
  obtain ⟨task, _, found⟩ := List.mem_filterMap.mp member
  exact denotes_of_number? found

theorem refusal?_congr {v v' : Values} (alike : v.Alike v') : refusal? v = refusal? v' := by
  funext task
  rw [refusal?, refusal?, task.1.apply_congr (alike task.2)]

theorem number?_congr {v v' : Values} (alike : v.Alike v') : number? v = number? v' := by
  funext task
  rw [number?, number?, task.1.apply_congr (alike task.2)]

theorem tasks_congr (validator : Validator) {v v' : Values} (alike : v.Alike v')
    (scope : ValidationScope) : validator.tasks v scope = validator.tasks v' scope := by
  simp only [tasks, fun target : CheckTarget => target.paths_congr alike]

/-- The tasks are the rules of the checks in scope, each at the paths that the check is about. -/
theorem mem_tasks {v : Validator} {scope : ValidationScope} {task : Rule × Path} :
    task ∈ v.tasks values scope ↔
      ∃ check ∈ v.checks, scope.covers check.sectionIndex = true ∧
        task.2 ∈ check.target.paths values ∧ task.1 = check.rule := by
  constructor
  · intro member
    obtain ⟨check, checkMember, inCheck⟩ := List.mem_flatMap.mp member
    obtain ⟨path, pathMember, rfl⟩ := List.mem_map.mp inCheck
    obtain ⟨inChecks, covered⟩ := List.mem_filter.mp checkMember
    exact ⟨check, inChecks, covered, pathMember, rfl⟩
  · intro among
    obtain ⟨check, inChecks, covered, pathMember, isRule⟩ := among
    apply List.mem_flatMap.mpr
    refine ⟨check, List.mem_filter.mpr ⟨inChecks, covered⟩, ?_⟩
    exact List.mem_map.mpr ⟨task.2, pathMember, Prod.ext isRule.symm rfl⟩

/-! ## One task -/

theorem get?_step (progress : Progress) (task : Rule × Path) (key : String) :
    (step values progress task).messages.get? key =
      (progress.messages.get? key).or (refusalAt? values key task) := by
  unfold step refusalAt? refusal?
  by_cases same : task.2.display = key
  · subst same
    cases known : progress.messages.get? task.2.display with
    | some message => simp [known]
    | none =>
        simp only [known, Option.isSome_none, Bool.false_eq_true, if_false, if_true,
          Option.none_or]
        split
        · simp [*]
        · simp [*]
        · next message applied =>
          simp [applied, Messages.get?, Messages.insert]
  · simp only [same, if_false, Option.or_none]
    split
    · rfl
    · split
      · rfl
      · rfl
      · exact KeyMap.find?_insert_ne _ _ same

theorem form_step (progress : Progress) (task : Rule × Path) :
    (step values progress task).messages.form = progress.messages.form := by
  simp only [step]
  cases (progress.messages.get? task.2.display).isSome with
  | true => rfl
  | false => cases task.1.apply (values.get? task.2) <;> rfl

theorem normalized_step {progress : Progress} {task : Rule × Path}
    (fresh : ∀ key, progress.messages.get? key = none) (passes : refusal? values task = none) :
    (step values progress task).normalized =
      progress.normalized.setAll (number? values task).toList := by
  unfold refusal? at passes
  simp only [step, number?, fresh, Option.isSome_none, Bool.false_eq_true, if_false]
  cases applied : task.1.apply (values.get? task.2) with
  | pass => rfl
  | normalize n => rfl
  | fail message =>
      rw [applied] at passes
      cases passes

/-! ## A pass over tasks -/

theorem get?_foldl (tasks : List (Rule × Path)) (progress : Progress) (key : String) :
    (tasks.foldl (step values) progress).messages.get? key =
      (progress.messages.get? key).or (tasks.findSome? (refusalAt? values key)) := by
  induction tasks generalizing progress with
  | nil => simp
  | cons task rest ih =>
      rw [List.foldl_cons, ih, get?_step, Option.or_assoc, List.findSome?_cons]
      cases refusalAt? values key task <;> rfl

theorem form_foldl (tasks : List (Rule × Path)) (progress : Progress) :
    (tasks.foldl (step values) progress).messages.form = progress.messages.form := by
  induction tasks generalizing progress with
  | nil => rfl
  | cons task rest ih => rw [List.foldl_cons, ih, form_step]

theorem normalized_foldl {tasks : List (Rule × Path)} {progress : Progress}
    (fresh : ∀ key, progress.messages.get? key = none)
    (pass : ∀ task ∈ tasks, refusal? values task = none) :
    (tasks.foldl (step values) progress).normalized =
      progress.normalized.setAll (tasks.filterMap (number? values)) := by
  induction tasks generalizing progress with
  | nil => rfl
  | cons task rest ih =>
      obtain ⟨passes, restPass⟩ := List.forall_mem_cons.mp pass
      have stillFresh : ∀ key, (step values progress task).messages.get? key = none := by
        intro key
        simp [get?_step, fresh, refusalAt?, passes]
      rw [List.foldl_cons, ih stillFresh restPass, normalized_step fresh passes,
        List.filterMap_cons]
      cases number? values task <;> rfl

/-! ## The result -/

variable {v : Validator} {scope : ValidationScope}

def errors (v : Validator) (values : Values) (scope : ValidationScope) : Messages :=
  match v.check values scope with
  | .ok _ => .empty
  | .error messages => messages

/-- Either some rule refuses, and the messages are the first ones at each path, or all accept, and
    the numbers are written. -/
theorem check_cases (v : Validator) (values : Values) (scope : ValidationScope) :
    (∃ messages, v.check values scope = .error messages ∧
      (∃ task ∈ v.tasks values scope, refusal? values task ≠ none) ∧
      ∀ key, messages.get? key = (v.tasks values scope).findSome? (refusalAt? values key)) ∨
    ((∀ task ∈ v.tasks values scope, refusal? values task = none) ∧
      v.check values scope =
        .ok (values.setAll ((v.tasks values scope).filterMap (number? values)))) := by
  have fresh (key : String) : Messages.empty.get? key = none := rfl
  have found (key : String) :
      ((v.tasks values scope).foldl (step values) ⟨.empty, values⟩).messages.get? key =
        (v.tasks values scope).findSome? (refusalAt? values key) := by
    rw [get?_foldl, fresh, Option.none_or]
  have noForm :
      ((v.tasks values scope).foldl (step values) ⟨.empty, values⟩).messages.form = [] :=
    form_foldl _ _
  by_cases pass : ∀ task ∈ v.tasks values scope, refusal? values task = none
  · right
    refine ⟨pass, ?_⟩
    have noFields : ((v.tasks values scope).foldl (step values)
        ⟨.empty, values⟩).messages.fields = [] := by
      refine KeyMap.eq_nil_iff.mpr fun key => (found key).trans ?_
      refine List.findSome?_eq_none_iff.mpr fun task member => ?_
      simp only [refusalAt?, pass task member, ite_self]
    have nothing : ((v.tasks values scope).foldl (step values)
        ⟨.empty, values⟩).messages.isEmpty = true := by
      rw [Messages.isEmpty, noFields, noForm]
      rfl
    rw [check, if_pos nothing, normalized_foldl fresh pass]
  · left
    obtain ⟨task, refused⟩ := Classical.not_forall.mp pass
    obtain ⟨member, refused⟩ := Classical.not_imp.mp refused
    refine ⟨_, ?_, ⟨task, member, refused⟩, found⟩
    have something : ((v.tasks values scope).foldl (step values)
        ⟨.empty, values⟩).messages.isEmpty ≠ true := by
      intro nothing
      simp only [Messages.isEmpty, Bool.and_eq_true, List.isEmpty_iff] at nothing
      have absent := KeyMap.eq_nil_iff.mp nothing.1 task.2.display
      have notFound := (found task.2.display).symm.trans absent
      have kept := List.findSome?_eq_none_iff.mp notFound task member
      rw [refusalAt?, if_pos rfl] at kept
      exact refused kept
    exact if_neg something

theorem check_eq_ok {result : Values} :
    v.check values scope = .ok result ↔
      (∀ task ∈ v.tasks values scope, refusal? values task = none) ∧
        result = values.setAll ((v.tasks values scope).filterMap (number? values)) := by
  rcases v.check_cases values scope with ⟨messages, refused, ⟨task, member, refusal⟩, _⟩ |
    ⟨pass, accepted⟩
  · rw [refused]
    exact ⟨nofun, fun both => absurd (both.1 task member) refusal⟩
  · rw [accepted, Except.ok.injEq]
    exact ⟨fun same => ⟨pass, same.symm⟩, fun both => both.2.symm⟩

theorem get?_errors (v : Validator) (values : Values) (scope : ValidationScope) (key : String) :
    (v.errors values scope).get? key =
      (v.tasks values scope).findSome? (refusalAt? values key) := by
  rcases v.check_cases values scope with ⟨messages, refused, _, found⟩ | ⟨pass, accepted⟩
  · rw [errors, refused]
    exact found key
  · rw [errors, accepted]
    refine (List.findSome?_eq_none_iff.mpr fun task member => ?_).symm
    simp only [refusalAt?, pass task member, ite_self]

theorem exists_task_of_get?_errors {key text : String}
    (found : (v.errors values scope).get? key = some text) :
    ∃ task ∈ v.tasks values scope, task.2.display = key ∧ refusal? values task = some text := by
  rw [get?_errors] at found
  obtain ⟨task, member, refused⟩ := List.exists_of_findSome?_eq_some found
  obtain ⟨same, refused⟩ := Option.ite_none_right_eq_some.mp refused
  exact ⟨task, member, same, refused⟩

theorem passes_iff :
    (∃ result, v.check values scope = .ok result) ↔
      ∀ task ∈ v.tasks values scope, refusal? values task = none :=
  ⟨fun ⟨_, accepted⟩ => (check_eq_ok.mp accepted).1, fun pass => ⟨_, check_eq_ok.mpr ⟨pass, rfl⟩⟩⟩

end Validator

end GatedForms

import GatedForms.Proofs.Validation.Binding
import GatedForms.Proofs.Validation.Outcome

/-! # Validation by sections

A whole form is validated like its sections one after the other. Each message of the form is the
message of one section, and no number that a section writes is seen by the rules of another one.
-/

namespace GatedForms

/-! ## Lists in groups -/

section Groups

variable {α β : Type}

theorem findSome?_filter_eq {keep : α → Bool} {f : α → Option β} {l : List α}
    (dropped : ∀ x ∈ l, keep x = false → f x = none) :
    (l.filter keep).findSome? f = l.findSome? f := by
  induction l with
  | nil => rfl
  | cons x rest ih =>
      obtain ⟨first, restDropped⟩ := List.forall_mem_cons.mp dropped
      cases kept : keep x with
      | true => simp only [List.filter_cons, kept, if_true, List.findSome?_cons, ih restDropped]
      | false =>
          simp only [List.filter_cons, kept, Bool.false_eq_true, if_false, List.findSome?_cons,
            first kept, ih restDropped]

/-- Elements that belong to one of the first groups, group by group. -/
theorem flatMap_filter_perm (owner : α → Option Nat) (l : List α) (n : Nat) :
    ((List.range n).flatMap fun i => l.filter fun x => owner x = some i).Perm
      (l.filter fun x => (owner x).any (· < n)) := by
  induction n with
  | zero => simp
  | succ n ih =>
      rw [List.range_succ, List.flatMap_append, List.flatMap_singleton]
      refine (ih.append_right _).trans ?_
      have split := List.filter_append_perm (fun x => (owner x).any (· < n))
        (l.filter fun x => (owner x).any (· < n + 1))
      simp only [List.filter_filter] at split
      have before : (l.filter fun x => (owner x).any (· < n) && (owner x).any (· < n + 1)) =
          l.filter fun x => (owner x).any (· < n) := by
        refine List.filter_congr fun x _ => ?_
        cases owner x with
        | none => rfl
        | some i =>
            rw [Bool.eq_iff_iff]
            simp
            omega
      have last : (l.filter fun x => (!(owner x).any (· < n)) && (owner x).any (· < n + 1)) =
          l.filter fun x => owner x = some n := by
        refine List.filter_congr fun x _ => ?_
        cases owner x with
        | none => rfl
        | some i =>
            rw [Bool.eq_iff_iff]
            simp
            omega
      rwa [before, last] at split

theorem flatMap_groups_perm {owner : α → Option Nat} {l : List α} {n : Nat}
    (owned : ∀ x ∈ l, ∃ i < n, owner x = some i) {order : List Nat}
    (all : order.Perm (List.range n)) :
    (order.flatMap fun i => l.filter fun x => owner x = some i).Perm l := by
  refine ((all.flatMap_right _).trans (flatMap_filter_perm owner l n)).trans ?_
  rw [List.filter_eq_self.mpr]
  intro x member
  obtain ⟨i, below, isOwner⟩ := owned x member
  simp [isOwner, below]

end Groups

namespace Validator

variable {s : Schema} {v : Validator} {values : Values}

/-! ## Tasks of sections -/

theorem tasks_form (v : Validator) (values : Values) :
    v.tasks values .form = v.checks.flatMap fun check =>
      (check.target.paths values).map fun path => (check.rule, path) := by
  have every : v.checks.filter (fun check => ValidationScope.form.covers check.sectionIndex) =
      v.checks := List.filter_eq_self.mpr fun _ _ => rfl
  rw [tasks, every]

theorem tasks_section (bound : ∀ check ∈ v.checks, check.Bound s) (i : Nat) :
    v.tasks values (.formSection i) =
      (v.tasks values .form).filter fun task => s.sectionOf? task.2 = some i := by
  obtain ⟨checks⟩ := v
  rw [tasks_form]
  simp only [tasks, ValidationScope.covers]
  induction checks with
  | nil => rfl
  | cons check rest ih =>
      obtain ⟨first, restBound⟩ := List.forall_mem_cons.mp bound
      have owner : ∀ task ∈ (check.target.paths values).map fun path => (check.rule, path),
          s.sectionOf? task.2 = some check.sectionIndex := by
        intro task member
        obtain ⟨path, pathMember, rfl⟩ := List.mem_map.mp member
        exact (first.paths pathMember).2
      have behind := ih restBound
      simp only [List.flatMap_cons, List.filter_append]
      rw [← behind]
      by_cases here : check.sectionIndex = i
      · subst here
        have all := List.filter_eq_self.mpr fun task member => decide_eq_true (owner task member)
        rw [all]
        simp
      · have none : ((check.target.paths values).map fun path => (check.rule, path)).filter
            (fun task => decide (s.sectionOf? task.2 = some i)) = [] :=
          List.filter_eq_nil_iff.mpr fun task member => by simp [owner task member, here]
        rw [none]
        simp [here]

theorem get?_errors_section (bound : ∀ check ∈ v.checks, check.Bound s) {task : Rule × Path}
    (member : task ∈ v.tasks values .form) (i : Nat) :
    (v.errors values (.formSection i)).get? task.2.display =
      if s.sectionOf? task.2 = some i then (v.errors values .form).get? task.2.display
      else none := by
  -- Tasks with the same text are about the same path.
  have sameSection : ∀ other ∈ v.tasks values .form,
      refusalAt? values task.2.display other ≠ none →
        s.sectionOf? other.2 = s.sectionOf? task.2 := by
    intro other otherMember refused
    obtain ⟨check, checkMember, -, inCheck, -⟩ := mem_tasks.mp member
    obtain ⟨otherCheck, otherCheckMember, -, inOther, -⟩ := mem_tasks.mp otherMember
    have text : other.2.display = task.2.display := by
      unfold refusalAt? at refused
      split at refused
      · assumption
      · exact absurd rfl refused
    rw [Path.display_injective ((bound otherCheck otherCheckMember).paths inOther).1
      ((bound check checkMember).paths inCheck).1 text]
  rw [get?_errors, get?_errors, tasks_section bound]
  split
  · next here =>
    refine findSome?_filter_eq fun other otherMember notHere => ?_
    refine Classical.byContradiction fun refused => ?_
    rw [sameSection other otherMember refused] at notHere
    exact of_decide_eq_false notHere here
  · next elsewhere =>
    refine List.findSome?_eq_none_iff.mpr fun other otherMember => ?_
    obtain ⟨inForm, here⟩ := List.mem_filter.mp otherMember
    refine Classical.byContradiction fun refused => ?_
    rw [← sameSection other inForm refused] at elsewhere
    exact elsewhere (of_decide_eq_true here)

theorem exists_section_of_task (bound : ∀ check ∈ v.checks, check.Bound s) {task : Rule × Path}
    (member : task ∈ v.tasks values .form) :
    ∃ i < s.sections.length, s.sectionOf? task.2 = some i := by
  obtain ⟨check, checkMember, -, inCheck, -⟩ := mem_tasks.mp member
  have located := ((bound check checkMember).paths inCheck).2
  exact ⟨check.sectionIndex, Schema.sectionOf?_lt located, located⟩

theorem mem_tasks_section (bound : ∀ check ∈ v.checks, check.Bound s) {task : Rule × Path}
    {i : Nat} : task ∈ v.tasks values (.formSection i) ↔
      task ∈ v.tasks values .form ∧ s.sectionOf? task.2 = some i := by
  rw [tasks_section bound, List.mem_filter, decide_eq_true_iff]

/-! ## Sections one after the other -/

def numbers (v : Validator) (values : Values) (i : Nat) : List (Path × Json) :=
  (v.tasks values (.formSection i)).filterMap (number? values)

theorem denotes_of_mem_numbers {i : Nat} {entry : Path × Json}
    (member : entry ∈ v.numbers values i) : values.Denotes entry :=
  denotes_of_mem_filterMap entry member

/-- Whatever sections were validated before, a section writes the numbers that it would have written
    first. -/
theorem foldlM_check (bound : ∀ check ∈ v.checks, check.Bound s)
    (pass : ∀ task ∈ v.tasks values .form, refusal? values task = none) (order : List Nat)
    {threaded : Values} (alike : threaded.Alike values) :
    order.foldlM (fun soFar i => v.check soFar (.formSection i)) threaded =
      .ok (threaded.setAll (order.flatMap (v.numbers values))) := by
  induction order generalizing threaded with
  | nil => rfl
  | cons i rest ih =>
      have accepted : v.check threaded (.formSection i) =
          .ok (threaded.setAll (v.numbers values i)) := by
        refine check_eq_ok.mpr ⟨fun task member => ?_, ?_⟩
        · rw [tasks_congr v alike, tasks_section bound] at member
          rw [refusal?_congr alike]
          exact pass task (List.mem_filter.mp member).1
        · rw [numbers, tasks_congr v alike, number?_congr alike]
      have denoted : ∀ entry ∈ v.numbers values i, threaded.Denotes entry := fun entry member =>
        alike.denotes (denotes_of_mem_numbers member)
      have after := ih ((Values.alike_setAll denoted).trans alike)
      rw [List.foldlM_cons, accepted, ok_bind, after, List.flatMap_cons, Values.setAll_append]

theorem numbers_perm (bound : ∀ check ∈ v.checks, check.Bound s) {order : List Nat}
    (all : order.Perm (List.range s.sections.length)) :
    (order.flatMap (v.numbers values)).Perm
      ((v.tasks values .form).filterMap (number? values)) := by
  have owned : ∀ task ∈ v.tasks values .form,
      ∃ i < s.sections.length, s.sectionOf? task.2 = some i :=
    fun task member => exists_section_of_task bound member
  have groups := (flatMap_groups_perm owned all).filterMap (number? values)
  simp only [List.filterMap_flatMap, ← tasks_section bound] at groups
  exact groups

/-- For every tree of values, the messages of the form are those of its sections, and no two
    sections have a message for the same path. The form passes exactly if all sections do, and then
    validating them one after the other, in any order, each on what the one before has left, ends
    with the same values as validating the form. -/
theorem form_agrees_with_sections {s : Schema} {specs : List RuleSpec} {v : Validator}
    (built : build s specs = .ok v) (values : Values) :
    (∀ key text, (v.errors values .form).get? key = some text ↔
      ∃ i < s.sections.length, (v.errors values (.formSection i)).get? key = some text) ∧
    (∀ key i j, i ≠ j → ((v.errors values (.formSection i)).get? key).isSome →
      (v.errors values (.formSection j)).get? key = none) ∧
    ((∃ result, v.check values .form = .ok result) ↔
      ∀ i < s.sections.length, ∃ result, v.check values (.formSection i) = .ok result) ∧
    ∀ result, v.check values .form = .ok result →
      ∀ order : List Nat, order.Perm (List.range s.sections.length) →
        order.foldlM (fun soFar i => v.check soFar (.formSection i)) values = .ok result := by
  have bound := bound_of_build built
  refine ⟨fun key text => ?_, fun key i j differ => ?_, ?_, ?_⟩
  · constructor
    · intro found
      obtain ⟨task, member, rfl, -⟩ := exists_task_of_get?_errors found
      obtain ⟨i, below, here⟩ := exists_section_of_task bound member
      refine ⟨i, below, ?_⟩
      rw [get?_errors_section bound member, if_pos here]
      exact found
    · rintro ⟨i, -, found⟩
      obtain ⟨task, member, rfl, -⟩ := exists_task_of_get?_errors found
      obtain ⟨inForm, here⟩ := (mem_tasks_section bound).mp member
      rw [get?_errors_section bound inForm, if_pos here] at found
      exact found
  · intro present
    obtain ⟨text, found⟩ := Option.isSome_iff_exists.mp present
    obtain ⟨task, member, rfl, -⟩ := exists_task_of_get?_errors found
    obtain ⟨inForm, here⟩ := (mem_tasks_section bound).mp member
    rw [get?_errors_section bound inForm, if_neg]
    intro there
    exact differ (Option.some.inj (here.symm.trans there))
  · simp only [passes_iff]
    constructor
    · exact fun pass i _ task member => pass task ((mem_tasks_section bound).mp member).1
    · intro pass task member
      obtain ⟨i, below, here⟩ := exists_section_of_task bound member
      exact pass i below task ((mem_tasks_section bound).mpr ⟨member, here⟩)
  · intro result accepted order all
    obtain ⟨pass, rfl⟩ := check_eq_ok.mp accepted
    rw [foldlM_check bound pass order fun p => .refl _]
    refine congrArg Except.ok (Values.setAll_perm_of_denotes (numbers_perm bound all) ?_)
    intro entry member
    obtain ⟨i, _, inSection⟩ := List.mem_flatMap.mp member
    exact denotes_of_mem_numbers inSection

/-- Two sections with a number each. -/
def halves : Schema :=
  ⟨"Halves", "S", [⟨none, "a", [number "a" "rate"]⟩, ⟨none, "b", [number "b" "days"]⟩]⟩
where
  number (part name : String) : Field :=
    ⟨some ⟨part, [.key name]⟩, name, none, false, .text .number none⟩
  specs : List RuleSpec :=
    [⟨"b.days", none, .required⟩, ⟨"b.days", none, .range 1 365⟩, ⟨"a.rate", none, .range 1 100⟩]
  values (rate days : Json) : Values :=
    ⟨[("a", .object [("rate", rate)]), ("b", .object [("days", days)])]⟩

/-- Validated from the last section to the first, texts become the same numbers as in the whole
    form. A rate that is too high is a message of the first section and of no other. -/
theorem halves_agree_with_form :
    ∃ v, build halves halves.specs = .ok v ∧
      [1, 0].foldlM (fun soFar i => v.check soFar (.formSection i))
        (halves.values (.text " 7") (.text "30")) = .ok (halves.values (.int 7) (.int 30)) ∧
      (v.errors (halves.values (.int 900) (.text "30")) (.formSection 1)).get? "a.rate" = none := by
  have built : build halves halves.specs = .ok _ := rfl
  obtain ⟨-, -, -, threaded⟩ := form_agrees_with_sections built
    (halves.values (.text " 7") (.text "30"))
  obtain ⟨-, disjoint, -, -⟩ := form_agrees_with_sections built
    (halves.values (.int 900) (.text "30"))
  exact ⟨_, built, threaded _ rfl [1, 0] (.swap 0 1 []), disjoint "a.rate" 0 1 (by decide) rfl⟩

end Validator

end GatedForms

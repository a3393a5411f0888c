import GatedForms.Proofs.Button.Tickets
import GatedForms.Proofs.Form.Cursor

/-! # The way of the cursor

The cursor goes over the content sections. It starts on the first one, and from then on a completed
`NEXT` click leads it to the nearest later one and a completed `PREVIOUS` click to the nearest
earlier one, in the order in which the clicks complete. Nothing else moves it.
-/

namespace GatedForms

/-! ## Content sections -/

theorem FormSection.mem_contentFrom {index i : Nat} {parts : List FormSection} :
    i ∈ contentFrom index parts ↔
      ∃ k part, i = index + k ∧ parts[k]? = some part ∧ part.layout = .vertical := by
  induction parts generalizing index with
  | nil => simp [contentFrom]
  | cons s rest ih =>
      have below : i ∈ contentFrom (index + 1) rest ↔ ∃ k part, i = index + (k + 1) ∧
          rest[k]? = some part ∧ part.layout = .vertical := by
        rw [ih]
        simp only [Nat.add_assoc, Nat.add_comm 1]
      have members : i ∈ contentFrom index (s :: rest) ↔
          i = index ∧ s.layout = .vertical ∨ i ∈ contentFrom (index + 1) rest := by
        rw [contentFrom]
        split <;> simp [*]
      rw [members, below]
      constructor
      · rintro (⟨rfl, vertical⟩ | ⟨k, part, rfl, found, vertical⟩)
        · exact ⟨0, s, rfl, rfl, vertical⟩
        · exact ⟨k + 1, part, rfl, found, vertical⟩
      · rintro ⟨k, part, rfl, found, vertical⟩
        cases k with
        | zero => exact .inl ⟨rfl, Option.some.inj found ▸ vertical⟩
        | succ k => exact .inr ⟨k, part, rfl, found, vertical⟩

theorem FormSection.contentFrom_ascending (index : Nat) (parts : List FormSection) :
    (contentFrom index parts).Pairwise (· < ·) := by
  induction parts generalizing index with
  | nil => exact .nil
  | cons s rest ih =>
      have later : ∀ i ∈ contentFrom (index + 1) rest, index < i := by
        intro i member
        obtain ⟨k, -, rfl, -⟩ := mem_contentFrom.mp member
        omega
      rw [contentFrom]
      split
      · exact .cons later (ih (index + 1))
      · exact ih (index + 1)

theorem first_of_find? {R : Nat → Nat → Prop} {indices : List Nat} (ordered : indices.Pairwise R)
    {wanted : Nat → Bool} {j : Nat} (found : indices.find? wanted = some j) :
    ∀ k ∈ indices, wanted k = true → k = j ∨ R j k := by
  obtain ⟨-, before, after, rfl, unwanted⟩ := List.find?_eq_some_iff_append.mp found
  intro k member kWanted
  rcases List.mem_append.mp member with early | late
  · simpa [kWanted] using unwanted k early
  · rcases List.mem_cons.mp late with same | behind
    · exact .inl same
    · have afterOrdered := (List.pairwise_append.mp ordered).2.1
      exact .inr ((List.pairwise_cons.mp afterOrdered).1 k behind)

namespace Form

variable {form : Form} {i j : Nat}

def IsContent (form : Form) (i : Nat) : Prop :=
  ∃ part, form.schema.sections[i]? = some part ∧ part.layout = .vertical

theorem mem_steps_iff : i ∈ form.steps ↔ form.IsContent i := by
  simp [steps, FormSection.mem_contentFrom, IsContent]

structure IsFirst (form : Form) (i : Nat) : Prop where
  content : form.IsContent i
  first : ∀ k, form.IsContent k → i ≤ k

theorem steps_ascending (form : Form) : form.steps.Pairwise (· < ·) :=
  FormSection.contentFrom_ascending 0 _

theorem isFirst_firstStep (content : ∃ i, form.IsContent i) : form.IsFirst form.firstStep := by
  obtain ⟨i, isContent⟩ := content
  have ascending := form.steps_ascending
  cases steps : form.steps with
  | nil =>
      have member := mem_steps_iff.mpr isContent
      simp [steps] at member
  | cons first rest =>
      rw [firstStep, steps, List.headD_cons]
      refine ⟨mem_steps_iff.mp (steps ▸ List.mem_cons_self), fun k kContent => ?_⟩
      have member := mem_steps_iff.mpr kContent
      rw [steps] at member ascending
      rcases List.mem_cons.mp member with rfl | behind
      · exact Nat.le_refl _
      · exact Nat.le_of_lt ((List.pairwise_cons.mp ascending).1 k behind)

/-- Where a completed click on a button with an action leads the cursor. -/
inductive Leads (form : Form) : ButtonAction → Nat → Nat → Prop where
  | next {i j : Nat} (content : form.IsContent j) (later : i < j)
      (nearest : ∀ k, form.IsContent k → i < k → j ≤ k) : Leads form .next i j
  | nextAtEnd {i : Nat} (last : ∀ k, form.IsContent k → k ≤ i) : Leads form .next i i
  | previous {i j : Nat} (content : form.IsContent j) (earlier : j < i)
      (nearest : ∀ k, form.IsContent k → k < i → k ≤ j) : Leads form .previous i j
  | previousAtStart {i : Nat} (first : ∀ k, form.IsContent k → i ≤ k) : Leads form .previous i i
  | submit {i : Nat} : Leads form .submit i i
  | custom {i : Nat} : Leads form .custom i i

theorem Leads.content {action : ButtonAction} (leads : form.Leads action i j)
    (content : form.IsContent i) : form.IsContent j := by
  cases leads with
  | next isContent | previous isContent => exact isContent
  | nextAtEnd | previousAtStart | submit | custom => exact content

theorem leads_stepAfter (form : Form) (i : Nat) : form.Leads .next i (form.stepAfter i) := by
  unfold stepAfter
  cases found : form.steps.find? fun index => i < index with
  | none =>
      refine .nextAtEnd fun k content => ?_
      have behind := List.find?_eq_none.mp found k (mem_steps_iff.mpr content)
      simpa using behind
  | some j =>
      have later : i < j := by simpa using List.find?_some found
      refine .next (mem_steps_iff.mp (List.mem_of_find?_eq_some found)) later ?_
      intro k content laterToo
      have first := first_of_find? form.steps_ascending found k (mem_steps_iff.mpr content)
        (decide_eq_true laterToo)
      simp only [Option.getD_some]
      omega

theorem leads_stepBefore (form : Form) (i : Nat) :
    form.Leads .previous i (form.stepBefore i) := by
  have mem_reverse : ∀ {k}, form.IsContent k ↔ k ∈ form.steps.reverse := by
    simp [mem_steps_iff]
  unfold stepBefore
  cases found : form.steps.reverse.find? fun index => index < i with
  | none =>
      refine .previousAtStart fun k content => ?_
      have before := List.find?_eq_none.mp found k (mem_reverse.mp content)
      simpa using before
  | some j =>
      have earlier : j < i := by simpa using List.find?_some found
      refine .previous (mem_reverse.mpr (List.mem_of_find?_eq_some found)) earlier ?_
      intro k content earlierToo
      have first := first_of_find? (List.pairwise_reverse.mpr form.steps_ascending) found k
        (mem_reverse.mp content) (decide_eq_true earlierToo)
      simp only [Option.getD_some]
      omega

theorem leads_moveCursor (form : Form) (action : ButtonAction) (i : Nat) :
    form.Leads action i (form.moveCursor action i) := by
  cases action with
  | next => exact form.leads_stepAfter i
  | previous => exact form.leads_stepBefore i
  | submit => exact .submit
  | custom => exact .custom

theorem Leads.unique {action : ButtonAction} {k : Nat} (leads : form.Leads action i j)
    (leadsToo : form.Leads action i k) : j = k := by
  cases leads with
  | next content later nearest =>
      cases leadsToo with
      | next contentToo laterToo nearestToo =>
          exact Nat.le_antisymm (nearest k contentToo laterToo) (nearestToo j content later)
      | nextAtEnd last => exact absurd later (Nat.not_lt.mpr (last j content))
  | nextAtEnd last =>
      cases leadsToo with
      | next content later => exact absurd later (Nat.not_lt.mpr (last k content))
      | nextAtEnd => rfl
  | previous content earlier nearest =>
      cases leadsToo with
      | previous contentToo earlierToo nearestToo =>
          exact Nat.le_antisymm (nearestToo j content earlier) (nearest k contentToo earlierToo)
      | previousAtStart first => exact absurd earlier (Nat.not_lt.mpr (first j content))
  | previousAtStart first =>
      cases leadsToo with
      | previous content earlier => exact absurd earlier (Nat.not_lt.mpr (first k content))
      | previousAtStart => rfl
  | submit =>
      cases leadsToo
      rfl
  | custom =>
      cases leadsToo
      rfl

/-- A way of the cursor from one position to another. -/
inductive Follows (form : Form) : List ButtonAction → Nat → Nat → Prop where
  | stay {i : Nat} : Follows form [] i i
  | go {action : ButtonAction} {actions : List ButtonAction} {i j k : Nat}
      (leads : form.Leads action i j) (follows : Follows form actions j k) :
      Follows form (action :: actions) i k

def moveAll (form : Form) (actions : List ButtonAction) (i : Nat) : Nat :=
  actions.foldl (fun cursor action => form.moveCursor action cursor) i

theorem follows_iff {actions : List ButtonAction} :
    form.Follows actions i j ↔ j = form.moveAll actions i := by
  induction actions generalizing i with
  | nil =>
      constructor
      · rintro ⟨⟩
        rfl
      · rintro rfl
        exact .stay
  | cons action rest ih =>
      constructor
      · rintro ⟨⟩
        rename_i k leads follows
        obtain rfl := leads.unique (form.leads_moveCursor action i)
        exact ih.mp follows
      · rintro rfl
        exact .go (form.leads_moveCursor action i) (ih.mpr rfl)

theorem Follows.content {actions : List ButtonAction} (follows : form.Follows actions i j)
    (content : form.IsContent i) : form.IsContent j := by
  induction follows with
  | stay => exact content
  | go leads _ ih => exact ih (leads.content content)

/-- An action that is to move the cursor. -/
def Steers (action : ButtonAction) : Prop := action = .next ∨ action = .previous

instance (action : ButtonAction) : Decidable (Steers action) :=
  inferInstanceAs (Decidable (_ ∨ _))

theorem steers_of_moveCursor_ne {action : ButtonAction} (moved : form.moveCursor action i ≠ i) :
    Steers action := by
  cases action with
  | next => exact .inl rfl
  | previous => exact .inr rfl
  | submit | custom => exact absurd rfl moved

theorem moveAll_filter (form : Form) (actions : List ButtonAction) (i : Nat) :
    form.moveAll (actions.filter Steers) i = form.moveAll actions i := by
  induction actions generalizing i with
  | nil => rfl
  | cons action rest ih =>
      rw [List.filter_cons]
      by_cases steers : Steers action
      · rw [if_pos (decide_eq_true steers)]
        exact ih _
      · have stays : form.moveCursor action i = i :=
          Decidable.byContradiction fun moved => steers (steers_of_moveCursor_ne moved)
        rw [if_neg (by simpa using steers), ih]
        exact congrArg (form.moveAll rest) stays.symm

end Form

namespace FormRun

variable {r : FormRun} {clicks : List Click}

/-! ## The run of the machine -/

def machineSteps (r : FormRun) : List FormStep → List MachineStep
  | [] => []
  | s :: rest => (r.machineStep? s).toList ++ (r.step s).machineSteps rest

theorem machine_step_eq_run (r : FormRun) (s : FormStep) :
    (r.step s).machine = r.machine.run (r.machineStep? s).toList := by
  rw [machine_step]
  cases r.machineStep? s <;> rfl

theorem machine_run (r : FormRun) (steps : List FormStep) :
    (r.run steps).machine = r.machine.run (r.machineSteps steps) := by
  induction steps generalizing r with
  | nil => rfl
  | cons s rest ih =>
      refine (ih (r.step s)).trans ?_
      rw [machine_step_eq_run, machineSteps, Machine.run, Machine.run, Machine.run,
        List.foldl_append]

def completing? (r : FormRun) (s : FormStep) : Option PendingClick :=
  (r.machineStep? s).bind r.machine.completing?

theorem cursor_step (r : FormRun) (s : FormStep) : (r.step s).cursor =
    (r.completing? s).elim r.cursor fun p => r.form.moveCursor p.click.action r.cursor := by
  cases s with
  | click id values =>
      simp only [step, completing?, machineStep?]
      cases r.form.click? r.cursor id values <;> rfl
  | validated | drop | expire => rfl
  | acted ticket failure =>
      cases failure with
      | some reason => simp [step, cursorAfter, completing?, machineStep?, Machine.completing?]
      | none =>
          simp only [step, cursorAfter, completing?, machineStep?, Machine.completing?,
            Option.bind_some]
          cases r.machine.pending? ticket with
          | none => rfl
          | some p =>
              by_cases acting : p.phase = .acting
              · simp [acting, Option.filter]
              · simp [acting, Option.filter]

/-! ## The cursor and the completed clicks -/

/-- The actions of clicks that steer, in order. -/
def moves (clicks : List Click) : List ButtonAction := (clicks.map Click.action).filter Form.Steers

/-- The cursor is where the completed clicks have led it. -/
structure Led (r : FormRun) (clicks : List Click) : Prop where
  traced : r.machine.Traced clicks
  cursor : r.cursor =
    r.form.moveAll ((r.machine.completed clicks).map Click.action) r.form.firstStep

namespace Led

theorem start (form : Form) (config : MachineConfig) : (FormRun.start form config).Led [] :=
  ⟨.start config, rfl⟩

theorem step (h : r.Led clicks) (s : FormStep) :
    (r.step s).Led (clicks ++ MachineStep.clicks (r.machineStep? s).toList) := by
  constructor
  · rw [machine_step_eq_run]
    exact h.traced.run _
  · rw [cursor_step, form_step, completing?, machine_step]
    cases asks : r.machineStep? s with
    | none => simpa [MachineStep.clicks] using h.cursor
    | some t =>
        have completed := h.traced.completed_transition (r.machine.transition_step t)
        rw [Option.toList_some, MachineStep.clicks_singleton, Option.elim_some, completed,
          Option.bind_some]
        cases r.machine.completing? t with
        | none => simpa using h.cursor
        | some p =>
            simp only [Option.elim_some, Option.map_some, Option.toList_some, List.map_append,
              List.map_cons, List.map_nil, Form.moveAll, List.foldl_append, List.foldl_cons,
              List.foldl_nil]
            rw [h.cursor]
            rfl

theorem run (h : r.Led clicks) (steps : List FormStep) :
    (r.run steps).Led (clicks ++ MachineStep.clicks (r.machineSteps steps)) := by
  induction steps generalizing r clicks with
  | nil => simpa [FormRun.run, machineSteps, MachineStep.clicks] using h
  | cons s rest ih =>
      rw [machineSteps, MachineStep.clicks_append, ← List.append_assoc]
      exact ih (h.step s)

end Led

theorem completed_for_good (consistent : r.machine.Consistent) {s : FormStep} {p : PendingClick}
    (moves : r.Moves s p) (after : List FormStep) :
    ((r.step s).run after).machine.outcome? p.ticket = some .completed := by
  have completes := Machine.completing?_eq_some_iff.mpr ⟨rfl, moves.inFlight, moves.waits⟩
  cases moves.answered
  rw [machine_run]
  exact consistent.outcome_of_completing completes _

/-- The cursor is always on a content section, if there is one: on the one to which the completed
    `NEXT` and `PREVIOUS` clicks, in the order in which they completed, lead from the first. A step
    moves it only if it completes a `NEXT` or `PREVIOUS` click; no other click ever does. -/
theorem cursor_follows_completed_clicks (form : Form) (config : MachineConfig)
    (content : ∃ i, form.IsContent i) (steps : List FormStep) :
    let r := (start form config).run steps
    let clicks := MachineStep.clicks ((start form config).machineSteps steps)
    form.IsContent r.cursor ∧
    (∃ first, form.IsFirst first ∧
      ∀ last, form.Follows (moves (r.machine.completed clicks)) first last ↔ last = r.cursor) ∧
    ∀ s, (r.step s).cursor ≠ r.cursor →
      ∃ p, r.Moves s p ∧ (p.click.action = .next ∨ p.click.action = .previous) ∧
        ∀ after, ((r.step s).run after).machine.outcome? p.ticket = some .completed := by
  intro r clicks
  have led : r.Led clicks := (Led.start form config).run steps
  have sameForm : r.form = form := form_run _ steps
  have first := Form.isFirst_firstStep content
  have follows : ∀ last, form.Follows (moves (r.machine.completed clicks)) form.firstStep last ↔
      last = r.cursor := by
    intro last
    rw [Form.follows_iff, moves, Form.moveAll_filter, led.cursor, sameForm]
  refine ⟨((follows r.cursor).mpr rfl).content first.content, ⟨_, first, follows⟩, ?_⟩
  intro s moved
  obtain ⟨p, moves⟩ := moves_of_cursor_ne s moved
  have moved : r.form.moveCursor p.click.action r.cursor ≠ r.cursor := moves.cursor ▸ moved
  exact ⟨p, moves, Form.steers_of_moveCursor_ne moved,
    completed_for_good led.traced.consistent moves⟩

def bothEnded : List FormStep := bothClicked ++ [.acted 1 none]

def threeSteps : Form := .build twoNext [] ⟨false⟩ .currentStep

theorem both_next_lead_to_third_step :
    threeSteps.IsContent 0 ∧ ((start threeSteps ⟨true, true⟩).run bothEnded).cursor = 2 ∧
      ∃ first, threeSteps.IsFirst first ∧ threeSteps.Follows [.next, .next] first 2 := by
  have content : threeSteps.IsContent 0 := ⟨_, rfl, rfl⟩
  have cursor : ((start threeSteps ⟨true, true⟩).run bothEnded).cursor = 2 := by decide +kernel
  have completed : moves (((start threeSteps ⟨true, true⟩).run bothEnded).machine.completed
      (MachineStep.clicks ((start threeSteps ⟨true, true⟩).machineSteps bothEnded))) =
        [.next, .next] := by decide +kernel
  obtain ⟨-, ⟨first, isFirst, follows⟩, -⟩ :=
    cursor_follows_completed_clicks threeSteps ⟨true, true⟩ ⟨0, content⟩ bothEnded
  rw [completed, cursor] at follows
  exact ⟨content, cursor, first, isFirst, (follows 2).mpr rfl⟩

end FormRun

end GatedForms

import GatedForms.Proofs.Button.InFlight

/-! # What a step does to one click and to one button

A step leaves a click in flight as it is, takes it to its handler, or ends it; its button follows. A
button at rest, on which no click is in flight, is left by a click on it or by its revert only.
-/

namespace GatedForms

namespace SlotTable

def history (t : SlotTable) (id : ButtonId) : List ButtonState :=
  (t.events.filter fun event => event.id = id).map ButtonEvent.state

theorem filter_published_self (id : ButtonId) (published : List ButtonState) :
    (published.map fun state => (⟨id, state⟩ : ButtonEvent)).filter
      (fun event => event.id = id) = published.map fun state => ⟨id, state⟩ := by
  simp [List.filter_eq_self]

theorem filter_published_ne {id other : ButtonId} (differ : id ≠ other)
    (published : List ButtonState) :
    (published.map fun state => (⟨id, state⟩ : ButtonEvent)).filter
      (fun event => event.id = other) = [] := by
  simp [List.filter_eq_nil_iff, differ]

theorem history_update_self (t : SlotTable) (id : ButtonId) (slot : Slot)
    (published : List ButtonState) :
    (t.update id slot published).history id = t.history id ++ published := by
  simp only [history, update, List.filter_append, filter_published_self, List.map_append,
    List.map_map]
  simp [Function.comp_def]

theorem history_update_ne (t : SlotTable) {id other : ButtonId} (slot : Slot)
    (published : List ButtonState) (differ : id ≠ other) :
    (t.update id slot published).history other = t.history other := by
  simp only [history, update, List.filter_append, filter_published_ne differ, List.append_nil]

theorem settleSuccess_eq (t : SlotTable) (hasClock : Bool) {id : ButtonId} {generation : Nat}
    (current : (t.slot id).generation = generation) :
    t.settleSuccess hasClock id generation =
      t.update id
        (if hasClock then ⟨.success, generation, some generation⟩
          else { t.slot id with state := .idle })
        (.success :: if hasClock then [] else [.idle]) := by
  rw [settleSuccess, if_pos current]
  cases hasClock <;> rfl

/-- A revert ends success in its own generation, and does nothing else. -/
theorem expire_cases (t : SlotTable) (id : ButtonId) (generation : Nat) :
    ((t.slot id).generation = generation ∧ t.state id = .success ∧
      t.expire id generation = t.update id ⟨.idle, generation, none⟩ [.idle]) ∨
    ¬ ((t.slot id).generation = generation ∧ t.state id = .success) ∧
      t.expire id generation = t := by
  by_cases applies : (t.slot id).generation = generation ∧ (t.slot id).state = .success
  · exact .inl ⟨applies.1, applies.2, if_pos applies⟩
  · exact .inr ⟨applies, if_neg applies⟩

end SlotTable

namespace Machine

variable {m : Machine} {p : PendingClick}

def history (m : Machine) (id : ButtonId) : List ButtonState := m.table.history id

def callsOf (m : Machine) (ticket : Nat) : List HandlerCall :=
  (m.calls.filter fun call => call.1 = ticket).map Prod.snd

theorem callsOf_append_self (calls : List (Nat × HandlerCall)) (ticket : Nat)
    (call : HandlerCall) :
    ((calls ++ [(ticket, call)]).filter fun call => call.1 = ticket).map Prod.snd =
      ((calls.filter fun call => call.1 = ticket).map Prod.snd) ++ [call] := by
  simp

theorem callsOf_append_ne (calls : List (Nat × HandlerCall)) {ticket other : Nat}
    (call : HandlerCall) (differ : other ≠ ticket) :
    ((calls ++ [(other, call)]).filter fun call => call.1 = ticket).map Prod.snd =
      (calls.filter fun call => call.1 = ticket).map Prod.snd := by
  simp [differ]

theorem config_step (m : Machine) (s : MachineStep) : (m.step s).config = m.config := by
  have t := m.transition_step s
  generalize m.step s = after at t
  cases t <;> rfl

theorem pending?_eq_none {ticket : Nat} (gone : ∀ q ∈ m.pending, q.ticket ≠ ticket) :
    m.pending? ticket = none :=
  List.find?_eq_none.mpr fun q inFlight => by simpa using gone q inFlight

theorem step_click_of_free {c : Click} (free : m.state c.id ≠ .loading) :
    m.step (.click c) =
      { m with
        table := m.table.update c.id
          ⟨.loading, (m.table.slot c.id).generation + 1, none⟩ [.loading]
        pending := m.pending ++
          [⟨m.nextTicket, c, (m.table.slot c.id).generation + 1, firstPhase c⟩]
        nextTicket := m.nextTicket + 1
        calls := m.calls ++ [(m.nextTicket, c.firstCall)] } := by
  simp only [step, click, SlotTable.accept?_of_free _ _ free]
  rfl

/-! ## Clicks in flight -/

/-- The step is what the click waits for, or drops it. -/
def Concerns (p : PendingClick) : MachineStep → Prop
  | .validated ticket _ => ticket = p.ticket ∧ p.phase = .validating
  | .acted ticket _ => ticket = p.ticket ∧ p.phase = .acting
  | .drop ticket => ticket = p.ticket
  | .click _ => False
  | .expire _ _ => False

/-- The button of the click is as before. -/
structure KeepsButton (m : Machine) (p : PendingClick) (after : Machine) : Prop where
  slot : after.table.slot p.click.id = m.table.slot p.click.id
  history : after.history p.click.id = m.history p.click.id

/-- The click has ended and has left its button idle. -/
structure Frees (m : Machine) (p : PendingClick) (after : Machine) : Prop where
  gone : ∀ q ∈ after.pending, q.ticket ≠ p.ticket
  slot : after.table.slot p.click.id = { m.table.slot p.click.id with state := .idle }
  history : after.history p.click.id = m.history p.click.id ++ [.idle]

/-- What a step does to a click in flight and to its button. -/
inductive Progress (m : Machine) (p : PendingClick) : MachineStep → Machine → Prop where
  | waits {s : MachineStep} {after : Machine} (unconcerned : ¬ Concerns p s)
      (inFlight : p ∈ after.pending) (button : m.KeepsButton p after)
      (calls : after.callsOf p.ticket = m.callsOf p.ticket) : Progress m p s after
  | passed {after : Machine} (transformed : Option Values) (validating : p.phase = .validating)
      (inFlight : { p with phase := .acting } ∈ after.pending) (button : m.KeepsButton p after)
      (calls : after.callsOf p.ticket =
        m.callsOf p.ticket ++ [p.click.hookCall (transformed.getD p.click.values)]) :
      Progress m p (.validated p.ticket (.ok transformed)) after
  | refused {after : Machine} (messages : Messages) (validating : p.phase = .validating)
      (frees : m.Frees p after) (calls : after.callsOf p.ticket = m.callsOf p.ticket)
      (outcome : after.outcome? p.ticket = some (.invalid messages)) :
      Progress m p (.validated p.ticket (.error messages)) after
  | failed {after : Machine} (reason : HandlerFailure) (acting : p.phase = .acting)
      (frees : m.Frees p after) (calls : after.callsOf p.ticket = m.callsOf p.ticket)
      (outcome : after.outcome? p.ticket = some (.failed reason)) :
      Progress m p (.acted p.ticket (some reason)) after
  /-- Success lasts only if there is a clock. -/
  | completed {after : Machine} (acting : p.phase = .acting)
      (gone : ∀ q ∈ after.pending, q.ticket ≠ p.ticket)
      (slot : after.table.slot p.click.id =
        if m.config.hasClock then ⟨.success, p.generation, some p.generation⟩
        else { m.table.slot p.click.id with state := .idle })
      (history : after.history p.click.id =
        m.history p.click.id ++ .success :: if m.config.hasClock then [] else [.idle])
      (calls : after.callsOf p.ticket = m.callsOf p.ticket)
      (outcome : after.outcome? p.ticket = some .completed) :
      Progress m p (.acted p.ticket none) after
  | dropped {after : Machine} (frees : m.Frees p after)
      (calls : after.callsOf p.ticket = m.callsOf p.ticket)
      (outcome : after.outcome? p.ticket = none) :
      Progress m p (.drop p.ticket) after

theorem frees_settleIdle (current : (m.table.slot p.click.id).generation = p.generation)
    {outcomes : List (Nat × ClickOutcome)} :
    m.Frees p
      { m with
        table := m.table.settleIdle p.click.id p.generation
        pending := m.without p.ticket
        outcomes := outcomes } := by
  constructor
  · exact fun q member => gone_without q member
  · simp only [SlotTable.settleIdle, if_pos current, SlotTable.slot_update_self]
  · simp only [Machine.history, SlotTable.settleIdle, if_pos current,
      SlotTable.history_update_self]

namespace Consistent

theorem keepsButton_of_other (h : m.Consistent) (inFlight : p ∈ m.pending) {q : PendingClick}
    (other : q ∈ m.pending) (differ : p.ticket ≠ q.ticket) {slot : Slot}
    {published : List ButtonState} {after : Machine}
    (table : after.table = m.table.update q.click.id slot published) :
    m.KeepsButton p after := by
  have otherButton : q.click.id ≠ p.click.id := fun same =>
    differ (h.eq_of_button other inFlight same ▸ rfl)
  constructor
  · rw [table, SlotTable.slot_update_ne _ _ _ _ otherButton]
  · rw [Machine.history, table, SlotTable.history_update_ne _ _ _ otherButton]
    rfl

/-- A step does one of these things to a click in flight. -/
theorem progress (h : m.Consistent) (inFlight : p ∈ m.pending) {s : MachineStep}
    {after : Machine} (t : m.Transition s after) : Progress m p s after := by
  have current : ∀ q, m.pending? q.ticket = some q →
      (m.table.slot q.click.id).generation = q.generation :=
    fun q found => (h.holds q (mem_of_pending? found)).2
  cases t with
  | ignored c loading => exact .waits id inFlight ⟨rfl, rfl⟩ rfl
  | accepted c free =>
      have otherButton : c.id ≠ p.click.id := fun same =>
        free (same ▸ (h.holds p inFlight).1)
      refine .waits id (List.mem_append_left _ inFlight) ⟨?_, ?_⟩ ?_
      · exact SlotTable.slot_update_ne _ _ _ _ otherButton
      · exact SlotTable.history_update_ne _ _ _ otherButton
      · exact callsOf_append_ne _ _ (Nat.ne_of_gt (h.begun p inFlight))
  | refused q found waits messages =>
      have inPending := mem_of_pending? found
      by_cases same : p.ticket = q.ticket
      · cases h.eq_of_ticket inFlight inPending same
        exact .refused messages waits (frees_settleIdle (current p found)) rfl
          (outcome?_append_self _ (h.unanswered p inFlight))
      · exact .waits (fun concerned => same concerned.1.symm) (mem_without inFlight same)
          (h.keepsButton_of_other inFlight inPending same (if_pos (current q found))) rfl
  | passed q found waits transformed =>
      by_cases same : p.ticket = q.ticket
      · cases h.eq_of_ticket inFlight (mem_of_pending? found) same
        refine .passed transformed waits ?_ ⟨rfl, rfl⟩ (callsOf_append_self _ _ _)
        exact List.mem_map.mpr ⟨p, inFlight, if_pos rfl⟩
      · refine .waits (fun concerned => same concerned.1.symm) ?_ ⟨rfl, rfl⟩
          (callsOf_append_ne _ _ fun sameTicket => same sameTicket.symm)
        exact List.mem_map.mpr ⟨p, inFlight, if_neg same⟩
  | failed q found waits reason =>
      have inPending := mem_of_pending? found
      by_cases same : p.ticket = q.ticket
      · cases h.eq_of_ticket inFlight inPending same
        exact .failed reason waits (frees_settleIdle (current p found)) rfl
          (outcome?_append_self _ (h.unanswered p inFlight))
      · exact .waits (fun concerned => same concerned.1.symm) (mem_without inFlight same)
          (h.keepsButton_of_other inFlight inPending same (if_pos (current q found))) rfl
  | completed q found waits =>
      have inPending := mem_of_pending? found
      by_cases same : p.ticket = q.ticket
      · cases h.eq_of_ticket inFlight inPending same
        refine .completed waits (fun q member => gone_without q member) ?_ ?_ rfl
          (outcome?_append_self _ (h.unanswered p inFlight))
        · rw [finish, SlotTable.settleSuccess_eq _ _ (current p found)]
          exact SlotTable.slot_update_self _ _ _ _
        · rw [finish, SlotTable.settleSuccess_eq _ _ (current p found)]
          exact SlotTable.history_update_self _ _ _ _
      · exact .waits (fun concerned => same concerned.1.symm) (mem_without inFlight same)
          (h.keepsButton_of_other inFlight inPending same
            (SlotTable.settleSuccess_eq _ _ (current q found))) rfl
  | dropped q found =>
      have inPending := mem_of_pending? found
      by_cases same : p.ticket = q.ticket
      · cases h.eq_of_ticket inFlight inPending same
        exact .dropped (frees_settleIdle (current p found)) rfl
          (outcome?_eq_none (h.unanswered p inFlight))
      · exact .waits (fun concerned => same (Eq.symm concerned)) (mem_without inFlight same)
          (h.keepsButton_of_other inFlight inPending same (if_pos (current q found))) rfl
  | expired other generation =>
      have button : m.KeepsButton p { m with table := m.table.expire other generation } := by
        rcases m.table.expire_cases other generation with ⟨-, success, expires⟩ | ⟨-, late⟩
        · have otherButton : other ≠ p.click.id := by
            rintro rfl
            cases success.symm.trans (h.holds p inFlight).1
          rw [expires]
          exact ⟨SlotTable.slot_update_ne _ _ _ _ otherButton,
            SlotTable.history_update_ne _ _ _ otherButton⟩
        · rw [late]
          exact ⟨rfl, rfl⟩
      exact .waits id inFlight button rfl
  | unawaited _ stray =>
      refine .waits ?_ inFlight ⟨rfl, rfl⟩ rfl
      have found := h.pending?_of_mem inFlight
      cases s with
      | click | expire => exact id
      | validated ticket result =>
          rintro ⟨rfl, waits⟩
          exact stray p found waits
      | acted ticket failure =>
          rintro ⟨rfl, waits⟩
          exact stray p found waits
      | drop ticket =>
          rintro rfl
          cases found.symm.trans stray

theorem stays_or_over (h : m.Consistent) (inFlight : p ∈ m.pending) {s : MachineStep}
    {after : Machine} (t : m.Transition s after) :
    (∃ q ∈ after.pending, q.ticket = p.ticket ∧ q.click = p.click ∧ m.KeepsButton p after) ∨
      (∀ q ∈ after.pending, q.ticket ≠ p.ticket) ∧
        ((after.outcome? p.ticket).isSome ∨ s = .drop p.ticket) := by
  cases h.progress inFlight t with
  | waits _ stays button => exact .inl ⟨p, stays, rfl, rfl, button⟩
  | passed _ _ stays button => exact .inl ⟨_, stays, rfl, rfl, button⟩
  | refused _ _ frees _ outcome => exact .inr ⟨frees.gone, .inl (by rw [outcome]; rfl)⟩
  | failed _ _ frees _ outcome => exact .inr ⟨frees.gone, .inl (by rw [outcome]; rfl)⟩
  | completed _ gone _ _ _ outcome => exact .inr ⟨gone, .inl (by rw [outcome]; rfl)⟩
  | dropped frees => exact .inr ⟨frees.gone, .inr rfl⟩

end Consistent

/-! ## Buttons at rest -/

/-- What a step does to a button on which no click is in flight. -/
inductive Rest (m : Machine) (id : ButtonId) : MachineStep → Machine → Prop where
  | untouched {s : MachineStep} {after : Machine} (notClicked : ∀ c, s = .click c → c.id ≠ id)
      (notExpired : s = .expire id (m.table.slot id).generation → m.state id ≠ .success)
      (slot : after.table.slot id = m.table.slot id)
      (history : after.history id = m.history id) : Rest m id s after
  | begins {after : Machine} (c : Click) (onButton : c.id = id)
      (slot : after.table.slot id = ⟨.loading, (m.table.slot id).generation + 1, none⟩)
      (history : after.history id = m.history id ++ [.loading]) : Rest m id (.click c) after
  | expires {after : Machine} (success : m.state id = .success)
      (slot : after.table.slot id = ⟨.idle, (m.table.slot id).generation, none⟩)
      (history : after.history id = m.history id ++ [.idle]) :
      Rest m id (.expire id (m.table.slot id).generation) after

/-- A step does one of these things to a button that does not load. -/
theorem Consistent.rest (h : m.Consistent) {id : ButtonId} (free : m.state id ≠ .loading)
    {s : MachineStep} {after : Machine} (t : m.Transition s after) : Rest m id s after := by
  -- Whatever ends a click is about a button that loads, and so about another one.
  have otherButton : ∀ q, m.pending? q.ticket = some q → q.click.id ≠ id := by
    rintro q found rfl
    exact free (h.holds q (mem_of_pending? found)).1
  have settled : ∀ q, m.pending? q.ticket = some q →
      (m.table.settleIdle q.click.id q.generation).slot id = m.table.slot id ∧
      (m.table.settleIdle q.click.id q.generation).history id = m.history id := by
    intro q found
    rw [SlotTable.settleIdle, if_pos (h.holds q (mem_of_pending? found)).2]
    exact ⟨SlotTable.slot_update_ne _ _ _ _ (otherButton q found),
      SlotTable.history_update_ne _ _ _ (otherButton q found)⟩
  cases t with
  | ignored c loading =>
      refine .untouched ?_ (by simp) rfl rfl
      rintro _ ⟨⟩ rfl
      exact free loading
  | accepted c notLoading =>
      by_cases same : c.id = id
      · subst same
        exact .begins c rfl (SlotTable.slot_update_self _ _ _ _)
          (SlotTable.history_update_self _ _ _ _)
      · refine .untouched ?_ (by simp) (SlotTable.slot_update_ne _ _ _ _ same)
          (SlotTable.history_update_ne _ _ _ same)
        rintro _ ⟨⟩
        exact same
  | refused q found waits messages =>
      exact .untouched (by simp) (by simp) (settled q found).1 (settled q found).2
  | passed q found waits transformed => exact .untouched (by simp) (by simp) rfl rfl
  | failed q found waits reason =>
      exact .untouched (by simp) (by simp) (settled q found).1 (settled q found).2
  | completed q found waits =>
      rw [finish, SlotTable.settleSuccess_eq _ _ (h.holds q (mem_of_pending? found)).2]
      exact .untouched (by simp) (by simp) (SlotTable.slot_update_ne _ _ _ _ (otherButton q found))
        (SlotTable.history_update_ne _ _ _ (otherButton q found))
  | dropped q found => exact .untouched (by simp) (by simp) (settled q found).1 (settled q found).2
  | expired other generation =>
      rcases m.table.expire_cases other generation with ⟨rfl, success, expires⟩ | ⟨late, same⟩
      · by_cases same : other = id
        · subst same
          refine .expires success ?_ ?_
          · simp only [expires, SlotTable.slot_update_self]
          · simp only [Machine.history, expires, SlotTable.history_update_self]
        · refine .untouched (by simp) ?_ ?_ ?_
          · rintro ⟨⟩
            exact absurd rfl same
          · simp only [expires, SlotTable.slot_update_ne _ _ _ _ same]
          · simp only [Machine.history, expires, SlotTable.history_update_ne _ _ _ same]
      · refine .untouched (by simp) ?_ ?_ ?_
        · rintro ⟨⟩
          exact fun success => late ⟨rfl, success⟩
        · simp only [same]
        · simp only [Machine.history, same]
  | unawaited _ stray =>
      refine .untouched ?_ ?_ rfl rfl
      · rintro _ rfl
        exact stray.elim
      · rintro rfl
        exact stray.elim

/-! ## Completion -/

def completing? (m : Machine) : MachineStep → Option PendingClick
  | .acted ticket none => (m.pending? ticket).filter fun p => p.phase = .acting
  | _ => none

theorem completing?_eq_some_iff {s : MachineStep} : m.completing? s = some p ↔
    s = .acted p.ticket none ∧ m.pending? p.ticket = some p ∧ p.phase = .acting := by
  constructor
  · intro completes
    unfold completing? at completes
    split at completes
    · obtain ⟨found, acting⟩ := Option.filter_eq_some_iff.mp completes
      cases ticket_of_pending? found
      exact ⟨rfl, found, of_decide_eq_true acting⟩
    · cases completes
  · rintro ⟨rfl, found, acting⟩
    exact Option.filter_eq_some_iff.mpr ⟨found, decide_eq_true acting⟩

theorem completing?_of_unawaited {s : MachineStep} (stray : m.Unawaited s) :
    m.completing? s = none := by
  cases completes : m.completing? s with
  | none => rfl
  | some p =>
      obtain ⟨rfl, found, acting⟩ := completing?_eq_some_iff.mp completes
      exact absurd acting (stray p found)

theorem Consistent.outcome_of_completing (h : m.Consistent) {s : MachineStep}
    (completes : m.completing? s = some p) (after : List MachineStep) :
    ((m.step s).run after).outcome? p.ticket = some .completed := by
  obtain ⟨rfl, found, acting⟩ := completing?_eq_some_iff.mp completes
  have inFlight := mem_of_pending? found
  have step : m.step (.acted p.ticket none) = m.acted p none := by
    simp only [Machine.step, found, if_pos acting]
  have consistent : (m.acted p none).Consistent := step ▸ h.step _
  obtain ⟨-, outcome, -⟩ := consistent.gone_run (h.begun p inFlight)
    (fun q member => gone_without q member) after
  rw [step, outcome]
  exact outcome?_append_self _ (h.unanswered p inFlight)

end Machine

end GatedForms

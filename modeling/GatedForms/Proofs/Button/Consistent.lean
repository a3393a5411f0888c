import GatedForms.Proofs.Button.Transition

/-! # Consistent machines

In a machine that has run from the start, a button loads exactly while a click on it is in flight,
and there is one such click at most. `Consistent` is this invariant, and every transition keeps it.
-/

namespace GatedForms.Machine

theorem forall_mem_concat {α : Type} {P : α → Prop} {entries : List α} {entry : α}
    (old : ∀ x ∈ entries, P x) (new : P entry) : ∀ x ∈ entries ++ [entry], P x :=
  List.forall_mem_append.mpr ⟨old, List.forall_mem_singleton.mpr new⟩

/-- The table of buttons and the clicks in flight agree, and tickets are given out once. -/
structure Consistent (m : Machine) : Prop where
  ordered : KeyMap.Ascending m.table.slots
  /-- A click in flight holds its button in loading, in the generation of the button. -/
  holds : ∀ p ∈ m.pending, (m.table.slot p.click.id).state = .loading ∧
    (m.table.slot p.click.id).generation = p.generation
  /-- A loading button is held by a click in flight. -/
  held : ∀ id, m.state id = .loading → ∃ p ∈ m.pending, p.click.id = id
  buttons : m.pending.Pairwise fun p q => p.click.id ≠ q.click.id
  tickets : m.pending.Pairwise fun p q => p.ticket ≠ q.ticket
  begun : ∀ p ∈ m.pending, p.ticket < m.nextTicket
  ended : ∀ entry ∈ m.outcomes, entry.1 < m.nextTicket
  called : ∀ entry ∈ m.calls, entry.1 < m.nextTicket
  opened : ∀ p ∈ m.pending, (p.ticket, p.click.firstCall) ∈ m.calls
  /-- A click in flight has no outcome. -/
  unanswered : ∀ p ∈ m.pending, ∀ entry ∈ m.outcomes, entry.1 ≠ p.ticket

namespace Consistent

theorem start (config : MachineConfig) : (Machine.start config).Consistent where
  ordered := KeyMap.ascending_nil
  holds := nofun
  held := nofun
  buttons := .nil
  tickets := .nil
  begun := nofun
  ended := nofun
  called := nofun
  opened := nofun
  unanswered := nofun

variable {m : Machine}

theorem eq_of_ticket (h : m.Consistent) {p q : PendingClick} (hp : p ∈ m.pending)
    (hq : q ∈ m.pending) : p.ticket = q.ticket → p = q :=
  List.Pairwise.forall_of_forall_of_flip (R := fun p q => p.ticket = q.ticket → p = q)
    (fun _ _ _ => rfl) (h.tickets.imp fun differ same => absurd same differ)
    (h.tickets.imp fun differ same => absurd same.symm differ) hp hq

theorem eq_of_button (h : m.Consistent) {p q : PendingClick} (hp : p ∈ m.pending)
    (hq : q ∈ m.pending) : p.click.id = q.click.id → p = q :=
  List.Pairwise.forall_of_forall_of_flip (R := fun p q => p.click.id = q.click.id → p = q)
    (fun _ _ _ => rfl) (h.buttons.imp fun differ same => absurd same differ)
    (h.buttons.imp fun differ same => absurd same.symm differ) hp hq

theorem pending?_of_mem (h : m.Consistent) {p : PendingClick} (inFlight : p ∈ m.pending) :
    m.pending? p.ticket = some p := by
  cases found : m.pending? p.ticket with
  | none =>
      have absent := List.find?_eq_none.mp found p inFlight
      simp at absent
  | some q =>
      rw [h.eq_of_ticket (mem_of_pending? found) inFlight (ticket_of_pending? found)]

theorem released (h : m.Consistent) {p : PendingClick} (inFlight : p ∈ m.pending)
    {table : SlotTable} (releases : m.table.Releases table p.click.id)
    {outcomes : List (Nat × ClickOutcome)}
    (adds : ∀ entry ∈ outcomes, entry ∈ m.outcomes ∨ entry.1 = p.ticket) :
    Consistent
      { m with table := table, pending := m.without p.ticket, outcomes := outcomes } := by
  have others : ∀ q ∈ m.without p.ticket, q ∈ m.pending ∧ q.ticket ≠ p.ticket := by
    intro q member
    simpa [without] using member
  refine
    { ordered := releases.ordered h.ordered
      holds := ?_
      held := ?_
      buttons := h.buttons.filter _
      tickets := h.tickets.filter _
      begun := fun q member => h.begun q (others q member).1
      ended := ?_
      called := h.called
      opened := fun q member => h.opened q (others q member).1
      unanswered := ?_ }
  · intro q member
    obtain ⟨inPending, differ⟩ := others q member
    have otherButton : p.click.id ≠ q.click.id := by
      intro same
      cases h.eq_of_button inFlight inPending same
      exact differ rfl
    rw [releases.others _ otherButton]
    exact h.holds q inPending
  · intro id loading
    have otherButton : p.click.id ≠ id := by
      rintro rfl
      exact releases.free loading
    have before : m.state id = .loading := by
      simpa only [state, SlotTable.state, releases.others _ otherButton] using loading
    obtain ⟨q, inPending, rfl⟩ := h.held id before
    have differ : q.ticket ≠ p.ticket := by
      intro same
      cases h.eq_of_ticket inPending inFlight same
      exact otherButton rfl
    exact ⟨q, by simpa [without] using ⟨inPending, differ⟩, rfl⟩
  · intro entry member
    rcases adds entry member with old | new
    · exact h.ended entry old
    · exact new ▸ h.begun p inFlight
  · intro q member entry inOutcomes
    obtain ⟨inPending, differ⟩ := others q member
    rcases adds entry inOutcomes with old | new
    · exact h.unanswered q inPending entry old
    · exact fun same => differ (same.symm.trans new)

theorem ignored (h : m.Consistent) :
    Consistent
      { m with
        nextTicket := m.nextTicket + 1
        outcomes := m.outcomes ++ [(m.nextTicket, .ignored)] } where
  ordered := h.ordered
  holds := h.holds
  held := h.held
  buttons := h.buttons
  tickets := h.tickets
  begun := fun p inFlight => Nat.lt_succ_of_lt (h.begun p inFlight)
  ended := forall_mem_concat (fun entry old => Nat.lt_succ_of_lt (h.ended entry old))
    (Nat.lt_succ_self _)
  called := fun entry member => Nat.lt_succ_of_lt (h.called entry member)
  opened := h.opened
  unanswered := fun p inFlight =>
    forall_mem_concat (h.unanswered p inFlight) (Nat.ne_of_gt (h.begun p inFlight))

theorem accepted (h : m.Consistent) (c : Click) (free : m.state c.id ≠ .loading)
    (phase : ClickPhase) :
    Consistent
      { m with
        table := m.table.update c.id
          ⟨.loading, (m.table.slot c.id).generation + 1, none⟩ [.loading]
        pending := m.pending ++ [⟨m.nextTicket, c, (m.table.slot c.id).generation + 1, phase⟩]
        nextTicket := m.nextTicket + 1
        calls := m.calls ++ [(m.nextTicket, c.firstCall)] } := by
  have otherButton : ∀ q ∈ m.pending, c.id ≠ q.click.id := by
    intro q inFlight same
    exact free (same ▸ (h.holds q inFlight).1)
  refine
    { ordered := KeyMap.ascending_insert _ _ h.ordered
      holds := forall_mem_concat (fun q old => ?_) ?_
      held := ?_
      buttons := ?_
      tickets := ?_
      begun := forall_mem_concat (fun q old => Nat.lt_succ_of_lt (h.begun q old))
        (Nat.lt_succ_self _)
      ended := fun entry member => Nat.lt_succ_of_lt (h.ended entry member)
      called := forall_mem_concat (fun entry old => Nat.lt_succ_of_lt (h.called entry old))
        (Nat.lt_succ_self _)
      opened := forall_mem_concat (fun q old => List.mem_append_left _ (h.opened q old))
        (List.mem_append_right _ List.mem_cons_self)
      unanswered := forall_mem_concat h.unanswered fun entry inOutcomes =>
        Nat.ne_of_lt (h.ended entry inOutcomes) }
  · rw [SlotTable.slot_update_ne _ _ _ _ (otherButton q old)]
    exact h.holds q old
  · rw [SlotTable.slot_update_self]
    exact ⟨rfl, rfl⟩
  · intro id loading
    by_cases same : c.id = id
    · exact ⟨_, List.mem_append_right _ List.mem_cons_self, same⟩
    · have before : m.state id = .loading := by
        simpa only [state, SlotTable.state, SlotTable.slot_update_ne _ _ _ _ same] using loading
      obtain ⟨q, inFlight, held⟩ := h.held id before
      exact ⟨q, List.mem_append_left _ inFlight, held⟩
  · refine List.pairwise_append.mpr ⟨h.buttons, List.pairwise_singleton _ _, ?_⟩
    exact fun q inFlight => List.forall_mem_singleton.mpr (otherButton q inFlight).symm
  · refine List.pairwise_append.mpr ⟨h.tickets, List.pairwise_singleton _ _, ?_⟩
    exact fun q inFlight => List.forall_mem_singleton.mpr (Nat.ne_of_lt (h.begun q inFlight))

theorem passed (h : m.Consistent) {p : PendingClick} (inFlight : p ∈ m.pending)
    (call : HandlerCall) :
    Consistent
      { m with
        pending := m.pending.map (PendingClick.actOn p.ticket)
        calls := m.calls ++ [(p.ticket, call)] } := by
  have origin : ∀ q ∈ m.pending.map (PendingClick.actOn p.ticket),
      ∃ r ∈ m.pending, r.actOn p.ticket = q := fun q member => List.mem_map.mp member
  refine
    { ordered := h.ordered
      holds := ?_
      held := ?_
      buttons := ?_
      tickets := ?_
      begun := ?_
      ended := h.ended
      called := forall_mem_concat h.called (h.begun p inFlight)
      opened := ?_
      unanswered := ?_ }
  · intro q member
    obtain ⟨r, inPending, rfl⟩ := origin q member
    rw [PendingClick.actOn_click, PendingClick.actOn_generation]
    exact h.holds r inPending
  · intro id loading
    obtain ⟨r, inPending, rfl⟩ := h.held id loading
    exact ⟨r.actOn p.ticket, List.mem_map_of_mem inPending, by rw [PendingClick.actOn_click]⟩
  · exact List.pairwise_map.mpr (h.buttons.imp fun differ => by
      simpa only [PendingClick.actOn_click] using differ)
  · exact List.pairwise_map.mpr (h.tickets.imp fun differ => by
      simpa only [PendingClick.actOn_ticket] using differ)
  · intro q member
    obtain ⟨r, inPending, rfl⟩ := origin q member
    rw [PendingClick.actOn_ticket]
    exact h.begun r inPending
  · intro q member
    obtain ⟨r, inPending, rfl⟩ := origin q member
    rw [PendingClick.actOn_ticket, PendingClick.actOn_click]
    exact List.mem_append_left _ (h.opened r inPending)
  · intro q member entry inOutcomes
    obtain ⟨r, inPending, rfl⟩ := origin q member
    rw [PendingClick.actOn_ticket]
    exact h.unanswered r inPending entry inOutcomes

theorem expired (h : m.Consistent) (id : ButtonId) (generation : Nat) :
    Consistent { m with table := m.table.expire id generation } := by
  refine
    { h with
      ordered := SlotTable.ordered_expire _ _ _ h.ordered
      holds := ?_
      held := ?_ }
  · intro p inFlight
    obtain ⟨loading, current⟩ := h.holds p inFlight
    exact ⟨(SlotTable.loading_expire_iff _ _ _ _).mpr loading,
      (SlotTable.generation_expire _ _ _ _).trans current⟩
  · intro other loading
    exact h.held other ((SlotTable.loading_expire_iff _ _ _ _).mp loading)

/-- No transition spoils a consistent machine. -/
theorem transition (h : m.Consistent) {s : MachineStep} {after : Machine}
    (t : m.Transition s after) : after.Consistent := by
  have settled : ∀ p, m.pending? p.ticket = some p → (m.table.slot p.click.id).generation =
      p.generation := fun p found => (h.holds p (mem_of_pending? found)).2
  have added : ∀ (p : PendingClick) (outcome : ClickOutcome),
      ∀ entry ∈ m.outcomes ++ [(p.ticket, outcome)], entry ∈ m.outcomes ∨ entry.1 = p.ticket :=
    fun p outcome => forall_mem_concat (fun _ old => .inl old) (.inr rfl)
  cases t with
  | ignored c loading => exact h.ignored
  | accepted c free => exact h.accepted c free _
  | refused p found waits messages =>
      exact h.released (mem_of_pending? found)
        (SlotTable.releases_settleIdle _ _ (settled p found)) (added p _)
  | passed p found waits transformed => exact h.passed (mem_of_pending? found) _
  | failed p found waits reason =>
      exact h.released (mem_of_pending? found)
        (SlotTable.releases_settleIdle _ _ (settled p found)) (added p _)
  | completed p found waits =>
      exact h.released (mem_of_pending? found)
        (SlotTable.releases_settleSuccess _ _ _ (settled p found)) (added p _)
  | dropped p found =>
      exact h.released (mem_of_pending? found)
        (SlotTable.releases_settleIdle _ _ (settled p found)) fun _ member => .inl member
  | expired id generation => exact h.expired id generation
  | unawaited _ stray => exact h

theorem step (h : m.Consistent) (s : MachineStep) : (m.step s).Consistent :=
  h.transition (m.transition_step s)

theorem run (h : m.Consistent) (steps : List MachineStep) : (m.run steps).Consistent := by
  induction steps generalizing m with
  | nil => exact h
  | cons s rest ih => exact ih (h.step s)

end Consistent

end GatedForms.Machine

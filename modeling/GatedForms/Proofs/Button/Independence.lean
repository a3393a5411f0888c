import GatedForms.Proofs.Button.Events
import GatedForms.Proofs.Button.Tickets

/-! # Buttons are independent

What happens to one button in a run is what happens to it in the run of its own steps alone. The
steps of a button are the clicks on it, what answers or drops these clicks, and its reverts. Clicks
are numbered through all buttons, so in the run alone each click has another ticket: its place among
the clicks on the button.
-/

namespace GatedForms

/-! ## Tickets of one button -/

/-- The button of the click that has a ticket. -/
def buttonOf (clicks : List Click) (ticket : Nat) : Option ButtonId := clicks[ticket]?.map Click.id

/-- The place of a ticket among the clicks on one button. -/
def placeOn (clicks : List Click) (id : ButtonId) (ticket : Nat) : Nat :=
  (clicks.take ticket).countP fun c => c.id = id

section Tickets

variable {clicks : List Click} {id : ButtonId} {ticket other : Nat}

theorem lt_of_buttonOf (on : buttonOf clicks ticket = some id) : ticket < clicks.length := by
  obtain ⟨c, found, -⟩ := Option.map_eq_some_iff.mp on
  exact (List.getElem?_eq_some_iff.mp found).1

theorem buttonOf_append (inside : ticket < clicks.length) (more : List Click) :
    buttonOf (clicks ++ more) ticket = buttonOf clicks ticket := by
  rw [buttonOf, List.getElem?_append_left inside, buttonOf]

theorem buttonOf_length (c : Click) : buttonOf (clicks ++ [c]) clicks.length = some c.id := by
  simp [buttonOf]

theorem placeOn_append (inside : ticket ≤ clicks.length) (more : List Click) :
    placeOn (clicks ++ more) id ticket = placeOn clicks id ticket := by
  rw [placeOn, List.take_append_of_le_length inside, placeOn]

theorem placeOn_length : placeOn clicks id clicks.length = clicks.countP fun c => c.id = id := by
  rw [placeOn, List.take_length]

theorem placeOn_lt (on : buttonOf clicks ticket = some id) (lt : ticket < other) :
    placeOn clicks id ticket < placeOn clicks id other := by
  obtain ⟨c, found, rfl⟩ := Option.map_eq_some_iff.mp on
  have next : placeOn clicks c.id (ticket + 1) = placeOn clicks c.id ticket + 1 := by
    simp [placeOn, List.take_add_one, found, List.countP_append]
  have upTo : placeOn clicks c.id (ticket + 1) ≤ placeOn clicks c.id other :=
    (List.take_sublist_take_left lt).countP_le
  omega

theorem placeOn_inj (on : buttonOf clicks ticket = some id)
    (onOther : buttonOf clicks other = some id) :
    placeOn clicks id ticket = placeOn clicks id other ↔ ticket = other := by
  constructor
  · intro same
    rcases Nat.lt_trichotomy ticket other with lt | equal | gt
    · exact absurd same (Nat.ne_of_lt (placeOn_lt on lt))
    · exact equal
    · exact absurd same (Nat.ne_of_gt (placeOn_lt onOther gt))
  · rintro rfl
    rfl

end Tickets

def entriesOf {α : Type} (clicks : List Click) (id : ButtonId) (entries : List (Nat × α)) :
    List (Nat × α) :=
  (entries.filter fun entry => buttonOf clicks entry.1 = some id).map fun entry =>
    (placeOn clicks id entry.1, entry.2)

section Entries

variable {α : Type} {clicks : List Click} {id : ButtonId} {entries : List (Nat × α)}

theorem entriesOf_append_clicks (inside : ∀ entry ∈ entries, entry.1 < clicks.length)
    (more : List Click) : entriesOf (clicks ++ more) id entries = entriesOf clicks id entries := by
  have kept : entries.filter (fun entry => buttonOf (clicks ++ more) entry.1 = some id) =
      entries.filter fun entry => buttonOf clicks entry.1 = some id :=
    List.filter_congr fun entry member => by rw [buttonOf_append (inside entry member)]
  rw [entriesOf, kept, entriesOf]
  refine List.map_congr_left fun entry member => ?_
  rw [placeOn_append (Nat.le_of_lt (inside entry (List.mem_filter.mp member).1))]

theorem entriesOf_concat_own {ticket : Nat} (on : buttonOf clicks ticket = some id) (a : α) :
    entriesOf clicks id (entries ++ [(ticket, a)]) =
      entriesOf clicks id entries ++ [(placeOn clicks id ticket, a)] := by
  simp [entriesOf, on]

theorem entriesOf_concat_other {ticket : Nat} (other : buttonOf clicks ticket ≠ some id)
    (a : α) :
    entriesOf clicks id (entries ++ [(ticket, a)]) = entriesOf clicks id entries := by
  simp [entriesOf, other]

end Entries

deriving instance ReflBEq, LawfulBEq for ButtonState
deriving instance ReflBEq, LawfulBEq for ButtonEvent

theorem count_event (events : List ButtonEvent) (event : ButtonEvent) : events.count event =
    ((events.filter fun other => other.id = event.id).map ButtonEvent.state).count
      event.state := by
  rw [List.count_eq_countP, List.count_eq_countP, List.countP_map, List.countP_filter]
  refine List.countP_congr fun other _ => ?_
  cases other
  cases event
  simp [and_comm]

/-! ## Steps of one button -/

namespace MachineStep

/-- The button that a step is about, after the clicks so far. An answer to a click that was not made
    yet is about none. -/
def button? (clicks : List Click) : MachineStep → Option ButtonId
  | .click c => some c.id
  | .validated ticket _ | .acted ticket _ | .drop ticket => buttonOf clicks ticket
  | .expire id _ => some id

/-- The step with the ticket that its click has among the clicks on its button. -/
def placed (clicks : List Click) (id : ButtonId) : MachineStep → MachineStep
  | .click c => .click c
  | .validated ticket result => .validated (placeOn clicks id ticket) result
  | .acted ticket failure => .acted (placeOn clicks id ticket) failure
  | .drop ticket => .drop (placeOn clicks id ticket)
  | .expire id generation => .expire id generation

/-- The steps that are about one button, after the clicks so far. -/
def aloneAfter (id : ButtonId) (clicks : List Click) : List MachineStep → List MachineStep
  | [] => []
  | s :: rest =>
      if s.button? clicks = some id then
        s.placed clicks id :: aloneAfter id (clicks ++ s.click?.toList) rest
      else aloneAfter id (clicks ++ s.click?.toList) rest

/-- A run without the steps of the other buttons. -/
def alone (id : ButtonId) (steps : List MachineStep) : List MachineStep := aloneAfter id [] steps

theorem aloneAfter_append (id : ButtonId) (clicks : List Click) (before after : List MachineStep) :
    aloneAfter id clicks (before ++ after) =
      aloneAfter id clicks before ++ aloneAfter id (clicks ++ MachineStep.clicks before) after := by
  induction before generalizing clicks with
  | nil => simp [aloneAfter, MachineStep.clicks]
  | cons s rest ih =>
      simp only [List.cons_append, aloneAfter, ih, clicks_cons, ← List.append_assoc]
      split <;> rfl

theorem alone_append (id : ButtonId) (before after : List MachineStep) :
    alone id (before ++ after) = alone id before ++ aloneAfter id (clicks before) after :=
  aloneAfter_append id [] before after

variable {clicks : List Click} {s t : MachineStep} {a b : ButtonId}

theorem button?_append (of : s.button? clicks = some a) (more : List Click) :
    s.button? (clicks ++ more) = some a := by
  cases s with
  | click | expire => exact of
  | validated ticket | acted ticket | drop ticket =>
      exact (buttonOf_append (lt_of_buttonOf of) more).trans of

theorem placed_append (of : s.button? clicks = some a) (more : List Click) (id : ButtonId) :
    s.placed (clicks ++ more) id = s.placed clicks id := by
  cases s with
  | click | expire => rfl
  | validated ticket | acted ticket | drop ticket =>
      have inside := Nat.le_of_lt (lt_of_buttonOf of)
      simp only [placed, placeOn_append inside]

/-- A step that is about another button than the step before it is not about what that step has
    begun. -/
theorem button?_of_append (ofFirst : s.button? clicks = some a)
    (of : t.button? (clicks ++ s.click?.toList) = some b) (differ : a ≠ b) :
    t.button? clicks = some b := by
  have earlier : ∀ ticket, buttonOf (clicks ++ s.click?.toList) ticket = some b →
      buttonOf clicks ticket = some b := by
    intro ticket on
    cases s with
    | validated | acted | drop | expire => simpa [click?] using on
    | click c =>
        rcases Nat.lt_or_ge ticket clicks.length with inside | behind
        · exact (buttonOf_append inside _).symm.trans on
        · have inBounds := lt_of_buttonOf on
          simp only [click?, Option.toList_some, List.length_append, List.length_singleton]
            at inBounds
          obtain rfl : ticket = clicks.length := by omega
          exact absurd (Option.some.inj (ofFirst.symm.trans ((buttonOf_length c).symm.trans on)))
            differ
  cases t with
  | click | expire => exact of
  | validated ticket | acted ticket | drop ticket => exact earlier ticket of

/-- To a third button, or to one of the two alone, the order of two steps is the same. -/
theorem aloneAfter_swap (ofFirst : s.button? clicks = some a)
    (ofSecond : t.button? (clicks ++ s.click?.toList) = some b) (differ : a ≠ b) (id : ButtonId) :
    aloneAfter id clicks [s, t] = aloneAfter id clicks [t, s] := by
  -- Neither step changes which button the other is about, nor the place of the other's click.
  have ofSecondFirst := button?_of_append ofFirst ofSecond differ
  have ofFirstSecond := button?_append ofFirst t.click?.toList
  simp only [aloneAfter, ofFirst, ofSecond, ofSecondFirst, ofFirstSecond,
    placed_append ofFirst, placed_append ofSecondFirst, Option.some.injEq]
  by_cases first : a = id
  · have second : ¬ b = id := fun same => differ (first.trans same.symm)
    simp only [if_pos first, if_neg second]
  · simp only [if_neg first]

end MachineStep

/-! ## Machines with one button -/

namespace SlotTable

/-- The table of one button. -/
def only (t : SlotTable) (id : ButtonId) : SlotTable :=
  ⟨t.slots.filter fun entry => entry.1 = id, t.events.filter fun event => event.id = id⟩

variable {t : SlotTable} {id other : ButtonId}

theorem slot_only : (t.only id).slot id = t.slot id := by
  rw [slot, only, KeyMap.find?_filter (fun key => key = id), if_pos (decide_eq_true rfl), slot]

theorem only_update_self (ordered : KeyMap.Ascending t.slots) (slot : Slot)
    (published : List ButtonState) :
    (t.update id slot published).only id = (t.only id).update id slot published := by
  simp only [only, update, KeyMap.filter_insert (fun key => key = id) id slot ordered,
    decide_true, if_true, List.filter_append, filter_published_self]

theorem only_update_ne (ordered : KeyMap.Ascending t.slots) (differ : other ≠ id) (slot : Slot)
    (published : List ButtonState) : (t.update other slot published).only id = t.only id := by
  simp only [only, update, KeyMap.filter_insert (fun key => key = id) other slot ordered,
    differ, decide_false, Bool.false_eq_true, if_false, List.filter_append,
    filter_published_ne differ, List.append_nil]

theorem history_only : (t.only id).history id = t.history id := by
  simp only [history, only, List.filter_filter, Bool.and_self]

theorem only_settleIdle_self (ordered : KeyMap.Ascending t.slots) (generation : Nat) :
    (t.settleIdle id generation).only id = (t.only id).settleIdle id generation := by
  simp only [settleIdle, slot_only]
  split
  · exact only_update_self ordered _ _
  · rfl

theorem only_settleIdle_ne (ordered : KeyMap.Ascending t.slots) (differ : other ≠ id)
    (generation : Nat) : (t.settleIdle other generation).only id = t.only id := by
  simp only [settleIdle]
  split
  · exact only_update_ne ordered differ _ _
  · rfl

theorem only_settleSuccess_self (ordered : KeyMap.Ascending t.slots) (hasClock : Bool)
    (generation : Nat) : (t.settleSuccess hasClock id generation).only id =
      (t.only id).settleSuccess hasClock id generation := by
  simp only [settleSuccess, slot_only]
  split
  · split
    · exact only_update_self ordered _ _
    · exact only_update_self ordered _ _
  · rfl

theorem only_settleSuccess_ne (ordered : KeyMap.Ascending t.slots) (differ : other ≠ id)
    (hasClock : Bool) (generation : Nat) :
    (t.settleSuccess hasClock other generation).only id = t.only id := by
  simp only [settleSuccess]
  split
  · split
    · exact only_update_ne ordered differ _ _
    · exact only_update_ne ordered differ _ _
  · rfl

theorem only_expire_self (ordered : KeyMap.Ascending t.slots) (generation : Nat) :
    (t.expire id generation).only id = (t.only id).expire id generation := by
  simp only [expire, slot_only]
  split
  · exact only_update_self ordered _ _
  · rfl

theorem only_expire_ne (ordered : KeyMap.Ascending t.slots) (differ : other ≠ id)
    (generation : Nat) : (t.expire other generation).only id = t.only id := by
  simp only [expire]
  split
  · exact only_update_ne ordered differ _ _
  · rfl

end SlotTable

namespace PendingClick

/-- The click with its place among the clicks on its button for a ticket. -/
def placed (clicks : List Click) (id : ButtonId) (p : PendingClick) : PendingClick :=
  { p with ticket := placeOn clicks id p.ticket }

theorem filter_actOn (ticket : Nat) (id : ButtonId) (pending : List PendingClick) :
    ((pending.map (actOn ticket)).filter fun p => p.click.id = id) =
      (pending.filter fun p => p.click.id = id).map (actOn ticket) := by
  simp only [List.filter_map, Function.comp_def, actOn_click]

end PendingClick

namespace Machine

def pendingOn (m : Machine) (clicks : List Click) (id : ButtonId) : List PendingClick :=
  (m.pending.filter fun p => p.click.id = id).map (PendingClick.placed clicks id)

/-- The machine with all that concerns one button. -/
def only (m : Machine) (clicks : List Click) (id : ButtonId) : Machine where
  config := m.config
  table := m.table.only id
  pending := m.pendingOn clicks id
  nextTicket := clicks.countP fun c => c.id = id
  calls := entriesOf clicks id m.calls
  outcomes := entriesOf clicks id m.outcomes

variable {m : Machine} {clicks : List Click} {id : ButtonId}

theorem state_only : (m.only clicks id).state id = m.state id :=
  congrArg Slot.state SlotTable.slot_only

theorem eventsOf_only : (m.only clicks id).eventsOf id = m.eventsOf id := by
  cases listens : m.config.hasListener with
  | true =>
      rw [eventsOf_eq_history (m := m.only clicks id) listens, eventsOf_eq_history listens]
      exact SlotTable.history_only
  | false => simp [eventsOf, published, only, listens]

theorem Transition.step_eq {s : MachineStep} {after : Machine} (t : m.Transition s after) :
    m.step s = after := by
  cases t with
  | ignored c loading =>
      simp only [step, click, SlotTable.accept?_of_loading _ _ loading]
  | accepted c free => exact step_click_of_free free
  | refused p found waits messages =>
      simp only [step, found, if_pos waits, validated]
  | passed p found waits transformed =>
      simp only [step, found, if_pos waits]
      rfl
  | failed p found waits reason =>
      simp only [step, found, if_pos waits, acted]
  | completed p found waits =>
      simp only [step, found, if_pos waits, acted]
  | dropped p found =>
      simp only [step, found, drop]
  | expired other generation => rfl
  | unawaited _ stray =>
      cases s with
      | click => exact stray.elim
      | expire => exact stray.elim
      | validated ticket result =>
          cases found : m.pending? ticket with
          | none => simp only [step, found]
          | some p => simp only [step, found, if_neg (stray p found)]
      | acted ticket failure =>
          cases found : m.pending? ticket with
          | none => simp only [step, found]
          | some p => simp only [step, found, if_neg (stray p found)]
      | drop ticket => simp only [step, show m.pending? ticket = none from stray]

/-! ### Clicks in flight -/

theorem Numbered.buttonOf_ticket (n : m.Numbered clicks) {p : PendingClick}
    (inFlight : p ∈ m.pending) : buttonOf clicks p.ticket = some p.click.id := by
  rw [buttonOf, n.inFlight p inFlight, Option.map_some]

namespace Numbered

variable {ticket : Nat}

theorem placed_iff (n : m.Numbered clicks) (on : buttonOf clicks ticket = some id)
    {p : PendingClick} (inFlight : p ∈ m.pending) :
    p.click.id = id ∧ (p.placed clicks id).ticket = placeOn clicks id ticket ↔
      p.ticket = ticket := by
  have onButton := n.buttonOf_ticket inFlight
  constructor
  · rintro ⟨rfl, same⟩
    exact (placeOn_inj onButton on).mp same
  · rintro rfl
    exact ⟨Option.some.inj (onButton.symm.trans on), rfl⟩

theorem pending?_only (n : m.Numbered clicks) (on : buttonOf clicks ticket = some id) :
    (m.only clicks id).pending? (placeOn clicks id ticket) =
      (m.pending? ticket).map (PendingClick.placed clicks id) := by
  have same : (m.pending.filter fun p => p.click.id = id).filter
      (fun p => (p.placed clicks id).ticket = placeOn clicks id ticket) =
        m.pending.filter fun p => p.ticket = ticket := by
    rw [List.filter_filter]
    refine List.filter_congr fun p inFlight => ?_
    have placed := n.placed_iff on inFlight
    grind
  simp only [pending?, only, pendingOn, ← List.head?_filter, List.filter_map, List.head?_map]
  exact congrArg (fun found => (List.head? found).map _) same

theorem without_only (n : m.Numbered clicks) (on : buttonOf clicks ticket = some id) :
    (m.only clicks id).without (placeOn clicks id ticket) =
      ((m.without ticket).filter fun p => p.click.id = id).map
        (PendingClick.placed clicks id) := by
  have same : (m.pending.filter fun p => p.click.id = id).filter
      (fun p => (p.placed clicks id).ticket ≠ placeOn clicks id ticket) =
        (m.pending.filter fun p => p.ticket ≠ ticket).filter fun p => p.click.id = id := by
    rw [List.filter_filter, List.filter_filter]
    refine List.filter_congr fun p inFlight => ?_
    have placed := n.placed_iff on inFlight
    grind
  simp only [without, only, pendingOn, List.filter_map]
  exact congrArg (List.map _) same

theorem actOn_only (n : m.Numbered clicks) (on : buttonOf clicks ticket = some id) :
    (m.pendingOn clicks id).map (PendingClick.actOn (placeOn clicks id ticket)) =
      ((m.pending.map (PendingClick.actOn ticket)).filter fun p => p.click.id = id).map
        (PendingClick.placed clicks id) := by
  rw [PendingClick.filter_actOn, pendingOn, List.map_map, List.map_map]
  refine List.map_congr_left fun p member => ?_
  obtain ⟨inFlight, onButton⟩ := List.mem_filter.mp member
  have placed := n.placed_iff on inFlight
  simp only [decide_eq_true_eq] at onButton
  simp only [onButton, true_and] at placed
  simp only [Function.comp_apply, PendingClick.actOn, placed]
  split <;> rfl

theorem pendingOn_append (n : m.Numbered clicks) (more : List Click) :
    (m.pending.filter fun p => p.click.id = id).map (PendingClick.placed (clicks ++ more) id) =
      m.pendingOn clicks id := by
  refine List.map_congr_left fun p member => ?_
  have inside := lt_of_buttonOf (n.buttonOf_ticket (List.mem_filter.mp member).1)
  simp only [PendingClick.placed, placeOn_append (Nat.le_of_lt inside)]

end Numbered

/-! ### Steps -/

namespace Traced

theorem only_finish_own (h : m.Traced clicks) {ticket : Nat}
    (on : buttonOf clicks ticket = some id) (table : SlotTable) (outcome : ClickOutcome) :
    (m.finish ticket table outcome).only clicks id =
      (m.only clicks id).finish (placeOn clicks id ticket) (table.only id) outcome := by
  simp only [finish, h.numbered.without_only on]
  simp only [only, pendingOn, entriesOf_concat_own on]

theorem transition_click (h : m.Traced clicks) {c : Click} {after : Machine}
    (t : m.Transition (.click c) after) :
    (m.only clicks c.id).Transition (.click c) (after.only (clicks ++ [c]) c.id) := by
  have ordered := h.consistent.ordered
  -- The ticket is the number of all clicks so far, its place the number of those on the button.
  cases t with
  | ignored _ loading =>
      have after : Machine.only
          { m with
            nextTicket := m.nextTicket + 1
            outcomes := m.outcomes ++ [(m.nextTicket, .ignored)] } (clicks ++ [c]) c.id =
          { m.only clicks c.id with
            nextTicket := (m.only clicks c.id).nextTicket + 1
            outcomes := (m.only clicks c.id).outcomes ++
              [((m.only clicks c.id).nextTicket, .ignored)] } := by
        simp only [only, pendingOn, h.numbered.pendingOn_append, h.numbered.next,
          entriesOf_append_clicks h.called, entriesOf_append_clicks h.ended,
          entriesOf_concat_own (buttonOf_length c), placeOn_append (Nat.le_refl _), placeOn_length,
          List.countP_append]
        simp
      exact after ▸ .ignored c (state_only.trans loading)
  | accepted _ free =>
      have after : Machine.only
          { m with
            table := m.table.update c.id
              ⟨.loading, (m.table.slot c.id).generation + 1, none⟩ [.loading]
            pending := m.pending ++
              [⟨m.nextTicket, c, (m.table.slot c.id).generation + 1, firstPhase c⟩]
            nextTicket := m.nextTicket + 1
            calls := m.calls ++ [(m.nextTicket, c.firstCall)] } (clicks ++ [c]) c.id =
          { m.only clicks c.id with
            table := (m.only clicks c.id).table.update c.id
              ⟨.loading, ((m.only clicks c.id).table.slot c.id).generation + 1, none⟩ [.loading]
            pending := (m.only clicks c.id).pending ++
              [⟨(m.only clicks c.id).nextTicket, c,
                ((m.only clicks c.id).table.slot c.id).generation + 1, firstPhase c⟩]
            nextTicket := (m.only clicks c.id).nextTicket + 1
            calls := (m.only clicks c.id).calls ++
              [((m.only clicks c.id).nextTicket, c.firstCall)] } := by
        simp only [only, pendingOn, List.filter_append, List.map_append,
          h.numbered.pendingOn_append, h.numbered.next, SlotTable.only_update_self ordered,
          SlotTable.slot_only, entriesOf_append_clicks h.called, entriesOf_append_clicks h.ended,
          entriesOf_concat_own (buttonOf_length c), placeOn_append (Nat.le_refl _), placeOn_length,
          List.countP_append]
        simp [PendingClick.placed, placeOn_append (Nat.le_refl _), placeOn_length]
      exact after ▸ .accepted c fun loading => free (state_only.symm.trans loading)
  | unawaited _ stray => exact stray.elim

theorem transition_answer (h : m.Traced clicks) {s : MachineStep} {after : Machine}
    (t : m.Transition s after) (answers : s.click? = none) (own : s.button? clicks = some id) :
    (m.only clicks id).Transition (s.placed clicks id) (after.only clicks id) := by
  have ordered := h.consistent.ordered
  have onButton : ∀ p, m.pending? p.ticket = some p → buttonOf clicks p.ticket = some id →
      p.click.id = id := fun p found on =>
    Option.some.inj ((h.numbered.buttonOf_ticket (mem_of_pending? found)).symm.trans on)
  have foundOnly : ∀ p, m.pending? p.ticket = some p → buttonOf clicks p.ticket = some id →
      (m.only clicks id).pending? (placeOn clicks id p.ticket) = some (p.placed clicks id) :=
    fun p found on => (h.numbered.pending?_only on).trans (congrArg _ found)
  cases t with
  | ignored | accepted => cases answers
  | refused p found waits messages =>
      obtain rfl := onButton p found own
      have after := h.only_finish_own own (m.table.settleIdle p.click.id p.generation)
        (.invalid messages)
      rw [SlotTable.only_settleIdle_self ordered] at after
      exact after ▸ .refused (p.placed clicks p.click.id) (foundOnly p found own) waits messages
  | passed p found waits transformed =>
      obtain rfl := onButton p found own
      have after : Machine.only
          { m with
            pending := m.pending.map (PendingClick.actOn p.ticket)
            calls := m.calls ++ [(p.ticket, p.click.hookCall (transformed.getD p.click.values))] }
            clicks p.click.id =
          { m.only clicks p.click.id with
            pending := (m.only clicks p.click.id).pending.map
              (PendingClick.actOn (placeOn clicks p.click.id p.ticket))
            calls := (m.only clicks p.click.id).calls ++
              [(placeOn clicks p.click.id p.ticket,
                p.click.hookCall (transformed.getD p.click.values))] } := by
        simp only [only, h.numbered.actOn_only own, entriesOf_concat_own own]
        rfl
      exact after ▸ .passed (p.placed clicks p.click.id) (foundOnly p found own) waits transformed
  | failed p found waits reason =>
      obtain rfl := onButton p found own
      have after := h.only_finish_own own (m.table.settleIdle p.click.id p.generation)
        (.failed reason)
      rw [SlotTable.only_settleIdle_self ordered] at after
      exact after ▸ .failed (p.placed clicks p.click.id) (foundOnly p found own) waits reason
  | completed p found waits =>
      obtain rfl := onButton p found own
      have after := h.only_finish_own own
        (m.table.settleSuccess m.config.hasClock p.click.id p.generation) .completed
      rw [SlotTable.only_settleSuccess_self ordered] at after
      exact after ▸ .completed (p.placed clicks p.click.id) (foundOnly p found own) waits
  | dropped p found =>
      obtain rfl := onButton p found own
      have after : Machine.only
          { m with
            table := m.table.settleIdle p.click.id p.generation
            pending := m.without p.ticket } clicks p.click.id =
          { m.only clicks p.click.id with
            table := (m.only clicks p.click.id).table.settleIdle p.click.id p.generation
            pending := (m.only clicks p.click.id).without
              (placeOn clicks p.click.id p.ticket) } := by
        rw [h.numbered.without_only own]
        simp only [only, pendingOn, SlotTable.only_settleIdle_self ordered]
      exact after ▸ .dropped (p.placed clicks p.click.id) (foundOnly p found own)
  | expired other generation =>
      obtain rfl : other = id := Option.some.inj own
      have after : Machine.only { m with table := m.table.expire other generation } clicks other =
          { m.only clicks other with
            table := (m.only clicks other).table.expire other generation } := by
        simp only [only, pendingOn, SlotTable.only_expire_self ordered]
      exact after ▸ .expired other generation
  | unawaited _ stray =>
      refine .unawaited _ ?_
      cases s with
      | click | expire => exact stray.elim
      | validated ticket result =>
          intro p found
          rw [h.numbered.pending?_only own] at found
          obtain ⟨q, foundHere, rfl⟩ := Option.map_eq_some_iff.mp found
          exact stray q foundHere
      | acted ticket failure =>
          intro p found
          rw [h.numbered.pending?_only own] at found
          obtain ⟨q, foundHere, rfl⟩ := Option.map_eq_some_iff.mp found
          exact stray q foundHere
      | drop ticket => exact (h.numbered.pending?_only own).trans (congrArg _ stray)

/-- A step of a button does to the machine of this button what it does to the whole machine. -/
theorem transition_own (h : m.Traced clicks) {s : MachineStep} {after : Machine}
    (t : m.Transition s after) (own : s.button? clicks = some id) :
    (m.only clicks id).Transition (s.placed clicks id)
      (after.only (clicks ++ s.click?.toList) id) := by
  cases s with
  | click c =>
      obtain rfl : c.id = id := Option.some.inj own
      exact h.transition_click t
  | validated | acted | drop | expire =>
      rw [MachineStep.click?, Option.toList_none, List.append_nil]
      exact h.transition_answer t rfl own

theorem pendingOn_without (h : m.Traced clicks) {p : PendingClick} (inFlight : p ∈ m.pending)
    (differ : p.click.id ≠ id) : ((m.without p.ticket).filter fun q => q.click.id = id) =
      m.pending.filter fun q => q.click.id = id := by
  rw [without, List.filter_filter]
  refine List.filter_congr fun q member => ?_
  by_cases same : q.ticket = p.ticket
  · cases h.consistent.eq_of_ticket member inFlight same
    simp [differ]
  · simp [same]

theorem pendingOn_actOn (h : m.Traced clicks) {p : PendingClick} (inFlight : p ∈ m.pending)
    (differ : p.click.id ≠ id) :
    ((m.pending.map (PendingClick.actOn p.ticket)).filter fun q => q.click.id = id) =
      m.pending.filter fun q => q.click.id = id := by
  rw [PendingClick.filter_actOn]
  refine (List.map_congr_left fun q member => ?_).trans (List.map_id _)
  obtain ⟨inPending, onButton⟩ := List.mem_filter.mp member
  refine if_neg fun same => ?_
  cases h.consistent.eq_of_ticket inPending inFlight same
  exact differ (of_decide_eq_true onButton)

theorem only_finish_other (h : m.Traced clicks) {p : PendingClick} (inFlight : p ∈ m.pending)
    (differ : p.click.id ≠ id) {table : SlotTable} (same : table.only id = m.table.only id)
    (outcome : ClickOutcome) :
    (m.finish p.ticket table outcome).only clicks id = m.only clicks id := by
  have other : buttonOf clicks p.ticket ≠ some id := by
    rw [h.numbered.buttonOf_ticket inFlight]
    exact fun on => differ (Option.some.inj on)
  simp only [finish, only, pendingOn, h.pendingOn_without inFlight differ, same,
    entriesOf_concat_other other]

theorem only_click_other (h : m.Traced clicks) {c : Click} {after : Machine}
    (t : m.Transition (.click c) after) (differ : c.id ≠ id) :
    after.only (clicks ++ [c]) id = m.only clicks id := by
  have off : buttonOf (clicks ++ [c]) clicks.length ≠ some id := by
    rw [buttonOf_length]
    exact fun same => differ (Option.some.inj same)
  cases t with
  | ignored _ loading =>
      simp only [only, pendingOn, h.numbered.pendingOn_append, h.numbered.next,
        entriesOf_append_clicks h.called, entriesOf_append_clicks h.ended,
        entriesOf_concat_other off, List.countP_append]
      simp [differ]
  | accepted _ free =>
      simp only [only, pendingOn, List.filter_append, List.map_append,
        SlotTable.only_update_ne h.consistent.ordered differ, h.numbered.pendingOn_append,
        h.numbered.next, entriesOf_append_clicks h.called, entriesOf_append_clicks h.ended,
        entriesOf_concat_other off, List.countP_append]
      simp [differ]
  | unawaited _ stray => exact stray.elim

theorem only_answer_other (h : m.Traced clicks) {s : MachineStep} {after : Machine}
    (t : m.Transition s after) (answers : s.click? = none)
    (other : s.button? clicks ≠ some id) : after.only clicks id = m.only clicks id := by
  have ordered := h.consistent.ordered
  have elsewhere : ∀ p, m.pending? p.ticket = some p → buttonOf clicks p.ticket ≠ some id →
      p.click.id ≠ id := fun p found off on =>
    off (on ▸ h.numbered.buttonOf_ticket (mem_of_pending? found))
  cases t with
  | ignored | accepted => cases answers
  | refused p found waits messages =>
      have differ := elsewhere p found other
      exact h.only_finish_other (mem_of_pending? found) differ
        (SlotTable.only_settleIdle_ne ordered differ _) _
  | passed p found waits transformed =>
      have differ := elsewhere p found other
      simp only [only, pendingOn, h.pendingOn_actOn (mem_of_pending? found) differ,
        entriesOf_concat_other other]
  | failed p found waits reason =>
      have differ := elsewhere p found other
      exact h.only_finish_other (mem_of_pending? found) differ
        (SlotTable.only_settleIdle_ne ordered differ _) _
  | completed p found waits =>
      have differ := elsewhere p found other
      exact h.only_finish_other (mem_of_pending? found) differ
        (SlotTable.only_settleSuccess_ne ordered differ _ _) _
  | dropped p found =>
      have differ := elsewhere p found other
      simp only [only, pendingOn, h.pendingOn_without (mem_of_pending? found) differ,
        SlotTable.only_settleIdle_ne ordered differ]
  | expired button generation =>
      have differ : button ≠ id := fun same => other (congrArg some same)
      simp only [only, pendingOn, SlotTable.only_expire_ne ordered differ]
  | unawaited => rfl

theorem transition_other (h : m.Traced clicks) {s : MachineStep} {after : Machine}
    (t : m.Transition s after) (other : s.button? clicks ≠ some id) :
    after.only (clicks ++ s.click?.toList) id = m.only clicks id := by
  cases s with
  | click c => exact h.only_click_other t fun same => other (congrArg some same)
  | validated | acted | drop | expire =>
      rw [MachineStep.click?, Option.toList_none, List.append_nil]
      exact h.only_answer_other t rfl other

/-- A run does to the machine of one button what the steps of this button do to it alone. -/
theorem only_run (h : m.Traced clicks) (id : ButtonId) (steps : List MachineStep) :
    (m.run steps).only (clicks ++ MachineStep.clicks steps) id =
      (m.only clicks id).run (MachineStep.aloneAfter id clicks steps) := by
  induction steps generalizing m clicks with
  | nil => simp [Machine.run, MachineStep.clicks, MachineStep.aloneAfter]
  | cons s rest ih =>
      have t := m.transition_step s
      -- The clicks so far count on with the clicks on other buttons, which are left out here.
      rw [MachineStep.clicks_cons, ← List.append_assoc, MachineStep.aloneAfter]
      refine (ih (h.step s)).trans ?_
      by_cases own : s.button? clicks = some id
      · rw [if_pos own, ← (h.transition_own t own).step_eq]
        rfl
      · rw [if_neg own, h.transition_other t own]

end Traced

theorem only_run_start (config : MachineConfig) (id : ButtonId) (steps : List MachineStep) :
    ((start config).run steps).only (MachineStep.clicks steps) id =
      (start config).run (MachineStep.alone id steps) :=
  (Traced.start config).only_run id steps

/-- What can be seen of one button. Its clicks are numbered among themselves. -/
structure View where
  state : ButtonState
  events : List ButtonState
  outcomes : List (Nat × ClickOutcome)
  calls : List (Nat × HandlerCall)

def view (m : Machine) (clicks : List Click) (id : ButtonId) : View :=
  ⟨m.state id, m.eventsOf id, entriesOf clicks id m.outcomes, entriesOf clicks id m.calls⟩

/-- A run shows of one button what the run of this button alone shows. -/
theorem view_run_start (config : MachineConfig) (id : ButtonId) (steps : List MachineStep) :
    ((start config).run steps).view (MachineStep.clicks steps) id =
      ⟨((start config).run (MachineStep.alone id steps)).state id,
        ((start config).run (MachineStep.alone id steps)).eventsOf id,
        ((start config).run (MachineStep.alone id steps)).outcomes,
        ((start config).run (MachineStep.alone id steps)).calls⟩ := by
  rw [← only_run_start, state_only, eventsOf_only]
  rfl

/-! ### Steps that change places -/

/-- Machines that tell the same of each button tell it in another order at most. -/
theorem perm_published {m n : Machine} (same : ∀ id, m.eventsOf id = n.eventsOf id) :
    m.published.Perm n.published := by
  refine List.perm_iff_count.mpr fun event => ?_
  rw [count_event, count_event]
  exact congrArg _ (same event.id)

/-- Two steps in a row about different buttons can change places. -/
theorem only_run_swap (config : MachineConfig) {before : List MachineStep} {s t : MachineStep}
    {a b : ButtonId} (ofFirst : s.button? (MachineStep.clicks before) = some a)
    (ofSecond : t.button? (MachineStep.clicks (before ++ [s])) = some b) (differ : a ≠ b)
    (id : ButtonId) :
    ((start config).run (before ++ [s, t])).only (MachineStep.clicks (before ++ [s, t])) id =
      ((start config).run (before ++ [t, s])).only
        (MachineStep.clicks (before ++ [t, s])) id := by
  have follows : t.button? (MachineStep.clicks before ++ s.click?.toList) = some b := by
    rwa [MachineStep.clicks_append, MachineStep.clicks_singleton] at ofSecond
  rw [only_run_start, only_run_start, MachineStep.alone_append, MachineStep.alone_append,
    MachineStep.aloneAfter_swap ofFirst follows differ]

theorem Traced.step_of_stray (h : m.Traced clicks) {s : MachineStep}
    (stray : s.button? clicks = none) : m.step s = m := by
  have absent : ∀ ticket, buttonOf clicks ticket = none → m.pending? ticket = none := by
    intro ticket unknown
    refine pending?_eq_none fun p inFlight same => ?_
    have onButton := h.numbered.buttonOf_ticket inFlight
    rw [same, unknown] at onButton
    cases onButton
  refine (Transition.unawaited s ?_).step_eq
  cases s with
  | click | expire => cases stray
  | validated ticket result =>
      intro p found
      cases (absent ticket stray).symm.trans found
  | acted ticket failure =>
      intro p found
      cases (absent ticket stray).symm.trans found
  | drop ticket => exact absent ticket stray

/-- Buttons are independent. Without the steps of the other buttons, at every point of a run, a
    button has the same state, and its events, the outcomes of its clicks and the handler calls
    that they made are the same; a step that is about no button changes nothing at all. Two steps in
    a row about different buttons can change places: all that concerns any one button stays the
    same, and the events are told in another order at most. -/
theorem buttons_are_independent (config : MachineConfig) :
    (∀ (id : ButtonId) (before after : List MachineStep),
      MachineStep.alone id before <+: MachineStep.alone id (before ++ after) ∧
      ((start config).run before).view (MachineStep.clicks before) id =
        ⟨((start config).run (MachineStep.alone id before)).state id,
          ((start config).run (MachineStep.alone id before)).eventsOf id,
          ((start config).run (MachineStep.alone id before)).outcomes,
          ((start config).run (MachineStep.alone id before)).calls⟩) ∧
    (∀ (before : List MachineStep) (s : MachineStep),
      s.button? (MachineStep.clicks before) = none →
      ((start config).run before).step s = (start config).run before) ∧
    (∀ (before : List MachineStep) (s t : MachineStep) (a b : ButtonId),
      s.button? (MachineStep.clicks before) = some a →
      t.button? (MachineStep.clicks (before ++ [s])) = some b → a ≠ b →
      (∀ id, ((start config).run (before ++ [s, t])).only
            (MachineStep.clicks (before ++ [s, t])) id =
          ((start config).run (before ++ [t, s])).only
            (MachineStep.clicks (before ++ [t, s])) id) ∧
        ((start config).run (before ++ [s, t])).published.Perm
          ((start config).run (before ++ [t, s])).published) := by
  refine ⟨fun id before after => ⟨?_, view_run_start config id before⟩, ?_, ?_⟩
  · rw [MachineStep.alone_append]
    exact List.prefix_append _ _
  · exact fun before s stray => (traced_run config before).step_of_stray stray
  · intro before s t a b ofFirst ofSecond differ
    have same := only_run_swap config ofFirst ofSecond differ
    refine ⟨same, perm_published fun id => ?_⟩
    have events := congrArg (fun m => m.eventsOf id) (same id)
    simpa only [eventsOf_only] using events

def twoClicked : List MachineStep :=
  [.click ⟨"a", .previous, .form, .empty⟩, .click ⟨"b", .previous, .form, .empty⟩]

/-- One of the two is answered, and the other is dropped. -/
theorem answer_and_drop_change_places :
    let answered := (start ⟨true, true⟩).run (twoClicked ++ [.acted 0 none, .drop 1])
    let dropped := (start ⟨true, true⟩).run (twoClicked ++ [.drop 1, .acted 0 none])
    answered.published.Perm dropped.published ∧ answered.eventsOf "a" = dropped.eventsOf "a" ∧
      answered.published ≠ dropped.published := by
  intro answered dropped
  obtain ⟨-, -, swaps⟩ := buttons_are_independent ⟨true, true⟩
  obtain ⟨same, perm⟩ := swaps twoClicked (.acted 0 none) (.drop 1) "a" "b" rfl rfl (by decide)
  have events := congrArg (fun m => m.eventsOf "a") (same "a")
  simp only [eventsOf_only] at events
  exact ⟨perm, events, by decide⟩

end Machine

end GatedForms

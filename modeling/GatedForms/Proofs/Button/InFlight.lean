import GatedForms.Proofs.Button.Consistent

/-! # Clicks in flight

The life of a ticket is followed through runs, from its click to its end. An unfinished click is one
that has neither returned nor been dropped, and those are the clicks in flight; so a button loads
exactly while a click on it is unfinished.
-/

namespace GatedForms.Machine

/-! ## The life of a ticket -/

theorem outcome?_append_of_ne {m : Machine} {ticket other : Nat} (outcome : ClickOutcome)
    (differ : other ≠ ticket) :
    ((m.outcomes ++ [(other, outcome)]).find? fun entry => entry.1 = ticket).map Prod.snd =
      m.outcome? ticket := by
  simp [outcome?, List.find?_append, differ]

theorem outcome?_append_self {m : Machine} {ticket : Nat} (outcome : ClickOutcome)
    (unanswered : ∀ entry ∈ m.outcomes, entry.1 ≠ ticket) :
    ((m.outcomes ++ [(ticket, outcome)]).find? fun entry => entry.1 = ticket).map Prod.snd =
      some outcome := by
  have absent : (m.outcomes.find? fun entry => entry.1 = ticket) = none :=
    List.find?_eq_none.mpr fun entry member => by simpa using unanswered entry member
  simp [List.find?_append, absent]

theorem outcome?_eq_none {m : Machine} {ticket : Nat}
    (unanswered : ∀ entry ∈ m.outcomes, entry.1 ≠ ticket) : m.outcome? ticket = none := by
  have absent : (m.outcomes.find? fun entry => entry.1 = ticket) = none :=
    List.find?_eq_none.mpr fun entry member => by simpa using unanswered entry member
  simp [outcome?, absent]

variable {m : Machine}

/-- A click in flight was in flight before the step, or is the one that the step begins. It comes
    to its handler only by a validation that passes. -/
theorem origin_step {s : MachineStep} {after : Machine} (t : m.Transition s after)
    {q : PendingClick} (inFlight : q ∈ after.pending) :
    (∃ r ∈ m.pending, r.ticket = q.ticket ∧ r.click = q.click ∧
      (q.phase = .acting → r.phase = .acting ∨
        ∃ transformed, s = .validated q.ticket (.ok transformed))) ∨
      s = .click q.click ∧ q.ticket = m.nextTicket ∧ q.phase = firstPhase q.click := by
  have same : q ∈ m.pending → ∃ r ∈ m.pending, r.ticket = q.ticket ∧ r.click = q.click ∧
      (q.phase = .acting → r.phase = .acting ∨
        ∃ transformed, s = .validated q.ticket (.ok transformed)) :=
    fun old => ⟨q, old, rfl, rfl, .inl⟩
  have old : ∀ ticket, q ∈ m.without ticket → q ∈ m.pending :=
    fun ticket member => (List.mem_filter.mp member).1
  cases t with
  | ignored c loading => exact .inl (same inFlight)
  | accepted c free =>
      rcases List.mem_append.mp inFlight with before | new
      · exact .inl (same before)
      · cases List.mem_singleton.mp new
        exact .inr ⟨rfl, rfl, rfl⟩
  | refused p found waits messages => exact .inl (same (old _ inFlight))
  | passed p found waits transformed =>
      obtain ⟨r, before, rfl⟩ := List.mem_map.mp inFlight
      refine .inl ⟨r, before, by simp, by simp, fun acting => ?_⟩
      by_cases answered : r.ticket = p.ticket
      · exact .inr ⟨transformed, by rw [PendingClick.actOn_ticket, answered]⟩
      · rw [PendingClick.actOn, if_neg answered] at acting
        exact .inl acting
  | failed p found waits reason => exact .inl (same (old _ inFlight))
  | completed p found waits => exact .inl (same (old _ inFlight))
  | dropped p found => exact .inl (same (old _ inFlight))
  | expired id generation => exact .inl (same inFlight)
  | unawaited _ stray => exact .inl (same inFlight)

theorem nextTicket_le {s : MachineStep} {after : Machine} (t : m.Transition s after) :
    m.nextTicket ≤ after.nextTicket := by
  cases t with
  | ignored | accepted => exact Nat.le_succ _
  | refused | passed | failed | completed | dropped | expired | unawaited => exact Nat.le_refl _

theorem origin_run {p : PendingClick} (steps : List MachineStep)
    (inFlight : p ∈ (m.run steps).pending) :
    (∃ q ∈ m.pending, q.ticket = p.ticket ∧ q.click = p.click) ∨
      ∃ before after, steps = before ++ .click p.click :: after ∧
        p.ticket = (m.run before).nextTicket := by
  induction steps generalizing m with
  | nil => exact .inl ⟨p, inFlight, rfl, rfl⟩
  | cons s rest ih =>
      rcases ih inFlight with ⟨q, member, ticket, click⟩ | ⟨before, after, split, ticket⟩
      · rcases origin_step (m.transition_step s) member with
          ⟨r, old, sameTicket, sameClick, -⟩ | ⟨begins, next, -⟩
        · exact .inl ⟨r, old, sameTicket.trans ticket, sameClick.trans click⟩
        · exact .inr ⟨[], rest, by rw [begins, click]; rfl, ticket.symm.trans next⟩
      · exact .inr ⟨s :: before, after, by rw [split]; rfl, ticket⟩

theorem gone_without {p : PendingClick} (q : PendingClick) (member : q ∈ m.without p.ticket) :
    q.ticket ≠ p.ticket := by
  simpa using (List.mem_filter.mp member).2

theorem mem_without {p : PendingClick} {ticket : Nat} (inFlight : p ∈ m.pending)
    (differ : p.ticket ≠ ticket) : p ∈ m.without ticket :=
  List.mem_filter.mpr ⟨inFlight, by simpa using differ⟩

theorem gone_step {ticket : Nat} (past : ticket < m.nextTicket)
    (gone : ∀ p ∈ m.pending, p.ticket ≠ ticket) {s : MachineStep} {after : Machine}
    (t : m.Transition s after) :
    (∀ p ∈ after.pending, p.ticket ≠ ticket) ∧ after.outcome? ticket = m.outcome? ticket ∧
      ∀ call ∈ after.calls, call.1 = ticket → call ∈ m.calls := by
  have next : m.nextTicket ≠ ticket := Nat.ne_of_gt past
  have differ : ∀ p, m.pending? p.ticket = some p → p.ticket ≠ ticket :=
    fun p found => gone p (mem_of_pending? found)
  have called : ∀ (other : Nat) (made : HandlerCall), other ≠ ticket →
      ∀ call ∈ m.calls ++ [(other, made)], call.1 = ticket → call ∈ m.calls := by
    intro other made otherTicket call member same
    rcases List.mem_append.mp member with old | new
    · exact old
    · cases List.mem_singleton.mp new
      exact absurd same otherTicket
  refine ⟨?_, ?_⟩
  · intro p inFlight
    rcases origin_step t inFlight with ⟨r, before, same, _⟩ | ⟨_, new, _⟩
    · exact same ▸ gone r before
    · exact new ▸ next
  · cases t with
    | ignored c loading => exact ⟨outcome?_append_of_ne _ next, fun call member _ => member⟩
    | accepted c free => exact ⟨rfl, called _ _ next⟩
    | refused p found waits messages =>
        exact ⟨outcome?_append_of_ne _ (differ p found), fun call member _ => member⟩
    | passed p found waits transformed => exact ⟨rfl, called _ _ (differ p found)⟩
    | failed p found waits reason =>
        exact ⟨outcome?_append_of_ne _ (differ p found), fun call member _ => member⟩
    | completed p found waits =>
        exact ⟨outcome?_append_of_ne _ (differ p found), fun call member _ => member⟩
    | dropped p found => exact ⟨rfl, fun call member _ => member⟩
    | expired id generation => exact ⟨rfl, fun call member _ => member⟩
    | unawaited _ stray => exact ⟨rfl, fun call member _ => member⟩

namespace Consistent

theorem gone_run (h : m.Consistent) {ticket : Nat} (past : ticket < m.nextTicket)
    (gone : ∀ p ∈ m.pending, p.ticket ≠ ticket) (steps : List MachineStep) :
    (∀ p ∈ (m.run steps).pending, p.ticket ≠ ticket) ∧
      (m.run steps).outcome? ticket = m.outcome? ticket ∧
      ∀ call ∈ (m.run steps).calls, call.1 = ticket → call ∈ m.calls := by
  induction steps generalizing m with
  | nil => exact ⟨gone, rfl, fun call member _ => member⟩
  | cons s rest ih =>
      have t := m.transition_step s
      obtain ⟨stillGone, outcome, calls⟩ := gone_step past gone t
      obtain ⟨overAtEnd, outcomeAtEnd, callsAtEnd⟩ :=
        ih (h.step s) (Nat.lt_of_lt_of_le past (nextTicket_le t)) stillGone
      exact ⟨overAtEnd, outcomeAtEnd.trans outcome,
        fun call member same => calls call (callsAtEnd call member same) same⟩

end Consistent

/-- What some steps make of a click in flight. -/
inductive Fate (p : PendingClick) (steps : List MachineStep) (after : Machine) : Prop where
  | inFlight (q : PendingClick) (member : q ∈ after.pending) (ticket : q.ticket = p.ticket)
      (click : q.click = p.click) (kept : .drop p.ticket ∉ steps)
  | settled (gone : ∀ q ∈ after.pending, q.ticket ≠ p.ticket)
      (accepted : after.outcome? p.ticket ≠ some .ignored)
      (ended : .drop p.ticket ∈ steps ∨ (after.outcome? p.ticket).isSome)

namespace Consistent

variable {p : PendingClick}

theorem fate_finish (h : m.Consistent) (inFlight : p ∈ m.pending) {q : PendingClick}
    (found : m.pending? q.ticket = some q) (table : SlotTable) (outcome : ClickOutcome)
    (accepted : outcome ≠ .ignored) {steps : List MachineStep} (kept : .drop p.ticket ∉ steps) :
    Fate p steps (m.finish q.ticket table outcome) := by
  by_cases same : p.ticket = q.ticket
  · have answered : (m.finish q.ticket table outcome).outcome? p.ticket = some outcome := by
      rw [same]
      exact outcome?_append_self outcome (h.unanswered q (mem_of_pending? found))
    refine .settled (fun r member => ?_) ?_ (.inr ?_)
    · exact same ▸ gone_without r member
    · rw [answered]
      exact fun ignored => accepted (Option.some.inj ignored)
    · rw [answered]
      rfl
  · exact .inFlight p (mem_without inFlight same) rfl rfl kept

theorem fate_step (h : m.Consistent) (inFlight : p ∈ m.pending) {s : MachineStep}
    {after : Machine} (t : m.Transition s after) : Fate p [s] after := by
  cases t with
  | ignored c loading => exact .inFlight p inFlight rfl rfl (by simp)
  | accepted c free => exact .inFlight p (List.mem_append_left _ inFlight) rfl rfl (by simp)
  | refused q found waits messages =>
      exact h.fate_finish inFlight found _ (.invalid messages) nofun (by simp)
  | passed q found waits transformed =>
      exact .inFlight (p.actOn q.ticket) (List.mem_map_of_mem inFlight) (by simp) (by simp)
        (by simp)
  | failed q found waits reason =>
      exact h.fate_finish inFlight found _ (.failed reason) nofun (by simp)
  | completed q found waits => exact h.fate_finish inFlight found _ .completed nofun (by simp)
  | dropped q found =>
      by_cases same : p.ticket = q.ticket
      · have unanswered : m.outcome? p.ticket = none := outcome?_eq_none (h.unanswered p inFlight)
        refine .settled (fun r member => same ▸ gone_without r member) (fun ignored => ?_)
          (.inl (by simp [same]))
        cases unanswered.symm.trans ignored
      · exact .inFlight p (mem_without inFlight same) rfl rfl (by simpa using same)
  | expired id generation => exact .inFlight p inFlight rfl rfl (by simp)
  | unawaited _ stray =>
      refine .inFlight p inFlight rfl rfl fun drops => ?_
      cases List.mem_singleton.mp drops
      exact nomatch (h.pending?_of_mem inFlight).symm.trans stray

theorem fate_run (h : m.Consistent) (inFlight : p ∈ m.pending) (steps : List MachineStep) :
    Fate p steps (m.run steps) := by
  induction steps generalizing m p with
  | nil => exact .inFlight p inFlight rfl rfl List.not_mem_nil
  | cons s rest ih =>
      have t := m.transition_step s
      have consistent := h.transition t
      cases h.fate_step inFlight t with
      | inFlight q member ticket click kept =>
          have kept : s ≠ .drop p.ticket := fun drops => kept (by simp [drops])
          cases ih consistent member with
          | inFlight r atEnd sameTicket sameClick keptLater =>
              refine .inFlight r atEnd (sameTicket.trans ticket) (sameClick.trans click) ?_
              rw [ticket] at keptLater
              simpa [kept.symm] using keptLater
          | settled gone accepted ended =>
              rw [ticket] at gone accepted ended
              exact .settled gone accepted (ended.imp_left (List.mem_cons_of_mem _))
      | settled gone accepted ended =>
          -- Tickets are not handed out again, so what is settled stays settled.
          have past : p.ticket < (m.step s).nextTicket :=
            Nat.lt_of_lt_of_le (h.begun p inFlight) (nextTicket_le t)
          obtain ⟨goneAtEnd, outcome, _⟩ := consistent.gone_run past gone rest
          rw [← outcome] at accepted ended
          refine .settled goneAtEnd accepted (ended.imp_left fun drops => ?_)
          exact List.mem_cons.mpr (.inl (List.mem_singleton.mp drops))

end Consistent

/-! ## Buttons and unfinished clicks -/

theorem run_split (m : Machine) (before after : List MachineStep) (s : MachineStep) :
    m.run (before ++ s :: after) = ((m.run before).step s).run after := by
  simp only [run, List.foldl_append, List.foldl_cons]

namespace Consistent

/-- A click on a loading button is over at once, and nothing else comes of it. -/
theorem ignored_run (h : m.Consistent) {c : Click} (loading : m.state c.id = .loading)
    (after : List MachineStep) :
    (∀ p ∈ ((m.step (.click c)).run after).pending, p.ticket ≠ m.nextTicket) ∧
      ((m.step (.click c)).run after).outcome? m.nextTicket = some .ignored ∧
      ∀ call ∈ ((m.step (.click c)).run after).calls, call.1 ≠ m.nextTicket := by
  have t := m.transition_step (.click c)
  have consistent := h.transition t
  generalize m.step (.click c) = began at t consistent
  cases t with
  | ignored _ _ =>
      have unused : ∀ p ∈ m.pending, p.ticket ≠ m.nextTicket :=
        fun p inFlight => Nat.ne_of_lt (h.begun p inFlight)
      obtain ⟨gone, outcome, calls⟩ := consistent.gone_run (Nat.lt_succ_self _) unused after
      refine ⟨gone, outcome.trans ?_, fun call member same => ?_⟩
      · exact outcome?_append_self _ fun entry member => Nat.ne_of_lt (h.ended entry member)
      · exact Nat.ne_of_lt (h.called call (calls call member same)) same
  | accepted _ free => exact absurd loading free
  | unawaited _ stray => exact stray.elim

theorem accepted_run (h : m.Consistent) {c : Click} (free : m.state c.id ≠ .loading)
    (after : List MachineStep) :
    ∃ p, p.ticket = m.nextTicket ∧ p.click = c ∧
      Fate p after ((m.step (.click c)).run after) := by
  have t := m.transition_step (.click c)
  have consistent := h.transition t
  generalize m.step (.click c) = began at t consistent
  cases t with
  | ignored _ loading => exact absurd loading free
  | accepted _ _ =>
      exact ⟨_, rfl, rfl, consistent.fate_run (List.mem_append_right _ List.mem_cons_self) after⟩
  | unawaited _ stray => exact stray.elim

theorem ignored_iff (h : m.Consistent) (c : Click) (after : List MachineStep) :
    ((m.step (.click c)).run after).outcome? m.nextTicket = some .ignored ↔
      m.state c.id = .loading := by
  constructor
  · intro outcome
    refine Decidable.byContradiction fun free => ?_
    obtain ⟨p, ticket, -, fate⟩ := h.accepted_run free after
    have consistent := (h.step (.click c)).run after
    rw [← ticket] at outcome
    cases fate with
    | inFlight q member same click kept =>
        have unanswered := outcome?_eq_none (consistent.unanswered q member)
        rw [same] at unanswered
        cases unanswered.symm.trans outcome
    | settled gone accepted ended => exact accepted outcome
  · exact fun loading => (h.ignored_run loading after).2.1

end Consistent

/-- In a run from the start, the click of a ticket on a button has neither returned nor been
    dropped. -/
def Unfinished (config : MachineConfig) (steps : List MachineStep) (id : ButtonId)
    (ticket : Nat) : Prop :=
  ∃ before c after, steps = before ++ .click c :: after ∧ c.id = id ∧
    ticket = ((start config).run before).nextTicket ∧
    ((start config).run steps).outcome? ticket = none ∧ .drop ticket ∉ after

/-- The unfinished clicks are those in flight. -/
theorem unfinished_iff (config : MachineConfig) (steps : List MachineStep) (id : ButtonId)
    (ticket : Nat) : Unfinished config steps id ticket ↔
      ∃ p ∈ ((start config).run steps).pending, p.ticket = ticket ∧ p.click.id = id := by
  constructor
  · rintro ⟨before, c, after, rfl, rfl, rfl, unanswered, kept⟩
    have consistent := (Consistent.start config).run before
    rw [run_split] at unanswered ⊢
    by_cases loading : ((start config).run before).state c.id = .loading
    · have ignored := (consistent.ignored_run loading after).2.1
      cases unanswered.symm.trans ignored
    · obtain ⟨p, same, rfl, fate⟩ := consistent.accepted_run loading after
      rw [← same] at unanswered kept
      cases fate with
      | inFlight q member ticket click _ =>
          exact ⟨q, member, ticket.trans same, congrArg Click.id click⟩
      | settled gone accepted ended =>
          rcases ended with drops | answered
          · exact absurd drops kept
          · simp [unanswered] at answered
  · rintro ⟨p, inFlight, rfl, rfl⟩
    have consistent := (Consistent.start config).run steps
    rcases origin_run steps inFlight with ⟨q, atStart, _⟩ | ⟨before, after, rfl, ticket⟩
    · cases atStart
    · refine ⟨before, p.click, after, rfl, rfl, ticket,
        outcome?_eq_none (consistent.unanswered p inFlight), fun drops => ?_⟩
      have begun := (Consistent.start config).run before
      rw [run_split] at inFlight
      by_cases loading : ((start config).run before).state p.click.id = .loading
      · exact (begun.ignored_run loading after).1 p inFlight ticket
      · obtain ⟨q, same, -, fate⟩ := begun.accepted_run loading after
        have tickets : p.ticket = q.ticket := ticket.trans same.symm
        cases fate with
        | inFlight _ _ _ _ kept => exact kept (tickets ▸ drops)
        | settled gone _ _ => exact gone p inFlight tickets

/-- A button loads exactly while an accepted click on it has neither returned nor been dropped.
    There is one such click at most, in the generation of the button; only a click that finds its
    button loading is ignored, and it leaves no trace; and the machine is pending exactly while some
    click is unfinished. -/
theorem loading_exactly_while_unfinished (config : MachineConfig) (steps : List MachineStep) :
    (∀ id, ((start config).run steps).state id = .loading ↔
      ∃ ticket, Unfinished config steps id ticket) ∧
    (∀ id first second, Unfinished config steps id first → Unfinished config steps id second →
      first = second) ∧
    (∀ id ticket, Unfinished config steps id ticket →
      ∃ p, ((start config).run steps).pending? ticket = some p ∧ p.click.id = id ∧
        p.generation = (((start config).run steps).table.slot id).generation) ∧
    (∀ before c after, steps = before ++ .click c :: after →
      (((start config).run steps).outcome? ((start config).run before).nextTicket =
          some .ignored ↔ ((start config).run before).state c.id = .loading) ∧
      (((start config).run before).state c.id = .loading →
        (((start config).run before).step (.click c)).table = ((start config).run before).table ∧
        ∀ call ∈ ((start config).run steps).calls,
          call.1 ≠ ((start config).run before).nextTicket)) ∧
    (((start config).run steps).anyPending = true ↔
      ∃ id ticket, Unfinished config steps id ticket) := by
  have consistent := (Consistent.start config).run steps
  have loading : ∀ id, ((start config).run steps).state id = .loading ↔
      ∃ ticket, Unfinished config steps id ticket := by
    intro id
    simp only [unfinished_iff]
    constructor
    · intro loading
      obtain ⟨p, inFlight, rfl⟩ := consistent.held id loading
      exact ⟨p.ticket, p, inFlight, rfl, rfl⟩
    · rintro ⟨_, p, inFlight, _, rfl⟩
      exact (consistent.holds p inFlight).1
  refine ⟨loading, ?_, ?_, ?_, ?_⟩
  · intro id first second ofFirst ofSecond
    obtain ⟨p, pInFlight, rfl, rfl⟩ := (unfinished_iff _ _ _ _).mp ofFirst
    obtain ⟨q, qInFlight, rfl, same⟩ := (unfinished_iff _ _ _ _).mp ofSecond
    rw [consistent.eq_of_button qInFlight pInFlight same]
  · intro id ticket unfinished
    obtain ⟨p, inFlight, rfl, rfl⟩ := (unfinished_iff _ _ _ _).mp unfinished
    exact ⟨p, consistent.pending?_of_mem inFlight, rfl, (consistent.holds p inFlight).2.symm⟩
  · rintro before c after rfl
    have begun := (Consistent.start config).run before
    rw [run_split]
    refine ⟨begun.ignored_iff c after, fun busy => ⟨?_, (begun.ignored_run busy after).2.2⟩⟩
    simp only [step, click, SlotTable.accept?_of_loading _ _ busy]
  · exact (SlotTable.anyLoading_iff _ consistent.ordered).trans (exists_congr loading)

end GatedForms.Machine

import GatedForms.Proofs.Button.Progress
import Mathlib.Data.List.Basic

/-! # The clicks of a run

Tickets number the clicks of a run from zero on: the ticket of a click is its place among the clicks
that were made, accepted or not.
-/

namespace GatedForms

namespace MachineStep

def click? : MachineStep → Option Click
  | .click c => some c
  | .validated _ _ | .acted _ _ | .drop _ | .expire _ _ => none

def clicks (steps : List MachineStep) : List Click := steps.filterMap click?

theorem clicks_singleton (s : MachineStep) : clicks [s] = s.click?.toList := by
  cases s <;> rfl

theorem clicks_cons (s : MachineStep) (rest : List MachineStep) :
    clicks (s :: rest) = s.click?.toList ++ clicks rest := by
  cases s <;> rfl

theorem clicks_append (before after : List MachineStep) :
    clicks (before ++ after) = clicks before ++ clicks after :=
  List.filterMap_append

end MachineStep

namespace Machine

/-- The tickets of a machine are places among the clicks. -/
structure Numbered (m : Machine) (clicks : List Click) : Prop where
  next : m.nextTicket = clicks.length
  inFlight : ∀ p ∈ m.pending, clicks[p.ticket]? = some p.click

variable {m : Machine} {clicks : List Click}

namespace Numbered

theorem start (config : MachineConfig) : (Machine.start config).Numbered [] := ⟨rfl, nofun⟩

theorem transition (h : m.Numbered clicks) {s : MachineStep} {after : Machine}
    (t : m.Transition s after) : after.Numbered (clicks ++ s.click?.toList) := by
  constructor
  · cases t with
    | ignored | accepted => simp [MachineStep.click?, h.next]
    | refused | passed | failed | completed | dropped | expired =>
        simpa [MachineStep.click?, finish] using h.next
    | unawaited _ stray =>
        cases s with
        | click => exact stray.elim
        | validated | acted | drop | expire => simpa [MachineStep.click?] using h.next
  · intro p inFlight
    rcases origin_step t inFlight with ⟨r, before, ticket, click, -⟩ | ⟨rfl, ticket, -⟩
    · have numbered := h.inFlight r before
      rw [ticket, click] at numbered
      obtain ⟨inBounds, -⟩ := List.getElem?_eq_some_iff.mp numbered
      rw [List.getElem?_append_left inBounds, numbered]
    · rw [ticket, h.next]
      exact List.getElem?_concat_length

theorem step (h : m.Numbered clicks) (s : MachineStep) :
    (m.step s).Numbered (clicks ++ s.click?.toList) :=
  h.transition (m.transition_step s)

theorem run (h : m.Numbered clicks) (steps : List MachineStep) :
    (m.run steps).Numbered (clicks ++ MachineStep.clicks steps) := by
  induction steps generalizing m clicks with
  | nil => simpa [Machine.run, MachineStep.clicks] using h
  | cons s rest ih =>
      rw [MachineStep.clicks_cons, ← List.append_assoc]
      exact ih (h.step s)

end Numbered

/-- The machine has run from the start with these clicks. -/
structure Traced (m : Machine) (clicks : List Click) : Prop where
  consistent : m.Consistent
  numbered : m.Numbered clicks

namespace Traced

theorem start (config : MachineConfig) : (Machine.start config).Traced [] :=
  ⟨.start config, .start config⟩

theorem step (h : m.Traced clicks) (s : MachineStep) :
    (m.step s).Traced (clicks ++ s.click?.toList) :=
  ⟨h.consistent.step s, h.numbered.step s⟩

theorem run (h : m.Traced clicks) (steps : List MachineStep) :
    (m.run steps).Traced (clicks ++ MachineStep.clicks steps) :=
  ⟨h.consistent.run steps, h.numbered.run steps⟩

theorem ended (h : m.Traced clicks) : ∀ entry ∈ m.outcomes, entry.1 < clicks.length :=
  h.numbered.next ▸ h.consistent.ended

theorem called (h : m.Traced clicks) : ∀ entry ∈ m.calls, entry.1 < clicks.length :=
  h.numbered.next ▸ h.consistent.called

end Traced

/-- In a run from the start every ticket is the place of its click. -/
theorem traced_run (config : MachineConfig) (steps : List MachineStep) :
    ((start config).run steps).Traced (MachineStep.clicks steps) :=
  (Traced.start config).run steps

/-! ## Completed clicks -/

/-- The click that an entry of the outcomes says has completed. -/
def completedBy (clicks : List Click) (entry : Nat × ClickOutcome) : Option Click :=
  if entry.2 = .completed then clicks[entry.1]? else none

/-- The clicks that have completed, in the order in which they did. -/
def completed (m : Machine) (clicks : List Click) : List Click :=
  m.outcomes.filterMap (completedBy clicks)

theorem completedBy_of_ne {outcome : ClickOutcome} (differ : outcome ≠ .completed) (ticket : Nat) :
    completedBy clicks (ticket, outcome) = none :=
  if_neg differ

namespace Traced

theorem completed_append (h : m.Traced clicks) (more : List Click) :
    m.completed (clicks ++ more) = m.completed clicks := by
  refine List.filterMap_congr fun entry member => ?_
  simp only [completedBy, List.getElem?_append_left (h.ended entry member)]

/-- A step adds the click that it completes. -/
theorem completed_transition (h : m.Traced clicks) {s : MachineStep} {after : Machine}
    (t : m.Transition s after) : after.completed (clicks ++ s.click?.toList) =
      m.completed clicks ++ ((m.completing? s).map PendingClick.click).toList := by
  -- Most steps end no click, or end one without completing it.
  have otherwise : ∀ (ticket : Nat) {outcome : ClickOutcome} (more : List Click),
      outcome ≠ .completed →
      (m.outcomes ++ [(ticket, outcome)]).filterMap (completedBy (clicks ++ more)) =
        m.completed clicks ++ [] := by
    intro ticket outcome more differ
    rw [List.filterMap_append, List.append_nil, ← h.completed_append more]
    simp [completedBy_of_ne differ, Machine.completed]
  have nothing := fun more => (h.completed_append more).trans (List.append_nil _).symm
  cases t with
  | ignored c loading => exact otherwise _ [c] nofun
  | accepted c free => exact nothing [c]
  | refused p found waits messages => exact otherwise _ [] nofun
  | passed p found waits transformed => exact nothing []
  | failed p found waits reason => exact otherwise _ [] nofun
  | completed p found waits =>
      have completes := completing?_eq_some_iff.mpr ⟨rfl, found, waits⟩
      have numbered := h.numbered.inFlight p (mem_of_pending? found)
      rw [completes, MachineStep.click?, Option.toList_none, List.append_nil]
      simp only [Machine.completed, finish, List.filterMap_append]
      simp [completedBy, numbered]
  | dropped p found => exact nothing []
  | expired other generation => exact nothing []
  | unawaited _ stray =>
      rw [completing?_of_unawaited stray]
      exact nothing _

end Traced

end Machine

end GatedForms

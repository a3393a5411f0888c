import GatedForms.Proofs.Button.Progress
import Mathlib.Data.List.Chain

/-! # What the listener is told

The events of a button are the states that it goes through, one event for each and in their order,
so that whoever listens knows the state of every button. Without a clock a click that completes
shows success for a moment only, and that moment is told too.
-/

namespace GatedForms

namespace ButtonState

/-- The changes of state that a button can make. -/
inductive Follows : ButtonState → ButtonState → Prop where
  | begins : Follows .idle .loading
  | beginsAgain : Follows .success .loading
  | releases : Follows .loading .idle
  | succeeds : Follows .loading .success
  | expires : Follows .success .idle

theorem Follows.ne {first second : ButtonState} (follows : Follows first second) :
    first ≠ second := by
  cases follows <;> nofun

/-- The events of a button tell how it came to its state from idle. -/
structure Story (events : List ButtonState) (state : ButtonState) : Prop where
  begins : ∀ first ∈ events.head?, first = .loading
  follows : events.IsChain Follows
  ends : events.getLast?.getD .idle = state

namespace Story

variable {events : List ButtonState} {state next : ButtonState}

theorem nil : Story [] .idle := ⟨nofun, .nil, rfl⟩

theorem concat (h : Story events state) (follows : Follows state next) :
    Story (events ++ [next]) next := by
  refine ⟨?_, ?_, ?_⟩
  · intro first atHead
    cases events with
    | nil =>
        -- Nothing was told, so the button is idle and can only begin to load.
        obtain rfl : next = first := by simpa using atHead
        obtain rfl : ButtonState.idle = state := h.ends
        cases follows
        rfl
    | cons _ _ => exact h.begins first atHead
  · refine List.isChain_append.mpr ⟨h.follows, .singleton next, ?_⟩
    intro last atEnd second atHead
    obtain rfl : next = second := by simpa using atHead
    have told : last = state := by simpa [Option.mem_def.mp atEnd] using h.ends
    exact told ▸ follows
  · simp

end Story

end ButtonState

namespace Machine

/-- The states that the listener has been told of a button, oldest first. -/
def eventsOf (m : Machine) (id : ButtonId) : List ButtonState :=
  (m.published.filter fun event => event.id = id).map ButtonEvent.state

/-- A step completes a click on a button. -/
def CompletesOn (m : Machine) (id : ButtonId) (s : MachineStep) : Prop :=
  (m.completing? s).map (fun p => p.click.id) = some id

instance (m : Machine) (id : ButtonId) (s : MachineStep) : Decidable (m.CompletesOn id s) :=
  inferInstanceAs (Decidable (_ = _))

/-- The states that a button goes through in one step. -/
def passage (m : Machine) (s : MachineStep) (id : ButtonId) : List ButtonState :=
  if m.CompletesOn id s ∧ m.config.hasClock = false then [.success, .idle]
  else if (m.step s).state id = m.state id then []
  else [(m.step s).state id]

def passages (m : Machine) (id : ButtonId) : List MachineStep → List ButtonState
  | [] => []
  | s :: rest => m.passage s id ++ (m.step s).passages id rest

variable {m : Machine}

theorem eventsOf_eq_history (listens : m.config.hasListener = true) (id : ButtonId) :
    m.eventsOf id = m.history id := by
  rw [eventsOf, published, if_pos listens]
  rfl

theorem completesOn_iff {s : MachineStep} {id : ButtonId} : m.CompletesOn id s ↔
    ∃ p, (s = .acted p.ticket none ∧ m.pending? p.ticket = some p ∧ p.phase = .acting) ∧
      p.click.id = id := by
  simp only [CompletesOn, Option.map_eq_some_iff, completing?_eq_some_iff]

/-- What a step tells of a button is what the button goes through, and carries its story on. -/
structure Told (m : Machine) (id : ButtonId) (s : MachineStep) : Prop where
  story : ButtonState.Story ((m.step s).history id) ((m.step s).state id)
  passage : (m.step s).history id = m.history id ++ m.passage s id

theorem told_of_same {s : MachineStep} {id : ButtonId}
    (story : ButtonState.Story (m.history id) (m.state id)) (other : ¬ m.CompletesOn id s)
    (slot : (m.step s).table.slot id = m.table.slot id)
    (history : (m.step s).history id = m.history id) : m.Told id s := by
  have same : (m.step s).state id = m.state id := congrArg Slot.state slot
  constructor
  · rw [history, same]
    exact story
  · rw [history, passage, if_neg fun completes => other completes.1, if_pos same, List.append_nil]

theorem told_of_follows {s : MachineStep} {id : ButtonId} {state next : ButtonState}
    (story : ButtonState.Story (m.history id) (m.state id)) (other : ¬ m.CompletesOn id s)
    (before : m.state id = state) (after : (m.step s).state id = next)
    (follows : state.Follows next)
    (history : (m.step s).history id = m.history id ++ [next]) : m.Told id s := by
  constructor
  · rw [history, after]
    exact (before ▸ story).concat follows
  · rw [history, passage, if_neg fun completes => other completes.1, before, after,
      if_neg follows.ne.symm]

namespace Consistent

/-- While a click is in flight on a button, no other click completes there. -/
theorem of_completesOn (h : m.Consistent) {p : PendingClick} (inFlight : p ∈ m.pending)
    {s : MachineStep} (completes : m.CompletesOn p.click.id s) :
    s = .acted p.ticket none ∧ p.phase = .acting := by
  obtain ⟨q, ⟨rfl, found, acting⟩, same⟩ := completesOn_iff.mp completes
  cases h.eq_of_button (mem_of_pending? found) inFlight same
  exact ⟨rfl, acting⟩

theorem told_of_completed (h : m.Consistent) {p : PendingClick} (inFlight : p ∈ m.pending)
    (story : ButtonState.Story (m.history p.click.id) (m.state p.click.id))
    (acting : p.phase = .acting)
    (slot : (m.step (.acted p.ticket none)).table.slot p.click.id =
      if m.config.hasClock then ⟨.success, p.generation, some p.generation⟩
      else { m.table.slot p.click.id with state := .idle })
    (history : (m.step (.acted p.ticket none)).history p.click.id =
      m.history p.click.id ++ .success :: if m.config.hasClock then [] else [.idle]) :
    m.Told p.click.id (.acted p.ticket none) := by
  have loading : m.state p.click.id = .loading := (h.holds p inFlight).1
  have completes : m.CompletesOn p.click.id (.acted p.ticket none) :=
    completesOn_iff.mpr ⟨p, ⟨rfl, h.pending?_of_mem inFlight, acting⟩, rfl⟩
  have succeeded := (loading ▸ story).concat .succeeds
  cases clock : m.config.hasClock with
  | true =>
      have after : (m.step (.acted p.ticket none)).state p.click.id = .success := by
        rw [state, SlotTable.state, slot, if_pos clock]
      rw [clock] at history
      constructor
      · rw [history, after]
        exact succeeded
      · rw [history, passage, clock, after, loading]
        simp
  | false =>
      have after : (m.step (.acted p.ticket none)).state p.click.id = .idle := by
        rw [state, SlotTable.state, slot, clock]
        rfl
      rw [clock] at history
      constructor
      · rw [history, after]
        simpa using succeeded.concat .expires
      · have passes : m.passage (.acted p.ticket none) p.click.id = [.success, .idle] :=
          if_pos ⟨completes, clock⟩
        rw [history, passes]
        rfl

theorem told_step (h : m.Consistent) (id : ButtonId) (s : MachineStep)
    (story : ButtonState.Story (m.history id) (m.state id)) : m.Told id s := by
  have t := m.transition_step s
  generalize landed : m.step s = after at t
  -- What can happen to a loading button is what can happen to the click that it loads for.
  by_cases loading : m.state id = .loading
  · obtain ⟨p, inFlight, rfl⟩ := h.held id loading
    have released : m.Frees p (m.step s) → s ≠ .acted p.ticket none → m.Told p.click.id s :=
      fun frees differ =>
        told_of_follows story (fun completes => differ (h.of_completesOn inFlight completes).1)
          loading (congrArg Slot.state frees.slot) .releases frees.history
    cases h.progress inFlight t with
    | waits unconcerned _ button =>
        subst landed
        refine told_of_same story (fun completes => ?_) button.slot button.history
        obtain ⟨rfl, acting⟩ := h.of_completesOn inFlight completes
        exact unconcerned ⟨rfl, acting⟩
    | passed transformed validating _ button =>
        subst landed
        exact told_of_same story nofun button.slot button.history
    | refused messages validating frees => exact released (landed ▸ frees) nofun
    | failed reason acting frees => exact released (landed ▸ frees) nofun
    | dropped frees => exact released (landed ▸ frees) nofun
    | completed acting _ slot history =>
        subst landed
        exact h.told_of_completed inFlight story acting slot history
  · have other : ¬ m.CompletesOn id s := by
      intro completes
      obtain ⟨q, ⟨-, found, -⟩, rfl⟩ := completesOn_iff.mp completes
      exact loading (h.holds q (mem_of_pending? found)).1
    cases h.rest loading t with
    | untouched _ _ slot history =>
        subst landed
        exact told_of_same story other slot history
    | begins c _ slot history =>
        subst landed
        have begun : (m.step (.click c)).state id = .loading := congrArg Slot.state slot
        cases before : m.state id with
        | idle => exact told_of_follows story other before begun .begins history
        | loading => exact absurd before loading
        | success => exact told_of_follows story other before begun .beginsAgain history
    | expires success slot history =>
        subst landed
        exact told_of_follows story other success (congrArg Slot.state slot) .expires history

theorem told_run (h : m.Consistent) (id : ButtonId) (steps : List MachineStep)
    (story : ButtonState.Story (m.history id) (m.state id)) :
    ButtonState.Story ((m.run steps).history id) ((m.run steps).state id) ∧
      (m.run steps).history id = m.history id ++ m.passages id steps := by
  induction steps generalizing m with
  | nil => exact ⟨story, (List.append_nil _).symm⟩
  | cons s rest ih =>
      have told := h.told_step id s story
      obtain ⟨atEnd, history⟩ := ih (h.step s) told.story
      refine ⟨atEnd, ?_⟩
      rw [passages, ← List.append_assoc, ← told.passage]
      exact history

end Consistent

theorem config_run (m : Machine) (steps : List MachineStep) : (m.run steps).config = m.config := by
  induction steps generalizing m with
  | nil => rfl
  | cons s rest ih => exact (ih (m.step s)).trans (m.config_step s)

/-- In every run of a machine that someone listens to, with or without a clock, the events of a
    button begin with loading, each is a change from the one before it, they are the states that the
    button goes through, each once and in order, and the last one is the state of the button. -/
theorem events_tell_every_change (hasClock : Bool) (steps : List MachineStep) (id : ButtonId) :
    ButtonState.Story (((start ⟨hasClock, true⟩).run steps).eventsOf id)
        (((start ⟨hasClock, true⟩).run steps).state id) ∧
      ((start ⟨hasClock, true⟩).run steps).eventsOf id =
        (start ⟨hasClock, true⟩).passages id steps := by
  have listens : ((start ⟨hasClock, true⟩).run steps).config.hasListener = true := by
    rw [config_run]
    rfl
  rw [eventsOf_eq_history listens]
  exact (Consistent.start ⟨hasClock, true⟩).told_run id steps .nil

end Machine

end GatedForms

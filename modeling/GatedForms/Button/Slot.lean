import GatedForms.Field.Basic

/-! # Button states

Every button is idle, loading or in success. A click takes it to loading, a finished click to
success or back to idle, and success ends by itself after a while. Each accepted click has a
generation of its own, so that what an older click left behind cannot touch a newer one.
-/

namespace GatedForms

/-- State of a button. -/
inductive ButtonState where
  | idle
  | loading
  | success
  deriving Repr, DecidableEq, BEq

namespace ButtonState

def name : ButtonState → String
  | .idle => "idle"
  | .loading => "loading"
  | .success => "success"

end ButtonState

/-- A button has reached a state. -/
structure ButtonEvent where
  id : ButtonId
  state : ButtonState
  deriving Repr, DecidableEq, BEq

/-- What is known of one button. -/
structure Slot where
  state : ButtonState
  /-- Number of clicks accepted so far. -/
  generation : Nat
  /-- Generation of the armed revert, if success is to end by itself. -/
  revert : Option Nat
  deriving Repr, DecidableEq, BEq

namespace Slot

def fresh : Slot := ⟨.idle, 0, none⟩

end Slot

/-- The buttons of a form, and the events that were published, oldest first. -/
structure SlotTable where
  slots : List (ButtonId × Slot)
  events : List ButtonEvent
  deriving Repr, DecidableEq, BEq

namespace SlotTable

def empty : SlotTable := ⟨[], []⟩

def slot (t : SlotTable) (id : ButtonId) : Slot := (KeyMap.find? id t.slots).getD .fresh

/-- State of a button; buttons never clicked are idle. -/
def state (t : SlotTable) (id : ButtonId) : ButtonState := (t.slot id).state

def anyLoading (t : SlotTable) : Bool := t.slots.any fun entry => entry.2.state == .loading

/-- Change a button and publish states that it has gone through. -/
def update (t : SlotTable) (id : ButtonId) (slot : Slot) (published : List ButtonState) :
    SlotTable :=
  ⟨KeyMap.insert id slot t.slots, t.events ++ published.map fun state => ⟨id, state⟩⟩

/-- Accept a click: the button loads in a new generation, and no revert is armed any more. A button
    that is loading accepts none. -/
def accept? (t : SlotTable) (id : ButtonId) : Option (Nat × SlotTable) :=
  let slot := t.slot id
  if slot.state = .loading then none
  else
    let generation := slot.generation + 1
    some (generation, t.update id ⟨.loading, generation, none⟩ [.loading])

/-- End a click that has not succeeded. -/
def settleIdle (t : SlotTable) (id : ButtonId) (generation : Nat) : SlotTable :=
  let slot := t.slot id
  if slot.generation = generation then t.update id { slot with state := .idle } [.idle] else t

/-- End a click that has succeeded: a revert is armed, or, without a clock, success ends at once. -/
def settleSuccess (t : SlotTable) (hasClock : Bool) (id : ButtonId) (generation : Nat) :
    SlotTable :=
  let slot := t.slot id
  if slot.generation = generation then
    if hasClock then t.update id ⟨.success, generation, some generation⟩ [.success]
    else t.update id { slot with state := .idle } [.success, .idle]
  else t

/-- A revert goes off. It ends success only in its own generation. -/
def expire (t : SlotTable) (id : ButtonId) (generation : Nat) : SlotTable :=
  let slot := t.slot id
  if slot.generation = generation ∧ slot.state = .success then
    t.update id ⟨.idle, generation, none⟩ [.idle]
  else t

end SlotTable

end GatedForms

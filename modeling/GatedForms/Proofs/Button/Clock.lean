import GatedForms.Proofs.Button.Progress

/-! # Machines on a clock

When the handler of a click succeeds, a revert is armed that goes off when the dwell of success is
over. Clicks, answers and drops come at any time in between. A new click on the button aborts its
revert; an aborted revert may still go off, late or never. The clock goes on whatever waits for it:
that armed reverts go off on time is a property of a run, `OnTime`, and only that success is over by
the end of its dwell rests on it.
-/

namespace GatedForms

/-- A revert that waits for its time. -/
structure Revert where
  due : Nat
  id : ButtonId
  generation : Nat
  deriving Repr, DecidableEq, BEq

/-- A machine and its clock. -/
structure ClockedMachine where
  machine : Machine
  /-- How long success lasts. -/
  dwell : Nat
  now : Nat
  /-- The reverts that have not gone off, aborted ones among them. -/
  reverts : List Revert

/-- What can happen to a machine on a clock. -/
inductive ClockedStep where
  | happens (s : MachineStep)
  | pass (duration : Nat)

namespace ClockedMachine

/-- A machine on which nothing has happened. Having a clock, it does not end success at once. -/
def start (hasListener : Bool) (dwell : Nat) : ClockedMachine :=
  ⟨.start ⟨true, hasListener⟩, dwell, 0, []⟩

def slot (r : ClockedMachine) (id : ButtonId) : Slot := r.machine.table.slot id

def state (r : ClockedMachine) (id : ButtonId) : ButtonState := (r.slot id).state

/-- The states that a button has gone through, oldest first. -/
def history (r : ClockedMachine) (id : ButtonId) : List ButtonState := r.machine.history id

/-- The reverts of one button that have not gone off. -/
def revertsOf (r : ClockedMachine) (id : ButtonId) : List Revert :=
  r.reverts.filter fun w => w.id = id

/-- Whether a revert was not aborted. -/
def isArmed (r : ClockedMachine) (w : Revert) : Bool := (r.slot w.id).revert == some w.generation

/-- The revert that is armed when the handler of a click succeeds. -/
def armedBy (r : ClockedMachine) : MachineStep → List Revert
  | .acted ticket none =>
      match r.machine.pending? ticket with
      | some p =>
          if p.phase = .acting then [⟨r.now + r.dwell, p.click.id, p.generation⟩] else []
      | none => []
  | _ => []

def act (r : ClockedMachine) (s : MachineStep) : ClockedMachine :=
  { r with machine := r.machine.step s, reverts := r.reverts ++ r.armedBy s }

/-- The revert of a click goes off, if there is one whose time has come. -/
def fire (r : ClockedMachine) (id : ButtonId) (generation : Nat) : ClockedMachine :=
  if r.reverts.any fun w => w.id = id ∧ w.generation = generation ∧ w.due ≤ r.now then
    { r with
      machine := r.machine.step (.expire id generation)
      reverts := r.reverts.filter fun w => ¬ (w.id = id ∧ w.generation = generation) }
  else r

/-- Let something happen, or let time pass. -/
def step (r : ClockedMachine) : ClockedStep → ClockedMachine
  | .happens (.expire id generation) => r.fire id generation
  | .happens s => r.act s
  | .pass duration => { r with now := r.now + duration }

def run (r : ClockedMachine) (steps : List ClockedStep) : ClockedMachine := steps.foldl step r

/-- A step does not pass the time of an armed revert of the button. -/
def Awaits (r : ClockedMachine) (id : ButtonId) : ClockedStep → Prop
  | .happens _ => True
  | .pass duration => ∀ w ∈ r.revertsOf id, r.isArmed w = true → r.now + duration ≤ w.due

/-- In a run on time the armed reverts of the button go off when they are due: no step passes the
    time of one. -/
def OnTime (r : ClockedMachine) (id : ButtonId) : List ClockedStep → Prop
  | [] => True
  | s :: rest => r.Awaits id s ∧ (r.step s).OnTime id rest

instance (r : ClockedMachine) (id : ButtonId) (s : ClockedStep) : Decidable (r.Awaits id s) :=
  match s with
  | .happens _ => .isTrue trivial
  | .pass duration => inferInstanceAs
      (Decidable (∀ w ∈ r.revertsOf id, r.isArmed w = true → r.now + duration ≤ w.due))

instance decidableOnTime (r : ClockedMachine) (id : ButtonId) (steps : List ClockedStep) :
    Decidable (r.OnTime id steps) :=
  match steps with
  | [] => .isTrue trivial
  | s :: rest =>
      have := decidableOnTime (r.step s) id rest
      inferInstanceAs (Decidable (r.Awaits id s ∧ (r.step s).OnTime id rest))

variable {r : ClockedMachine} {id : ButtonId}

theorem run_append (r : ClockedMachine) (before after : List ClockedStep) :
    r.run (before ++ after) = (r.run before).run after :=
  List.foldl_append

theorem mem_revertsOf {w : Revert} : w ∈ r.revertsOf id ↔ w ∈ r.reverts ∧ w.id = id := by
  simp [revertsOf]

theorem isArmed_iff {w : Revert} (ofButton : w ∈ r.revertsOf id) :
    r.isArmed w = true ↔ (r.slot id).revert = some w.generation := by
  simp [isArmed, (mem_revertsOf.mp ofButton).2]

theorem mem_armedBy {s : MachineStep} {w : Revert} (member : w ∈ r.armedBy s) :
    ∃ p, s = .acted p.ticket none ∧ p ∈ r.machine.pending ∧ p.phase = .acting ∧
      w = ⟨r.now + r.dwell, p.click.id, p.generation⟩ := by
  cases s with
  | acted ticket failure =>
      cases failure with
      | some reason => cases member
      | none =>
          simp only [armedBy] at member
          cases found : r.machine.pending? ticket with
          | none => simp [found] at member
          | some p =>
              cases Machine.ticket_of_pending? found
              simp only [found] at member
              split at member
              · next acting =>
                exact ⟨p, rfl, Machine.mem_of_pending? found, acting, List.mem_singleton.mp member⟩
              · cases member
  | click | validated | drop | expire => cases member

theorem armedBy_of_acting {p : PendingClick} (found : r.machine.pending? p.ticket = some p)
    (acting : p.phase = .acting) :
    r.armedBy (.acted p.ticket none) = [⟨r.now + r.dwell, p.click.id, p.generation⟩] := by
  simp only [armedBy, found, if_pos acting]

/-! ## Reverts and success -/

/-- A button is in success exactly while a revert of its generation is armed, which waits. -/
structure TimelyAt (r : ClockedMachine) (id : ButtonId) : Prop where
  armed : r.state id = .success → (r.slot id).revert = some (r.slot id).generation
  disarmed : r.state id ≠ .success → (r.slot id).revert = none
  waiting : r.state id = .success → ∃ w ∈ r.revertsOf id, w.generation = (r.slot id).generation
  begun : ∀ w ∈ r.revertsOf id, w.generation ≤ (r.slot id).generation
  current : ∀ w ∈ r.revertsOf id, w.generation = (r.slot id).generation → r.state id = .success

structure Timely (r : ClockedMachine) : Prop where
  consistent : r.machine.Consistent
  hasClock : r.machine.config.hasClock = true
  buttons : ∀ id, r.TimelyAt id

theorem timely_start (hasListener : Bool) (dwell : Nat) : (start hasListener dwell).Timely where
  consistent := .start _
  hasClock := rfl
  buttons := fun _ => ⟨nofun, fun _ => rfl, nofun, nofun, nofun⟩

/-- What a step does to one button and to its reverts. -/
inductive Change (r : ClockedMachine) (id : ButtonId) : ClockedStep → ClockedMachine → Prop where
  /-- At most the clock moves, or an aborted revert goes off. -/
  | kept {s : ClockedStep} {after : ClockedMachine}
      (notClicked : ∀ c, s = .happens (.click c) → c.id = id → r.state id = .loading)
      (slot : after.slot id = r.slot id) (history : after.history id = r.history id)
      (clock : after.now = r.now ∨ ∃ duration, s = .pass duration ∧ after.now = r.now + duration)
      (older : ∀ w ∈ after.revertsOf id, w ∈ r.revertsOf id)
      (armed : ∀ w ∈ r.revertsOf id, w.generation = (r.slot id).generation →
        w ∈ after.revertsOf id) :
      Change r id s after
  | begins {after : ClockedMachine} (c : Click) (onButton : c.id = id)
      (free : r.state id ≠ .loading)
      (slot : after.slot id = ⟨.loading, (r.slot id).generation + 1, none⟩)
      (history : after.history id = r.history id ++ [.loading]) (now : after.now = r.now)
      (reverts : after.revertsOf id = r.revertsOf id) : Change r id (.happens (.click c)) after
  | ends {s : ClockedStep} {after : ClockedMachine} (loading : r.state id = .loading)
      (slot : after.slot id = { r.slot id with state := .idle })
      (now : after.now = r.now) (reverts : after.revertsOf id = r.revertsOf id) :
      Change r id s after
  | succeeds {s : ClockedStep} {after : ClockedMachine} (loading : r.state id = .loading)
      (slot : after.slot id = ⟨.success, (r.slot id).generation, some (r.slot id).generation⟩)
      (now : after.now = r.now)
      (reverts : after.revertsOf id =
        r.revertsOf id ++ [⟨r.now + r.dwell, id, (r.slot id).generation⟩]) :
      Change r id s after
  | expires {generation : Nat} {after : ClockedMachine}
      (current : (r.slot id).generation = generation) (success : r.state id = .success)
      (due : ∃ w ∈ r.revertsOf id, w.generation = generation ∧ w.due ≤ r.now)
      (slot : after.slot id = ⟨.idle, generation, none⟩)
      (history : after.history id = r.history id ++ [.idle]) (now : after.now = r.now)
      (reverts : after.revertsOf id = (r.revertsOf id).filter fun w => w.generation ≠ generation) :
      Change r id (.happens (.expire id generation)) after

theorem step_happens (r : ClockedMachine) {s : MachineStep}
    (notExpired : ∀ id generation, s ≠ .expire id generation) :
    r.step (.happens s) = r.act s := by
  cases s with
  | expire id generation => exact absurd rfl (notExpired id generation)
  | click | validated | acted | drop => rfl

theorem revertsOf_act (r : ClockedMachine) (s : MachineStep) (id : ButtonId) :
    (r.act s).revertsOf id = r.revertsOf id ++ (r.armedBy s).filter fun w => w.id = id := by
  simp only [revertsOf, act, List.filter_append]

theorem revertsOf_act_of_ne {s : MachineStep} (others : ∀ w ∈ r.armedBy s, w.id ≠ id) :
    (r.act s).revertsOf id = r.revertsOf id := by
  have nothing : ((r.armedBy s).filter fun w => w.id = id) = [] :=
    List.filter_eq_nil_iff.mpr fun w member => by simpa using others w member
  rw [revertsOf_act, nothing, List.append_nil]

theorem change_of_kept {s : MachineStep}
    (notClicked : ∀ c, s = .click c → c.id = id → r.state id = .loading)
    (slot : (r.machine.step s).table.slot id = r.slot id)
    (history : (r.machine.step s).history id = r.history id)
    (others : ∀ w ∈ r.armedBy s, w.id ≠ id) : Change r id (.happens s) (r.act s) := by
  have same := revertsOf_act_of_ne others
  refine .kept ?_ slot history (.inl rfl) (fun w member => ?_) fun w member _ => ?_
  · rintro c ⟨⟩ onButton
    exact notClicked c rfl onButton
  · exact same ▸ member
  · exact same.symm ▸ member

theorem Timely.change_act (h : r.Timely) (id : ButtonId) {s : MachineStep}
    (notExpired : ∀ id generation, s ≠ .expire id generation) :
    Change r id (.happens s) (r.act s) := by
  have t := r.machine.transition_step s
  -- A loading button follows the click that holds it; any other one is at rest.
  by_cases loading : r.state id = .loading
  · obtain ⟨p, inFlight, rfl⟩ := h.consistent.held id loading
    have current := (h.consistent.holds p inFlight).2
    generalize after : r.machine.step s = machine at t
    cases h.consistent.progress inFlight t with
    | waits unconcerned stays button calls =>
        refine change_of_kept (fun _ _ _ => loading) ?_ ?_ fun w member same => ?_
        · rw [after]
          exact button.slot
        · rw [after]
          exact button.history
        · obtain ⟨q, rfl, alsoInFlight, acting, rfl⟩ := mem_armedBy member
          cases h.consistent.eq_of_button alsoInFlight inFlight same
          exact unconcerned ⟨rfl, acting⟩
    | passed transformed validating stays button calls =>
        subst after
        exact change_of_kept (fun _ _ _ => loading) button.slot button.history nofun
    | refused messages validating frees =>
        subst after
        exact .ends loading frees.slot rfl (revertsOf_act_of_ne nofun)
    | failed reason acting frees =>
        subst after
        exact .ends loading frees.slot rfl (revertsOf_act_of_ne nofun)
    | completed acting gone slot history calls outcome =>
        subst after
        rw [h.hasClock, ← current] at slot
        refine .succeeds loading slot rfl ?_
        rw [revertsOf_act, armedBy_of_acting (h.consistent.pending?_of_mem inFlight) acting,
          ← current]
        simp [ClockedMachine.slot]
    | dropped frees =>
        subst after
        exact .ends loading frees.slot rfl (revertsOf_act_of_ne nofun)
  · have others : ∀ w ∈ r.armedBy s, w.id ≠ id := by
      intro w member same
      obtain ⟨p, -, inFlight, -, rfl⟩ := mem_armedBy member
      exact loading (same ▸ (h.consistent.holds p inFlight).1)
    generalize after : r.machine.step s = machine at t
    cases h.consistent.rest loading t with
    | untouched notClicked _ slot history =>
        subst after
        exact change_of_kept (fun c isClick onButton => absurd onButton (notClicked c isClick))
          slot history others
    | begins c onButton slot history =>
        subst after
        exact .begins c onButton loading slot history rfl (revertsOf_act_of_ne nofun)
    | expires success slot history => exact absurd rfl (notExpired _ _)

theorem Timely.change_fire (h : r.Timely) (id other : ButtonId) (generation : Nat) :
    Change r id (.happens (.expire other generation)) (r.fire other generation) := by
  unfold fire
  split
  · next waits =>
    obtain ⟨w, inReverts, sameId, sameGeneration, due⟩ : ∃ w ∈ r.reverts, w.id = other ∧
        w.generation = generation ∧ w.due ≤ r.now := by simpa using waits
    subst sameId sameGeneration
    have ofButton : w ∈ r.revertsOf w.id := mem_revertsOf.mpr ⟨inReverts, rfl⟩
    have stays : ∀ {v}, v ∈ r.revertsOf id → (v.id = w.id → v.generation ≠ w.generation) →
        v ∈ (r.reverts.filter fun v => ¬ (v.id = w.id ∧ v.generation = w.generation)).filter
          fun v => v.id = id := by
      intro v member differ
      obtain ⟨inReverts, sameId⟩ := mem_revertsOf.mp member
      simp only [List.mem_filter, decide_eq_true_eq]
      exact ⟨⟨inReverts, fun same => differ same.1 same.2⟩, sameId⟩
    have older : ∀ v ∈ (r.reverts.filter fun v =>
        ¬ (v.id = w.id ∧ v.generation = w.generation)).filter fun v => v.id = id,
        v ∈ r.revertsOf id := by
      intro v member
      simp only [List.mem_filter, decide_eq_true_eq] at member
      exact mem_revertsOf.mpr ⟨member.1.1, member.2⟩
    rcases r.machine.table.expire_cases w.id w.generation with
      ⟨current, success, expires⟩ | ⟨late, same⟩
    · by_cases sameButton : w.id = id
      · subst sameButton
        refine .expires current success ⟨w, ofButton, rfl, due⟩ ?_ ?_ rfl ?_
        · exact (congrArg (SlotTable.slot · w.id) expires).trans
            (SlotTable.slot_update_self _ _ _ _)
        · exact (congrArg (SlotTable.history · w.id) expires).trans
            (SlotTable.history_update_self _ _ _ _)
        · simp only [revertsOf, List.filter_filter]
          refine List.filter_congr fun v _ => ?_
          by_cases sameId : v.id = w.id <;> simp [sameId]
      · refine .kept nofun ?_ ?_ (.inl rfl) older fun v member _ => ?_
        · exact (congrArg (SlotTable.slot · id) expires).trans
            (SlotTable.slot_update_ne _ _ _ _ sameButton)
        · exact (congrArg (SlotTable.history · id) expires).trans
            (SlotTable.history_update_ne _ _ _ sameButton)
        · refine stays member fun sameId => absurd (sameId.symm.trans ?_) sameButton
          exact (mem_revertsOf.mp member).2
    · -- An aborted revert; one that is armed would have found its button in success.
      refine .kept nofun ?_ ?_ (.inl rfl) older fun v member current => ?_
      · exact congrArg (SlotTable.slot · id) same
      · exact congrArg (SlotTable.history · id) same
      · refine stays member fun sameId sameGeneration => late ?_
        obtain rfl : v.id = id := (mem_revertsOf.mp member).2
        rw [sameId] at current
        have isCurrent := sameGeneration.symm.trans current
        exact ⟨isCurrent.symm, (h.buttons w.id).current w ofButton isCurrent⟩
  · exact .kept nofun rfl rfl (.inl rfl) (fun _ member => member) fun _ member _ => member

theorem change_pass (r : ClockedMachine) (id : ButtonId) (duration : Nat) :
    Change r id (.pass duration) (r.step (.pass duration)) :=
  .kept nofun rfl rfl (.inr ⟨duration, rfl, rfl⟩) (fun _ member => member)
    fun _ member _ => member

theorem Timely.change (h : r.Timely) (id : ButtonId) (s : ClockedStep) :
    Change r id s (r.step s) := by
  cases s with
  | pass duration => exact r.change_pass id duration
  | happens s =>
      by_cases expires : ∃ other generation, s = .expire other generation
      · obtain ⟨other, generation, rfl⟩ := expires
        exact h.change_fire id other generation
      · have notExpired : ∀ other generation, s ≠ .expire other generation :=
          fun other generation same => expires ⟨other, generation, same⟩
        rw [r.step_happens notExpired]
        exact h.change_act id notExpired

theorem Change.timelyAt {s : ClockedStep} {after : ClockedMachine} (h : r.TimelyAt id)
    (change : Change r id s after) : after.TimelyAt id := by
  cases change with
  | kept notClicked slot history clock older armed =>
      refine ⟨?_, ?_, ?_, ?_, ?_⟩ <;> simp only [state, slot]
      · exact h.armed
      · exact h.disarmed
      · intro success
        obtain ⟨w, member, current⟩ := h.waiting success
        exact ⟨w, armed w member current, current⟩
      · exact fun w member => h.begun w (older w member)
      · exact fun w member => h.current w (older w member)
  | begins c onButton free slot history now reverts =>
      -- All reverts that wait are of older clicks.
      have older : ∀ w ∈ r.revertsOf id, w.generation ≠ (r.slot id).generation + 1 :=
        fun w member => Nat.ne_of_lt (Nat.lt_succ_of_le (h.begun w member))
      refine ⟨?_, ?_, ?_, ?_, ?_⟩ <;> simp only [state, slot, reverts]
      · exact nofun
      · exact fun _ => trivial
      · exact nofun
      · exact fun w member => Nat.le_succ_of_le (h.begun w member)
      · exact fun w member current => absurd current (older w member)
  | ends loading slot now reverts =>
      have free : r.state id ≠ .success := by simp [loading]
      refine ⟨?_, ?_, ?_, ?_, ?_⟩ <;> simp only [state, slot, reverts]
      · exact nofun
      · exact fun _ => h.disarmed free
      · exact nofun
      · exact h.begun
      · exact fun w member current => absurd (h.current w member current) free
  | succeeds loading slot now reverts =>
      have free : r.state id ≠ .success := by simp [loading]
      refine ⟨?_, ?_, ?_, ?_, ?_⟩ <;>
        simp only [state, slot, reverts, List.forall_mem_append, List.forall_mem_singleton]
      · exact fun _ => trivial
      · exact fun other => absurd rfl other
      · exact fun _ => ⟨_, List.mem_append_right _ List.mem_cons_self, rfl⟩
      · exact ⟨h.begun, Nat.le_refl _⟩
      · exact ⟨fun _ _ _ => trivial, fun _ => trivial⟩
  | @expires generation _ current success due slot history now reverts =>
      have older : ∀ w ∈ (r.revertsOf id).filter fun w => w.generation ≠ generation,
          w ∈ r.revertsOf id ∧ w.generation ≠ generation := by
        simp
      refine ⟨?_, ?_, ?_, ?_, ?_⟩ <;> simp only [state, slot, reverts]
      · exact nofun
      · exact fun _ => trivial
      · exact nofun
      · exact fun w member => current ▸ h.begun w (older w member).1
      · exact fun w member same => absurd same (older w member).2

theorem machine_step (r : ClockedMachine) (s : ClockedStep) :
    (r.step s).machine = r.machine ∨
      ∃ t, s = .happens t ∧ (r.step s).machine = r.machine.step t := by
  cases s with
  | pass duration => exact .inl rfl
  | happens s =>
      cases s with
      | expire id generation =>
          simp only [step, fire]
          split
          · exact .inr ⟨_, rfl, rfl⟩
          · exact .inl rfl
      | click | validated | acted | drop => exact .inr ⟨_, rfl, rfl⟩

@[simp]
theorem dwell_step (r : ClockedMachine) (s : ClockedStep) : (r.step s).dwell = r.dwell := by
  cases s with
  | pass duration => rfl
  | happens s =>
      cases s with
      | expire id generation =>
          simp only [step, fire]
          split <;> rfl
      | click | validated | acted | drop => rfl

theorem Timely.step (h : r.Timely) (s : ClockedStep) : (r.step s).Timely := by
  have buttons : ∀ id, (r.step s).TimelyAt id := fun id => (h.change id s).timelyAt (h.buttons id)
  rcases r.machine_step s with same | ⟨t, -, steps⟩
  · exact ⟨same ▸ h.consistent, same ▸ h.hasClock, buttons⟩
  · refine ⟨steps ▸ h.consistent.step t, ?_, buttons⟩
    rw [steps, Machine.config_step]
    exact h.hasClock

theorem Timely.run (h : r.Timely) (steps : List ClockedStep) : (r.run steps).Timely := by
  induction steps generalizing r with
  | nil => exact h
  | cons s rest ih => exact ih (h.step s)

theorem dwell_run (r : ClockedMachine) (steps : List ClockedStep) :
    (r.run steps).dwell = r.dwell := by
  induction steps generalizing r with
  | nil => rfl
  | cons s rest ih => exact (ih (r.step s)).trans (r.dwell_step s)

/-! ## Armed reverts in a run on time -/

/-- No armed revert of the button is overdue. -/
def Punctual (r : ClockedMachine) (id : ButtonId) : Prop :=
  ∀ w ∈ r.revertsOf id, r.isArmed w = true → r.now ≤ w.due

theorem Timely.punctual_step (h : r.Timely) (punctual : r.Punctual id) {s : ClockedStep}
    (awaits : r.Awaits id s) : (r.step s).Punctual id := by
  have change := h.change id s
  generalize r.step s = after at change ⊢
  intro w waits armed
  rw [isArmed_iff waits] at armed
  cases change with
  | kept _ slot _ clock older _ =>
      have waited := older w waits
      rw [slot, ← isArmed_iff waited] at armed
      rcases clock with same | ⟨duration, rfl, passed⟩
      · exact same ▸ punctual w waited armed
      · exact passed ▸ awaits w waited armed
  | begins _ _ _ slot | expires _ _ _ slot =>
      rw [slot] at armed
      cases armed
  | ends _ slot now reverts =>
      rw [reverts] at waits
      rw [slot, ← isArmed_iff waits] at armed
      rw [now]
      exact punctual w waits armed
  | succeeds loading slot now reverts =>
      rw [slot] at armed
      rw [reverts] at waits
      rcases List.mem_append.mp waits with old | new
      · have success := (h.buttons id).current w old (Option.some.inj armed).symm
        cases success.symm.trans loading
      · cases List.mem_singleton.mp new
        rw [now]
        exact Nat.le_add_right _ _

theorem Timely.punctual_run (h : r.Timely) (punctual : r.Punctual id) {steps : List ClockedStep}
    (onTime : r.OnTime id steps) : (r.run steps).Punctual id := by
  induction steps generalizing r with
  | nil => exact punctual
  | cons s rest ih => exact ih (h.step s) (h.punctual_step punctual onTime.1) onTime.2

/-! ## How long success lasts -/

/-- Since some time the button is in success until `due`, or it has been idle since then. -/
inductive Dwells (r : ClockedMachine) (id : ButtonId) (due : Nat) (history : List ButtonState) :
    Prop where
  | success (state : r.state id = .success) (same : r.history id = history)
      (allDue : ∀ w ∈ r.revertsOf id, w.generation = (r.slot id).generation → w.due = due)
  | ended (state : r.state id = .idle) (same : r.history id = history ++ [.idle])
      (late : due ≤ r.now)

theorem Dwells.step {due : Nat} {history : List ButtonState} (h : r.Timely)
    (dwells : r.Dwells id due history) {s : ClockedStep}
    (notClicked : ∀ c, s = .happens (.click c) → c.id ≠ id) :
    (r.step s).Dwells id due history := by
  have change := h.change id s
  generalize r.step s = after at change
  cases dwells with
  | success state same allDue =>
      cases change with
      | kept _ slot unchanged clock older armed =>
          refine .success ?_ (unchanged.trans same) fun w member current => ?_
          · rw [ClockedMachine.state, slot]
            exact state
          · exact allDue w (older w member) (slot ▸ current)
      | begins c onButton => exact absurd onButton (notClicked c rfl)
      | ends loading | succeeds loading => cases state.symm.trans loading
      | expires current _ due slot published now reverts =>
          obtain ⟨w, member, isCurrent, due⟩ := due
          refine .ended ?_ (by rw [published, same]) ?_
          · rw [ClockedMachine.state, slot]
          · rw [now, ← allDue w member (isCurrent.trans current.symm)]
            exact due
  | ended state same late =>
      cases change with
      | kept _ slot unchanged clock older armed =>
          have later : r.now ≤ after.now := by
            rcases clock with same | ⟨duration, -, passed⟩
            · exact Nat.le_of_eq same.symm
            · exact passed ▸ Nat.le_add_right _ _
          refine .ended ?_ (unchanged.trans same) (Nat.le_trans late later)
          rw [ClockedMachine.state, slot]
          exact state
      | begins c onButton => exact absurd onButton (notClicked c rfl)
      | ends loading | succeeds loading => cases state.symm.trans loading
      | expires _ success => cases state.symm.trans success

theorem Dwells.run {due : Nat} {history : List ButtonState} (h : r.Timely)
    (dwells : r.Dwells id due history) (steps : List ClockedStep)
    (notClicked : ∀ c, .happens (.click c) ∈ steps → c.id ≠ id) :
    (r.run steps).Dwells id due history := by
  induction steps generalizing r with
  | nil => exact dwells
  | cons s rest ih =>
      refine ih (h.step s) (dwells.step h fun c isClick => ?_) fun c member => ?_
      · exact notClicked c (isClick ▸ List.mem_cons_self)
      · exact notClicked c (List.mem_cons_of_mem s member)

/-- Entering success arms a revert for the end of the dwell. -/
theorem Timely.dwells_of_success (h : r.Timely) {s : ClockedStep} (before : r.state id ≠ .success)
    (entered : (r.step s).state id = .success) :
    (r.step s).now = r.now ∧
      (r.step s).Dwells id (r.now + r.dwell) ((r.step s).history id) := by
  have change := h.change id s
  generalize r.step s = after at change entered
  cases change with
  | kept _ slot =>
      rw [ClockedMachine.state, slot] at entered
      exact absurd entered before
  | begins _ _ _ slot | ends _ slot | expires _ _ _ slot =>
      rw [ClockedMachine.state, slot] at entered
      cases entered
  | succeeds loading slot now reverts =>
      refine ⟨now, .success entered rfl fun w member current => ?_⟩
      rw [slot] at current
      rw [reverts] at member
      rcases List.mem_append.mp member with old | new
      · exact absurd ((h.buttons id).current w old current) before
      · cases List.mem_singleton.mp new
        rfl

theorem Dwells.punctual (h : r.Timely) {due : Nat} {history : List ButtonState}
    (dwells : r.Dwells id due history) (early : r.now ≤ due) : r.Punctual id := by
  intro w waits armed
  rw [isArmed_iff waits] at armed
  cases dwells with
  | success state same allDue =>
      have current := (h.buttons id).armed state
      rw [allDue w waits (Option.some.inj (armed.symm.trans current))]
      exact early
  | ended state =>
      have disarmed := (h.buttons id).disarmed (by rw [state]; exact nofun)
      cases disarmed.symm.trans armed

theorem fire_of_due {w : Revert} (success : r.state w.id = .success) (waits : w ∈ r.reverts)
    (current : (r.slot w.id).generation = w.generation) (due : w.due ≤ r.now) :
    (r.step (.happens (.expire w.id w.generation))).state w.id = .idle ∧
      (r.step (.happens (.expire w.id w.generation))).history w.id = r.history w.id ++ [.idle] := by
  have goesOff : (r.reverts.any fun v => v.id = w.id ∧ v.generation = w.generation ∧
      v.due ≤ r.now) = true := by
    refine List.any_eq_true.mpr ⟨w, waits, ?_⟩
    simpa using due
  have fires : (r.step (.happens (.expire w.id w.generation))).machine =
      r.machine.step (.expire w.id w.generation) := by
    simp only [step, fire, goesOff, if_true]
  have expires : (r.machine.step (.expire w.id w.generation)).table =
      r.machine.table.update w.id ⟨.idle, w.generation, none⟩ [.idle] := if_pos ⟨current, success⟩
  simp only [state, slot, history, Machine.history, fires, expires, SlotTable.slot_update_self,
    SlotTable.history_update_self, and_self]

/-! ## Reverts of older clicks -/

theorem Timely.generation_le_step (h : r.Timely) (id : ButtonId) (s : ClockedStep) :
    (r.slot id).generation ≤ ((r.step s).slot id).generation := by
  have change := h.change id s
  generalize r.step s = after at change
  cases change with
  | kept _ slot | ends _ slot | succeeds _ slot => simp only [slot, Nat.le_refl]
  | begins _ _ _ slot =>
      rw [slot]
      exact Nat.le_succ _
  | expires current _ _ slot =>
      rw [slot]
      exact Nat.le_of_eq current

theorem Timely.generation_le_run (h : r.Timely) (id : ButtonId) (steps : List ClockedStep) :
    (r.slot id).generation ≤ ((r.run steps).slot id).generation := by
  induction steps generalizing r with
  | nil => exact Nat.le_refl _
  | cons s rest ih => exact Nat.le_trans (h.generation_le_step id s) (ih (h.step s))

theorem expire_of_older {m : Machine} {generation : Nat}
    (older : (m.table.slot id).generation ≠ generation) : m.step (.expire id generation) = m := by
  have same : m.table.expire id generation = m.table := if_neg fun applies => older applies.1
  simp only [Machine.step, same]

theorem slot_step_click {c : Click} (free : r.state c.id ≠ .loading) :
    (r.step (.happens (.click c))).slot c.id =
      ⟨.loading, (r.slot c.id).generation + 1, none⟩ := by
  have begins := Machine.step_click_of_free (m := r.machine) free
  simp only [step, act, slot, begins, SlotTable.slot_update_self]

theorem Timely.older_reverts_do_nothing (h : r.Timely) {c : Click}
    (free : r.state c.id ≠ .loading) {w : Revert} (waits : w ∈ r.revertsOf c.id)
    (after : List ClockedStep) :
    ((r.step (.happens (.click c))).run after).machine.step (.expire w.id w.generation) =
      ((r.step (.happens (.click c))).run after).machine := by
  have older := (h.buttons c.id).begun w waits
  have grows := (h.step (.happens (.click c))).generation_le_run c.id after
  rw [slot_step_click free] at grows
  rw [(mem_revertsOf.mp waits).2]
  refine expire_of_older (Nat.ne_of_gt ?_)
  exact Nat.lt_of_lt_of_le (Nat.lt_succ_of_le older) grows

/-! ## Clicks during success -/

theorem exists_run (r : ClockedMachine) (steps : List ClockedStep) :
    ∃ ts, (r.run steps).machine = r.machine.run ts := by
  induction steps generalizing r with
  | nil => exact ⟨[], rfl⟩
  | cons s rest ih =>
      obtain ⟨ts, later⟩ := ih (r.step s)
      rcases r.machine_step s with same | ⟨t, -, steps⟩
      · exact ⟨ts, later.trans (by rw [same])⟩
      · exact ⟨t :: ts, later.trans (by rw [steps]; rfl)⟩

/-- While a click has neither an outcome nor was dropped, its button loads. -/
theorem Timely.loading_until_settled (h : r.Timely) {p : PendingClick}
    (inFlight : p ∈ r.machine.pending) (steps : List ClockedStep)
    (unanswered : (r.run steps).machine.outcome? p.ticket = none)
    (kept : .happens (.drop p.ticket) ∉ steps) :
    (r.run steps).state p.click.id = .loading ∧
      (r.run steps).history p.click.id = r.history p.click.id := by
  induction steps generalizing r p with
  | nil => exact ⟨(h.consistent.holds p inFlight).1, rfl⟩
  | cons s rest ih =>
      have keptLater : .happens (.drop p.ticket) ∉ rest := fun drops =>
        kept (List.mem_cons_of_mem s drops)
      have later := h.step s
      rcases r.machine_step s with same | ⟨t, rfl, steps⟩
      · have history : (r.step s).history p.click.id = r.history p.click.id := by
          rw [ClockedMachine.history, same]
          rfl
        rw [← history]
        exact ih later (same ▸ inFlight) unanswered keptLater
      · rcases h.consistent.stays_or_over inFlight (r.machine.transition_step t) with
          ⟨q, stays, ticket, click, button⟩ | ⟨gone, ended⟩
        · rw [← steps] at stays button
          rw [← ticket] at unanswered keptLater
          obtain ⟨loading, history⟩ := ih later stays unanswered keptLater
          rw [click] at loading history
          exact ⟨loading, history.trans button.history⟩
        · -- A click that is over keeps its outcome to the end.
          obtain ⟨ts, atEnd⟩ := (r.step (.happens t)).exists_run rest
          have past : p.ticket < (r.machine.step t).nextTicket :=
            Nat.lt_of_lt_of_le (h.consistent.begun p inFlight)
              (Machine.nextTicket_le (r.machine.transition_step t))
          have outcomeKept := ((h.consistent.step t).gone_run past gone ts).2.1
          rw [← steps, ← atEnd] at outcomeKept
          rcases ended with answered | rfl
          · have unanswered : ((r.step (.happens t)).run rest).machine.outcome? p.ticket = none :=
              unanswered
            rw [← steps, ← outcomeKept, unanswered] at answered
            cases answered
          · exact absurd List.mem_cons_self kept

/-- In every run of a machine with a clock: a button that has entered success stays there until a
    new click on it begins or the dwell is over. From then on it is idle, once, or its revert makes
    it so; past the dwell it is idle if the run is on time. Reverts of older clicks do nothing, also
    when they go off late. A click that begins during success keeps its button from being idle until
    it has settled. A revert of a button's generation is armed and waits exactly while the button is
    in success. -/
theorem success_lasts_for_its_dwell (hasListener : Bool) (dwell : Nat)
    (before : List ClockedStep) :
    let r := (start hasListener dwell).run before
    (∀ id s after, r.state id ≠ .success → (r.step s).state id = .success →
      (∀ c, .happens (.click c) ∈ after → c.id ≠ id) →
      let entered := r.step s
      let last := entered.run after
      (last.now < entered.now + dwell →
        last.state id = .success ∧ last.history id = entered.history id) ∧
      (entered.OnTime id after → entered.now + dwell < last.now →
        last.state id = .idle ∧ last.history id = entered.history id ++ [.idle]) ∧
      (entered.now + dwell ≤ last.now →
        last.state id = .idle ∧ last.history id = entered.history id ++ [.idle] ∨
        last.state id = .success ∧ last.history id = entered.history id ∧
          let fired := last.step (.happens (.expire id (last.slot id).generation))
          fired.state id = .idle ∧ fired.history id = entered.history id ++ [.idle])) ∧
    (∀ c after, r.state c.id ≠ .loading → ∀ w ∈ r.reverts, w.id = c.id →
      let last := (r.step (.happens (.click c))).run after
      last.machine.step (.expire w.id w.generation) = last.machine) ∧
    (∀ c after, r.state c.id = .success →
      let last := (r.step (.happens (.click c))).run after
      last.machine.outcome? r.machine.nextTicket = none →
      .happens (.drop r.machine.nextTicket) ∉ after →
      last.state c.id = .loading ∧ last.history c.id = r.history c.id ++ [.loading]) ∧
    (∀ id, ((r.slot id).revert = some (r.slot id).generation ↔ r.state id = .success) ∧
      ((∃ w ∈ r.reverts, w.id = id ∧ w.generation = (r.slot id).generation) ↔
        r.state id = .success)) := by
  intro r
  have timely : r.Timely := (timely_start hasListener dwell).run before
  refine ⟨?_, ?_, ?_, ?_⟩
  · intro id s after notBefore isEntered notClicked entered last
    have dwellSame : r.dwell = dwell := dwell_run _ before
    obtain ⟨now, begins⟩ := timely.dwells_of_success notBefore isEntered
    rw [dwellSame, ← now] at begins
    have timelyAfter : entered.Timely := timely.step s
    have punctual := begins.punctual timelyAfter (Nat.le_add_right _ _)
    cases begins.run timelyAfter after notClicked with
    | success state same allDue =>
        have button := (timelyAfter.run after).buttons id
        obtain ⟨w, waits, current⟩ := button.waiting state
        have due := allDue w waits current
        refine ⟨fun _ => ⟨state, same⟩, fun onTime past => ?_, fun atDue => .inr ⟨state, same, ?_⟩⟩
        · have armed := (isArmed_iff waits).mpr (by rw [button.armed state, current])
          have inTime := timelyAfter.punctual_run punctual onTime w waits armed
          exact absurd (Nat.lt_of_lt_of_le past (due ▸ inTime)) (Nat.lt_irrefl _)
        · obtain ⟨inReverts, rfl⟩ := mem_revertsOf.mp waits
          have fires := fire_of_due state inReverts current.symm (due ▸ atDue)
          rw [current, same] at fires
          exact fires
    | ended state same late =>
        refine ⟨fun early => ?_, fun _ _ => ⟨state, same⟩, fun _ => .inl ⟨state, same⟩⟩
        exact absurd (Nat.lt_of_lt_of_le early late) (Nat.lt_irrefl _)
  · intro c after free w waits ofButton
    exact timely.older_reverts_do_nothing free (mem_revertsOf.mpr ⟨waits, ofButton⟩) after
  · intro c after success last unanswered kept
    have free : r.machine.state c.id ≠ .loading := by
      intro loading
      cases success.symm.trans loading
    have begins : (r.step (.happens (.click c))).machine = r.machine.step (.click c) := rfl
    rw [Machine.step_click_of_free free] at begins
    have inFlight : ⟨r.machine.nextTicket, c, (r.slot c.id).generation + 1,
        Machine.firstPhase c⟩ ∈ (r.step (.happens (.click c))).machine.pending := by
      rw [begins]
      exact List.mem_append_right _ List.mem_cons_self
    obtain ⟨loading, history⟩ :=
      (timely.step (.happens (.click c))).loading_until_settled inFlight after unanswered kept
    refine ⟨loading, history.trans ?_⟩
    rw [ClockedMachine.history, begins]
    exact SlotTable.history_update_self _ _ _ _
  · intro id
    have button := timely.buttons id
    refine ⟨⟨fun armed => ?_, button.armed⟩, fun ⟨w, waits, ofButton, current⟩ => ?_, ?_⟩
    · refine Decidable.byContradiction fun other => ?_
      cases (button.disarmed other).symm.trans armed
    · exact button.current w (mem_revertsOf.mpr ⟨waits, ofButton⟩) current
    · intro success
      obtain ⟨w, waits, current⟩ := button.waiting success
      obtain ⟨inReverts, ofButton⟩ := mem_revertsOf.mp waits
      exact ⟨w, inReverts, ofButton, current⟩

/-- A click on a button, whose handler then succeeds. -/
def clicked : List ClockedStep :=
  [.happens (.click ⟨"b", .previous, .form, .empty⟩)]

/-- A dwell of five passes, the revert goes off, and time goes on. -/
def dwelt : List ClockedStep :=
  [.pass 5, .happens (.expire "b" 1), .pass 1]

/-- When the revert is late, so is the end of success. -/
example :
    let entered := ((start true 5).run clicked).step (.happens (.acted 0 none))
    ¬ entered.OnTime "b" [.pass 6] ∧ (entered.run [.pass 6]).state "b" = .success := by decide

theorem success_of_five_is_over_at_six :
    let entered := ((start true 5).run clicked).step (.happens (.acted 0 none))
    let last := entered.run dwelt
    entered.state "b" = .success ∧ last.now = 6 ∧ last.state "b" = .idle ∧
      last.history "b" = [.loading, .success, .idle] := by
  intro entered last
  obtain ⟨lasts, -⟩ := success_lasts_for_its_dwell true 5 clicked
  have entering := lasts "b" (.happens (.acted 0 none)) dwelt (by decide) rfl (by simp [dwelt])
  exact ⟨rfl, rfl, entering.2.1 (by decide) (by decide)⟩

end ClockedMachine

end GatedForms

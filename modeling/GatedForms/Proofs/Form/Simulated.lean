import GatedForms.Simulation
import GatedForms.Proofs.Button.Clock

/-! # Simulations keep to the clock

A simulation lets its alarms go off in the order of their times. What it does to its machine, a
machine on a clock does in a run on time: the alarms that end success are the reverts, and none that
is armed is passed over. For that the simulation needs fuel for every alarm that is due, which it
has.
-/

namespace GatedForms

/-! ## Alarms -/

namespace Alarm

theorem insert_perm (alarm : Alarm) (alarms : List Alarm) :
    (alarm.insert alarms).Perm (alarm :: alarms) := by
  induction alarms with
  | nil => exact .refl _
  | cons first rest ih =>
      simp only [insert]
      split
      · exact .refl _
      · exact (ih.cons first).trans (.swap alarm first rest)

theorem mem_insert {alarm other : Alarm} {alarms : List Alarm} :
    other ∈ alarm.insert alarms ↔ other = alarm ∨ other ∈ alarms := by
  rw [(insert_perm alarm alarms).mem_iff, List.mem_cons]

def Sorted (alarms : List Alarm) : Prop := alarms.Pairwise fun a b => a.due ≤ b.due

theorem sorted_insert {alarms : List Alarm} (alarm : Alarm) (sorted : Sorted alarms) :
    Sorted (alarm.insert alarms) := by
  induction alarms with
  | nil => exact List.pairwise_singleton _ _
  | cons first rest ih =>
      obtain ⟨firstLeast, sortedRest⟩ := List.pairwise_cons.mp sorted
      simp only [insert]
      split
      · next before =>
        refine List.pairwise_cons.mpr ⟨fun other member => ?_, sorted⟩
        rcases List.mem_cons.mp member with rfl | inRest
        · omega
        · have := firstLeast other inRest
          omega
      · next notBefore =>
        refine List.pairwise_cons.mpr ⟨fun other member => ?_, ih sortedRest⟩
        rcases mem_insert.mp member with rfl | inRest
        · omega
        · exact firstLeast other inRest

/-- Two alarms do not revert the same generation of a button. -/
def Apart (a b : Alarm) : Prop :=
  ∀ id generation, a.wake = .revert id generation → b.wake ≠ .revert id generation

theorem Apart.symm {a b : Alarm} (apart : Apart a b) : Apart b a :=
  fun id generation ofB ofA => apart id generation ofA ofB

end Alarm

def Revert.alarm (w : Revert) : Alarm := ⟨w.due, .revert w.id w.generation⟩

theorem Revert.alarm_inj {v w : Revert} : v.alarm = w.alarm ↔ v = w := by
  cases v
  cases w
  simp [Revert.alarm]

/-! ## How often a click wakes -/

namespace Machine

variable {m : Machine}

/-- How many more alarms an alarm of a click can lead to. -/
def remaining (m : Machine) (ticket : Nat) : Nat :=
  match m.pending? ticket with
  | none => 0
  | some p =>
      match p.phase with
      | .validating => 2
      | .acting => 1

theorem remaining_eq {p : PendingClick} (h : m.Consistent) (inFlight : p ∈ m.pending) :
    m.remaining p.ticket = if p.phase = .validating then 2 else 1 := by
  simp only [remaining, h.pending?_of_mem inFlight]
  cases p.phase <;> rfl

theorem remaining_of_gone {ticket : Nat} (gone : ∀ p ∈ m.pending, p.ticket ≠ ticket) :
    m.remaining ticket = 0 := by
  simp only [remaining, pending?_eq_none gone]

theorem remaining_step_le (h : m.Consistent) {t : MachineStep} (notClick : ∀ c, t ≠ .click c)
    (ticket : Nat) : (m.step t).remaining ticket ≤ m.remaining ticket := by
  have transition := m.transition_step t
  have consistent := h.step t
  generalize m.step t = after at transition consistent
  by_cases inFlight : ∃ p ∈ m.pending, p.ticket = ticket
  · obtain ⟨p, inFlight, rfl⟩ := inFlight
    cases h.progress inFlight transition with
    | waits _ stays =>
        simp only [remaining_eq h inFlight, remaining_eq consistent stays, Nat.le_refl]
    | passed transformed validating stays =>
        have later : after.remaining p.ticket = 1 := remaining_eq consistent stays
        simp [remaining_eq h inFlight, validating, later]
    | refused _ _ frees | failed _ _ frees | dropped frees =>
        simp only [remaining_of_gone frees.gone, Nat.zero_le]
    | completed _ gone => simp only [remaining_of_gone gone, Nat.zero_le]
  · have gone : ∀ q ∈ after.pending, q.ticket ≠ ticket := by
      rintro q stays rfl
      rcases origin_step transition stays with ⟨p, before, same, _⟩ | ⟨begins, _⟩
      · exact inFlight ⟨p, before, same⟩
      · exact notClick _ begins
    simp only [remaining_of_gone gone, Nat.zero_le]

theorem Consistent.acting_of_validated (h : m.Consistent) {p q : PendingClick}
    (inFlight : p ∈ m.pending) (validating : p.phase = .validating) {result : Validation}
    (stays : q ∈ (m.step (.validated p.ticket result)).pending) (same : q.ticket = p.ticket) :
    q.phase = .acting := by
  have transition := m.transition_step (.validated p.ticket result)
  have consistent := h.transition transition
  generalize m.step (.validated p.ticket result) = after at transition consistent stays
  cases h.progress inFlight transition with
  | waits unconcerned => exact absurd ⟨rfl, validating⟩ unconcerned
  | passed _ _ acts =>
      rw [consistent.eq_of_ticket stays acts same]
  | refused _ _ frees => exact absurd same (frees.gone q stays)

/-- How often alarms can go off from some alarms on. -/
def weight (m : Machine) : List Alarm → Nat
  | [] => 0
  | alarm :: rest =>
      (match alarm.wake with
        | .resume ticket => 1 + m.remaining ticket
        | .revert _ _ => 1) + m.weight rest

theorem weight_insert (m : Machine) (alarm : Alarm) (alarms : List Alarm) :
    m.weight (alarm.insert alarms) = m.weight (alarm :: alarms) := by
  induction alarms with
  | nil => rfl
  | cons first rest ih =>
      simp only [Alarm.insert]
      split
      · rfl
      · simp only [weight, ih]
        omega

theorem weight_step_le (h : m.Consistent) {t : MachineStep} (notClick : ∀ c, t ≠ .click c)
    (alarms : List Alarm) : (m.step t).weight alarms ≤ m.weight alarms := by
  induction alarms with
  | nil => exact Nat.le_refl _
  | cons alarm rest ih =>
      simp only [weight]
      cases alarm.wake with
      | revert => exact Nat.add_le_add_left ih 1
      | resume ticket =>
          have fewer := remaining_step_le h notClick ticket
          simp only
          omega

theorem length_le_weight (m : Machine) (alarms : List Alarm) :
    alarms.length ≤ m.weight alarms := by
  induction alarms with
  | nil => exact Nat.le_refl _
  | cons alarm rest ih =>
      simp only [weight, List.length_cons]
      cases alarm.wake <;> simp only <;> omega

theorem weight_le (m : Machine) (alarms : List Alarm) : m.weight alarms ≤ 3 * alarms.length := by
  induction alarms with
  | nil => exact Nat.le_refl _
  | cons alarm rest ih =>
      simp only [weight, List.length_cons]
      cases alarm.wake with
      | revert =>
          simp only
          omega
      | resume ticket =>
          have atMostTwo : m.remaining ticket ≤ 2 := by
            simp only [remaining]
            split
            · omega
            · split <;> omega
          simp only
          omega

end Machine

/-! ## Runs on time -/

namespace ClockedMachine

variable {r after last : ClockedMachine}

/-- A run that is on time for every button leads from one machine to the other. -/
def Leads (r after : ClockedMachine) : Prop :=
  ∃ steps, (∀ id, r.OnTime id steps) ∧ r.run steps = after

theorem onTime_append {id : ButtonId} {before later : List ClockedStep}
    (onTime : r.OnTime id before) (onTimeLater : (r.run before).OnTime id later) :
    r.OnTime id (before ++ later) := by
  induction before generalizing r with
  | nil => exact onTimeLater
  | cons s rest ih => exact ⟨onTime.1, ih onTime.2 onTimeLater⟩

theorem Leads.refl (r : ClockedMachine) : r.Leads r := ⟨[], fun _ => trivial, rfl⟩

theorem Leads.trans (leads : r.Leads after) (further : after.Leads last) : r.Leads last := by
  obtain ⟨steps, onTime, rfl⟩ := leads
  obtain ⟨later, onTimeLater, rfl⟩ := further
  exact ⟨steps ++ later, fun id => onTime_append (onTime id) (onTimeLater id), run_append _ _ _⟩

theorem leads_step {s : ClockedStep} (awaits : ∀ id, r.Awaits id s) : r.Leads (r.step s) :=
  ⟨[s], fun id => ⟨awaits id, trivial⟩, rfl⟩

theorem leads_happens (r : ClockedMachine) (s : MachineStep) : r.Leads (r.step (.happens s)) :=
  leads_step fun _ => trivial

end ClockedMachine

/-! ## What a simulation does on its clock -/

namespace Simulation

/-- A machine on a clock is where a simulation is. Its reverts, of which none that is armed is
    overdue, are among the alarms. -/
structure Follows (s : Simulation) (r : ClockedMachine) : Prop where
  timely : r.Timely
  punctual : ∀ id, r.Punctual id
  machine : r.machine = s.run.machine
  dwell : r.dwell = s.dwell
  now : r.now = s.now
  reverts : ∀ w, w ∈ r.reverts ↔ w.alarm ∈ s.alarms
  sorted : Alarm.Sorted s.alarms
  apart : s.alarms.Pairwise Alarm.Apart

/-- From a machine on a clock, a run on time leads to where a simulation is, whose alarms go off so
    often at most. -/
def Reaches (r : ClockedMachine) (s : Simulation) (bound : Nat) : Prop :=
  ∃ after, r.Leads after ∧ s.Follows after ∧ s.run.machine.weight s.alarms ≤ bound

variable {s : Simulation} {r after : ClockedMachine} {p : PendingClick}

namespace Follows

theorem consistent (h : s.Follows r) : s.run.machine.Consistent := h.machine ▸ h.timely.consistent

theorem reaches (h : s.Follows r) {bound : Nat}
    (light : s.run.machine.weight s.alarms ≤ bound) : Reaches r s bound := ⟨r, .refl r, h, light⟩

end Follows

theorem Reaches.of_leads (leads : r.Leads after) {bound : Nat} (reaches : Reaches after s bound) :
    Reaches r s bound := by
  obtain ⟨last, further, follows, light⟩ := reaches
  exact ⟨last, leads.trans further, follows, light⟩

theorem Reaches.mono {bound larger : Nat} (reaches : Reaches r s bound) (le : bound ≤ larger) :
    Reaches r s larger := by
  obtain ⟨last, leads, follows, light⟩ := reaches
  exact ⟨last, leads, follows, Nat.le_trans light le⟩

namespace Follows

theorem acts (h : s.Follows r) (t : MachineStep) (next : Simulation)
    (notExpired : ∀ id generation, t ≠ .expire id generation) (nothing : r.armedBy t = [])
    (machine : next.run.machine = s.run.machine.step t) (dwell : next.dwell = s.dwell)
    (now : next.now = s.now) (alarms : next.alarms = s.alarms) :
    next.Follows (r.step (.happens t)) := by
  have acts := r.step_happens notExpired
  refine
    { timely := h.timely.step _
      punctual := fun id => h.timely.punctual_step (h.punctual id) trivial
      machine := ?_
      dwell := ?_
      now := ?_
      reverts := fun w => ?_
      sorted := alarms ▸ h.sorted
      apart := alarms ▸ h.apart }
  · rw [acts, machine, ← h.machine]
    rfl
  · rw [ClockedMachine.dwell_step, h.dwell, dwell]
  · rw [acts, now, ← h.now]
    rfl
  · rw [acts, alarms, ← h.reverts w, ClockedMachine.act, nothing, List.append_nil]

theorem setResume (h : s.Follows r) (delay ticket : Nat) :
    (s.setAlarm delay (.resume ticket)).Follows r where
  timely := h.timely
  punctual := h.punctual
  machine := h.machine
  dwell := h.dwell
  now := h.now
  reverts := fun w => by simp [setAlarm, Alarm.mem_insert, h.reverts, Revert.alarm]
  sorted := Alarm.sorted_insert _ h.sorted
  apart := by
    refine List.Pairwise.perm ?_ (Alarm.insert_perm _ _).symm Alarm.Apart.symm
    refine List.pairwise_cons.mpr ⟨fun _ _ => ?_, h.apart⟩
    intro id generation resumes
    cases resumes

theorem setRevert (h : s.Follows r) (inFlight : p ∈ s.run.machine.pending)
    (acting : p.phase = .acting) :
    ({ s with run := s.run.step (.acted p.ticket none) }.setAlarm s.dwell
      (.revert p.click.id p.generation)).Follows (r.step (.happens (.acted p.ticket none))) := by
  have found := h.consistent.pending?_of_mem inFlight
  rw [← h.machine] at inFlight found
  have arms := ClockedMachine.armedBy_of_acting found acting
  have holds := h.timely.consistent.holds p inFlight
  -- The button loads, so none of its reverts is of the generation that is about to succeed.
  have isApart : ∀ alarm ∈ s.alarms,
      Alarm.Apart ⟨s.now + s.dwell, .revert p.click.id p.generation⟩ alarm := by
    intro alarm member id generation ofNew ofOld
    cases ofNew
    have waits : ⟨alarm.due, p.click.id, p.generation⟩ ∈ r.reverts := by
      rw [h.reverts, Revert.alarm, ← ofOld]
      exact member
    have success := (h.timely.buttons p.click.id).current _
      (ClockedMachine.mem_revertsOf.mpr ⟨waits, rfl⟩) holds.2.symm
    cases success.symm.trans holds.1
  refine
    { timely := h.timely.step _
      punctual := fun id => h.timely.punctual_step (h.punctual id) trivial
      machine := ?_
      dwell := ?_
      now := h.now
      reverts := fun w => ?_
      sorted := Alarm.sorted_insert _ h.sorted
      apart := ?_ }
  · exact congrArg (fun m => m.step (.acted p.ticket none)) h.machine
  · rw [ClockedMachine.dwell_step]
    exact h.dwell
  · simp only [ClockedMachine.step, ClockedMachine.act, arms, setAlarm, Alarm.mem_insert,
      List.mem_append, List.mem_singleton, h.reverts]
    rw [or_comm, ← Revert.alarm_inj, h.now, h.dwell]
    rfl
  · refine List.Pairwise.perm ?_ (Alarm.insert_perm _ _).symm Alarm.Apart.symm
    exact List.pairwise_cons.mpr ⟨isApart, h.apart⟩

/-! ## Answers -/

theorem finishActing (h : s.Follows r) (inFlight : p ∈ s.run.machine.pending)
    (acting : p.phase = .acting) (plan : Plan) :
    Reaches r (s.finishActing p plan) (s.run.machine.weight s.alarms + 1) := by
  refine ⟨_, r.leads_happens (.acted p.ticket plan.failure), ?_⟩
  have hasClock : s.run.machine.config.hasClock = true := h.machine ▸ h.timely.hasClock
  have lighter : ∀ failure, (s.run.machine.step (.acted p.ticket failure)).weight s.alarms ≤
      s.run.machine.weight s.alarms :=
    fun _ => Machine.weight_step_le h.consistent (by simp) s.alarms
  simp only [Simulation.finishActing, hasClock, Bool.and_true]
  cases plan.failure with
  | some reason =>
      have follows := h.acts (.acted p.ticket (some reason))
        { s with run := s.run.step (.acted p.ticket (some reason)) } nofun rfl rfl rfl rfl rfl
      exact ⟨follows, Nat.le_trans (lighter (some reason)) (Nat.le_add_right _ 1)⟩
  | none =>
      refine ⟨h.setRevert inFlight acting, ?_⟩
      simp only [Option.isNone_none, if_true, setAlarm, Machine.weight_insert, Machine.weight]
      have := lighter none
      simp only [FormRun.step]
      omega

theorem enterActing (h : s.Follows r) (inFlight : p ∈ s.run.machine.pending)
    (acting : p.phase = .acting) (plan : Plan) :
    Reaches r (s.enterActing p plan) (s.run.machine.weight s.alarms + 2) := by
  simp only [Simulation.enterActing]
  split
  · exact (h.finishActing inFlight acting plan).mono (by omega)
  · have remains : s.run.machine.remaining p.ticket = 1 := by
      simp [Machine.remaining_eq h.consistent inFlight, acting]
    refine (h.setResume _ _).reaches ?_
    simp only [setAlarm, Machine.weight_insert, Machine.weight, remains]
    omega

theorem finishValidating (h : s.Follows r) (inFlight : p ∈ s.run.machine.pending)
    (validating : p.phase = .validating) (plan : Plan) :
    Reaches r (s.finishValidating p plan) (s.run.machine.weight s.alarms + 2) := by
  simp only [Simulation.finishValidating]
  generalize plan.validate p.click.values p.click.scope = answer
  have lighter : (s.run.machine.step (.validated p.ticket answer)).weight s.alarms ≤
      s.run.machine.weight s.alarms :=
    Machine.weight_step_le h.consistent (by simp) s.alarms
  have answered := h.acts (.validated p.ticket answer)
    { s with run := s.run.step (.validated p.ticket answer) } nofun rfl rfl rfl rfl rfl
  refine Reaches.of_leads (r.leads_happens (.validated p.ticket answer)) ?_
  split
  · next q found =>
    have stays := Machine.mem_of_pending? found
    have acting := h.consistent.acting_of_validated inFlight validating stays
      (Machine.ticket_of_pending? found)
    exact (answered.enterActing stays acting plan).mono (Nat.add_le_add_right lighter 2)
  · exact answered.reaches (Nat.le_trans lighter (Nat.le_add_right _ 2))

theorem enterValidating (h : s.Follows r) (inFlight : p ∈ s.run.machine.pending)
    (validating : p.phase = .validating) (plan : Plan) :
    Reaches r (s.enterValidating p plan) (s.run.machine.weight s.alarms + 3) := by
  simp only [Simulation.enterValidating]
  split
  · exact (h.finishValidating inFlight validating plan).mono (by omega)
  · have remains : s.run.machine.remaining p.ticket = 2 := by
      simp [Machine.remaining_eq h.consistent inFlight, validating]
    refine (h.setResume _ _).reaches ?_
    simp only [setAlarm, Machine.weight_insert, Machine.weight, remains]
    omega

theorem resume (h : s.Follows r) (ticket : Nat) :
    Reaches r (s.resume ticket)
      (s.run.machine.weight s.alarms + s.run.machine.remaining ticket) := by
  simp only [Simulation.resume]
  split
  · next p plan found _ =>
    have inFlight := Machine.mem_of_pending? found
    have remains := Machine.remaining_eq h.consistent inFlight
    rw [Machine.ticket_of_pending? found] at remains
    split
    · next validating =>
      rw [remains, if_pos validating]
      exact h.finishValidating inFlight validating plan
    · next acting =>
      rw [acting] at remains
      rw [remains]
      exact h.finishActing inFlight acting plan
  · exact h.reaches (Nat.le_add_right _ _)

theorem begin (h : s.Follows r) (c : Click) (plan : Plan) :
    ∃ bound, Reaches r (s.begin c plan).2 bound := by
  have clicked := h.acts (.click c)
    { s with
      run := { s.run with machine := s.run.machine.step (.click c) }
      plans := s.plans ++ [(s.run.machine.nextTicket, plan)] } nofun rfl rfl rfl rfl rfl
  refine ⟨(s.run.machine.step (.click c)).weight s.alarms + 3, ?_⟩
  refine Reaches.of_leads (r.leads_happens (.click c)) ?_
  simp only [Simulation.begin]
  split
  · exact clicked.reaches (Nat.le_add_right _ 3)
  · next p found =>
    have inFlight := Machine.mem_of_pending? found
    split
    · next validating => exact clicked.enterValidating inFlight validating plan
    · next acting => exact (clicked.enterActing inFlight acting plan).mono (by simp)

/-! ## Alarms that go off -/

/-- Up to a limit that no alarm comes before, no armed revert is passed over. -/
theorem awaits (h : s.Follows r) {limit : Nat} (later : ∀ alarm ∈ s.alarms, limit ≤ alarm.due)
    (id : ButtonId) : r.Awaits id (.pass (limit - s.now)) := by
  intro w waits armed
  have notBefore : limit ≤ w.due :=
    later _ ((h.reverts w).mp (ClockedMachine.mem_revertsOf.mp waits).1)
  have inTime := h.punctual id w waits armed
  have now := h.now
  omega

theorem pass (h : s.Follows r) {limit : Nat} (later : ∀ alarm ∈ s.alarms, limit ≤ alarm.due) :
    Follows { s with now := max s.now limit } (r.step (.pass (limit - s.now))) where
  timely := h.timely.step _
  punctual := fun id => h.timely.punctual_step (h.punctual id) (h.awaits later id)
  machine := h.machine
  dwell := h.dwell
  now := by
    have now : (r.step (.pass (limit - s.now))).now = r.now + (limit - s.now) := rfl
    have := h.now
    simp only
    omega
  reverts := h.reverts
  sorted := h.sorted
  apart := h.apart

theorem popResume (h : s.Follows r) {due ticket : Nat} {rest : List Alarm}
    (first : s.alarms = ⟨due, .resume ticket⟩ :: rest) :
    Follows { s with alarms := rest } r where
  timely := h.timely
  punctual := h.punctual
  machine := h.machine
  dwell := h.dwell
  now := h.now
  reverts := fun w => by simp [h.reverts, first, Revert.alarm]
  sorted := (List.pairwise_cons.mp (first ▸ h.sorted)).2
  apart := (List.pairwise_cons.mp (first ▸ h.apart)).2

theorem popRevert (h : s.Follows r) {due generation : Nat} {id : ButtonId} {rest : List Alarm}
    (first : s.alarms = ⟨due, .revert id generation⟩ :: rest) (isDue : due ≤ s.now) :
    Follows { s with alarms := rest, run := s.run.step (.expire id generation) }
      (r.step (.happens (.expire id generation))) := by
  have waits : ⟨due, id, generation⟩ ∈ r.reverts := by
    rw [h.reverts, first]
    exact List.mem_cons_self
  have goesOff : (r.reverts.any fun w => w.id = id ∧ w.generation = generation ∧ w.due ≤ r.now) =
      true := by
    refine List.any_eq_true.mpr ⟨_, waits, ?_⟩
    simpa [h.now] using isDue
  obtain ⟨isApart, apart⟩ := List.pairwise_cons.mp (first ▸ h.apart)
  refine
    { timely := h.timely.step _
      punctual := fun id => h.timely.punctual_step (h.punctual id) trivial
      machine := ?_
      dwell := (r.dwell_step _).trans h.dwell
      now := ?_
      reverts := fun w => ?_
      sorted := (List.pairwise_cons.mp (first ▸ h.sorted)).2
      apart := apart }
  · simp only [ClockedMachine.step, ClockedMachine.fire, goesOff, if_true]
    exact congrArg (fun m => m.step (.expire id generation)) h.machine
  · simp only [ClockedMachine.step, ClockedMachine.fire, goesOff, if_true]
    exact h.now
  · simp only [ClockedMachine.step, ClockedMachine.fire, goesOff, if_true, List.mem_filter,
      h.reverts, first, List.mem_cons]
    constructor
    · rintro ⟨isFirst | inRest, other⟩
      · simp only [Revert.alarm, Alarm.mk.injEq, Wake.revert.injEq] at isFirst
        simp [isFirst] at other
      · exact inRest
    · intro inRest
      refine ⟨.inr inRest, ?_⟩
      have differ := isApart _ inRest id generation rfl
      simpa [Revert.alarm, Decidable.imp_iff_not_or] using differ

theorem first_le (h : s.Follows r) {alarm : Alarm} {rest : List Alarm}
    (first : s.alarms = alarm :: rest) : ∀ other ∈ s.alarms, alarm.due ≤ other.due := by
  rw [first]
  refine List.forall_mem_cons.mpr ⟨Nat.le_refl _, ?_⟩
  exact (List.pairwise_cons.mp (first ▸ h.sorted)).1

/-- When the first alarm has gone off, there are fewer to come. -/
theorem ring (h : s.Follows r) {alarm : Alarm} {rest : List Alarm}
    (first : s.alarms = alarm :: rest) {bound : Nat}
    (light : s.run.machine.weight s.alarms ≤ bound + 1) :
    Reaches r ({ s with alarms := rest }.ring alarm) bound := by
  have passed := h.pass (h.first_le first)
  refine Reaches.of_leads (ClockedMachine.leads_step (h.awaits (h.first_le first))) ?_
  rw [first] at light
  obtain ⟨due, wake⟩ := alarm
  cases wake with
  | resume ticket =>
      refine ((passed.popResume first).resume ticket).mono ?_
      simp only [Machine.weight] at light ⊢
      omega
  | revert id generation =>
      have expired := passed.popRevert first (Nat.le_max_right _ _)
      have lighter : (s.run.machine.step (.expire id generation)).weight rest ≤
          s.run.machine.weight rest := Machine.weight_step_le h.consistent (by simp) rest
      refine ⟨_, ClockedMachine.leads_happens _ (.expire id generation), expired, ?_⟩
      simp only [Machine.weight] at light
      simp only [Simulation.ring, FormRun.step]
      omega

theorem ringUntil (h : s.Follows r) (limit : Nat) {fuel : Nat}
    (light : s.run.machine.weight s.alarms ≤ fuel) :
    ∃ after, r.Leads after ∧ (Simulation.ringUntil limit fuel s).Follows after ∧
      ∀ alarm ∈ (Simulation.ringUntil limit fuel s).alarms, limit ≤ alarm.due := by
  induction fuel generalizing s r with
  | zero =>
      -- Every alarm has its weight, so there is none left.
      refine ⟨r, .refl r, h, fun alarm member => ?_⟩
      have : 0 < s.alarms.length := List.length_pos_of_mem member
      have := s.run.machine.length_le_weight s.alarms
      omega
  | succ fuel ih =>
      simp only [Simulation.ringUntil]
      split
      · next none =>
        refine ⟨r, .refl r, h, fun alarm member => ?_⟩
        rw [none] at member
        cases member
      · next alarm rest first =>
        split
        · next isDue =>
          obtain ⟨after, leads, follows, lighter⟩ := h.ring first light
          obtain ⟨last, further, atEnd, late⟩ := ih follows lighter
          exact ⟨last, leads.trans further, atEnd, late⟩
        · next notDue =>
          refine ⟨r, .refl r, h, fun other member => ?_⟩
          have := h.first_le first other member
          omega

theorem ringWhilePending (h : s.Follows r) (ticket fuel : Nat) :
    ∃ after, r.Leads after ∧ (Simulation.ringWhilePending ticket fuel s).Follows after := by
  induction fuel generalizing s r with
  | zero => exact ⟨r, .refl r, h⟩
  | succ fuel ih =>
      simp only [Simulation.ringWhilePending]
      split
      · next alarm rest _ first =>
        obtain ⟨after, leads, follows, _⟩ := h.ring first (Nat.le_add_right _ 1)
        obtain ⟨last, further, atEnd⟩ := ih follows
        exact ⟨last, leads.trans further, atEnd⟩
      · exact ⟨r, .refl r, h⟩

theorem wait (h : s.Follows r) (duration : Nat) :
    ∃ after, r.Leads after ∧ (s.wait duration).Follows after := by
  obtain ⟨after, leads, follows, late⟩ := h.ringUntil (s.now + duration)
    (s.run.machine.weight_le s.alarms)
  -- Nothing is due any more before the end of the wait.
  exact ⟨_, leads.trans (ClockedMachine.leads_step (follows.awaits late)), follows.pass late⟩

end Follows

/-! ## Everything that is done with a simulation -/

inductive Operation where
  | begin (c : Click) (plan : Plan)
  | wait (duration : Nat)
  | waitFor (ticket : Nat)
  | drop (ticket : Nat)

def operate (s : Simulation) : Operation → Simulation
  | .begin c plan => (s.begin c plan).2
  | .wait duration => s.wait duration
  | .waitFor ticket => s.waitFor ticket
  | .drop ticket => s.drop ticket

theorem follows_start (form : Form) {config : MachineConfig} (hasClock : config.hasClock = true)
    (dwell : Nat) :
    (start form config dwell).Follows (.start config.hasListener dwell) where
  timely := ClockedMachine.timely_start _ _
  punctual := fun _ => nofun
  machine := by
    cases config
    cases hasClock
    rfl
  dwell := rfl
  now := rfl
  reverts := fun _ => ⟨nofun, nofun⟩
  sorted := .nil
  apart := .nil

theorem Follows.operate (h : s.Follows r) (operation : Operation) :
    ∃ after, r.Leads after ∧ (s.operate operation).Follows after := by
  cases operation with
  | begin c plan =>
      obtain ⟨_, after, leads, follows, _⟩ := h.begin c plan
      exact ⟨after, leads, follows⟩
  | wait duration => exact h.wait duration
  | waitFor ticket => exact h.ringWhilePending ticket _
  | drop ticket =>
      exact ⟨_, r.leads_happens (.drop ticket), h.acts (.drop ticket) _ nofun rfl rfl rfl rfl rfl⟩

/-- Whatever is done with a simulation on a clock, a run of a machine on that clock, which is on
    time for every button, leads to the same machine at the same time. -/
theorem follows_clock (form : Form) {config : MachineConfig} (hasClock : config.hasClock = true)
    (dwell : Nat) (operations : List Operation) :
    ∃ last, (ClockedMachine.start config.hasListener dwell).Leads last ∧
      (operations.foldl operate (start form config dwell)).Follows last := by
  have started := follows_start form hasClock dwell
  generalize start form config dwell = s at started
  generalize ClockedMachine.start config.hasListener dwell = r at started
  induction operations generalizing s r with
  | nil => exact ⟨r, .refl r, started⟩
  | cons operation rest ih =>
      obtain ⟨after, leads, follows⟩ := started.operate operation
      obtain ⟨last, further, atEnd⟩ := ih _ _ follows
      exact ⟨last, leads.trans further, atEnd⟩

/-- In a simulation on a clock, a button is in success exactly while the alarm that ends it is still
    to come. -/
theorem success_iff_alarm (form : Form) {config : MachineConfig} (hasClock : config.hasClock = true)
    (dwell : Nat) (operations : List Operation) (id : ButtonId) :
    let s := operations.foldl operate (start form config dwell)
    s.run.machine.state id = .success ↔
      ∃ due, s.now ≤ due ∧
        ⟨due, .revert id (s.run.machine.table.slot id).generation⟩ ∈ s.alarms := by
  intro s
  obtain ⟨last, -, follows⟩ := follows_clock form hasClock dwell operations
  have button := follows.timely.buttons id
  rw [← follows.machine, ← follows.now]
  constructor
  · intro success
    obtain ⟨w, waits, current⟩ := button.waiting success
    have armed := (ClockedMachine.isArmed_iff waits).mpr (by rw [button.armed success, current])
    have inTime := follows.punctual id w waits armed
    obtain ⟨inReverts, rfl⟩ := ClockedMachine.mem_revertsOf.mp waits
    refine ⟨w.due, inTime, ?_⟩
    rw [← ClockedMachine.slot, ← current]
    exact (follows.reverts w).mp inReverts
  · rintro ⟨due, -, inAlarms⟩
    have waits := (follows.reverts ⟨due, id, _⟩).mpr inAlarms
    exact button.current _ (ClockedMachine.mem_revertsOf.mpr ⟨waits, rfl⟩) rfl

end Simulation

end GatedForms

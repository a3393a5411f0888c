import GatedForms.Button.Slot
import GatedForms.Proofs.KeyMap

/-! # Operations on the table of buttons

Every operation changes the slot of one button only. A click is accepted exactly by a button that is
not loading; ending the click of the current generation leaves the button in another state; a
revert never touches a button that is loading.
-/

namespace GatedForms

theorem ButtonState.beq_loading {state : ButtonState} :
    (state == .loading) = true ↔ state = .loading := by
  cases state <;> decide

namespace SlotTable

variable (t : SlotTable) (id : ButtonId)

@[simp]
theorem slot_update_self (slot : Slot) (published : List ButtonState) :
    (t.update id slot published).slot id = slot := by
  simp only [SlotTable.slot, update, KeyMap.find?_insert_self, Option.getD_some]

theorem slot_update_ne {other : ButtonId} (slot : Slot) (published : List ButtonState)
    (differ : id ≠ other) : (t.update id slot published).slot other = t.slot other := by
  simp only [SlotTable.slot, update, KeyMap.find?_insert_ne slot t.slots differ]

theorem accept?_of_loading (loading : t.state id = .loading) : t.accept? id = none := by
  simp only [accept?, show (t.slot id).state = .loading from loading, if_true]

theorem accept?_of_free (free : t.state id ≠ .loading) :
    t.accept? id = some ((t.slot id).generation + 1,
      t.update id ⟨.loading, (t.slot id).generation + 1, none⟩ [.loading]) := by
  simp only [accept?, if_neg (show ¬ (t.slot id).state = .loading from free)]

/-- Some button loads exactly if the table holds a loading slot; every slot can be looked up,
    because no id occurs twice. -/
theorem anyLoading_iff (ordered : KeyMap.Ascending t.slots) :
    t.anyLoading = true ↔ ∃ id, t.state id = .loading := by
  simp only [anyLoading, List.any_eq_true, ButtonState.beq_loading]
  constructor
  · rintro ⟨entry, member, loading⟩
    refine ⟨entry.1, ?_⟩
    have found : KeyMap.find? entry.1 t.slots = some entry.2 := KeyMap.find?_of_mem ordered member
    simpa only [state, SlotTable.slot, found, Option.getD_some] using loading
  · rintro ⟨id, loading⟩
    cases found : KeyMap.find? id t.slots with
    | none => simp [state, SlotTable.slot, found, Slot.fresh] at loading
    | some slot =>
        refine ⟨(id, slot), KeyMap.mem_of_find? found, ?_⟩
        simpa only [state, SlotTable.slot, found, Option.getD_some] using loading

/-- The table `after` differs from `before` in the slot of one button only, and that button no
    longer loads. -/
structure Releases (before after : SlotTable) (id : ButtonId) : Prop where
  others : ∀ other, id ≠ other → after.slot other = before.slot other
  free : after.state id ≠ .loading
  ordered : KeyMap.Ascending before.slots → KeyMap.Ascending after.slots

theorem releases_update {slot : Slot} (published : List ButtonState)
    (free : slot.state ≠ .loading) : t.Releases (t.update id slot published) id where
  others := fun _ differ => slot_update_ne t id slot published differ
  free := by simpa only [state, slot_update_self] using free
  ordered := KeyMap.ascending_insert id slot

theorem releases_settleIdle {generation : Nat} (current : (t.slot id).generation = generation) :
    t.Releases (t.settleIdle id generation) id := by
  simp only [settleIdle, if_pos current]
  exact releases_update t id _ nofun

theorem releases_settleSuccess (hasClock : Bool) {generation : Nat}
    (current : (t.slot id).generation = generation) :
    t.Releases (t.settleSuccess hasClock id generation) id := by
  simp only [settleSuccess, if_pos current]
  split
  · exact releases_update t id _ nofun
  · exact releases_update t id _ nofun

theorem generation_expire (generation : Nat) (other : ButtonId) :
    ((t.expire id generation).slot other).generation = (t.slot other).generation := by
  simp only [expire]
  split
  · next applies =>
    by_cases same : id = other
    · subst same
      rw [slot_update_self, applies.1]
    · rw [slot_update_ne t id _ _ same]
  · rfl

theorem loading_expire_iff (generation : Nat) (other : ButtonId) :
    (t.expire id generation).state other = .loading ↔ t.state other = .loading := by
  simp only [expire, state]
  split
  · next applies =>
    by_cases same : id = other
    · subst same
      simp [slot_update_self, applies.2]
    · rw [slot_update_ne t id _ _ same]
  · rfl

theorem ordered_expire (generation : Nat) (ordered : KeyMap.Ascending t.slots) :
    KeyMap.Ascending (t.expire id generation).slots := by
  simp only [expire]
  split
  · exact KeyMap.ascending_insert id _ ordered
  · exact ordered

end SlotTable

end GatedForms

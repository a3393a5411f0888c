import GatedForms.Proofs.Submission.Revealed
import GatedForms.Proofs.Submission.Toggles

/-! # Payloads submitted again

A payload holds a value for each live field, and every such value is encoded as itself: booleans,
arrays of records without locked values, and nulls for what is not stored. Its radios reveal what
they revealed before, so the same fields are live under it, and it is submitted as it is.
-/

namespace GatedForms

variable {viewer : Viewer} {v payload : Values}

namespace Field

variable {f g : Field} {name : Path} {sectionKey : String}

theorem encoding_of_held (checked : f.check sectionKey = .ok ())
    (held : payload.get? name = some (f.encoding viewer v name)) :
    f.encoding viewer payload name = f.encoding viewer v name := by
  unfold encoding at held ⊢
  cases isKind : f.kind with
  | toggle =>
      simp only [isKind] at held ⊢
      rw [held]
      rfl
  | dynamic nested addButtonLabel =>
      simp only [isKind] at held ⊢
      rw [held]
      have twice : Json.strip (NestedField.lockedNames viewer nested) ∘
          Json.strip (NestedField.lockedNames viewer nested) =
            Json.strip (NestedField.lockedNames viewer nested) :=
        funext (Json.strip_strip (isKeyOnly_of_mem_lockedNames checked isKind))
      simp only [Json.itemsOrEmpty, List.map_map, twice]
  | text | radio | checkbox | button | static =>
      simp only [isKind] at held ⊢
      rw [held]
      rfl

theorem reveals_of_held {position : Nat} (named : f.name = some name)
    (held : payload.get? name = some (f.encoding viewer v name)) :
    f.Reveals payload position g ↔ f.Reveals v position g := by
  have sameValue : ∀ options, f.kind = .radio options →
      (payload.get? name).getD .null = (v.get? name).getD .null := by
    intro options isRadio
    rw [held, encoding, isRadio]
    rfl
  constructor
  · intro reveals
    obtain ⟨own, options, option, ownNamed, isRadio, selected, rest⟩ := reveals
    cases named.symm.trans ownNamed
    rw [sameValue options isRadio] at selected
    exact ⟨name, options, option, named, isRadio, selected, rest⟩
  · intro reveals
    obtain ⟨own, options, option, ownNamed, isRadio, selected, rest⟩ := reveals
    cases named.symm.trans ownNamed
    rw [← sameValue options isRadio] at selected
    exact ⟨name, options, option, named, isRadio, selected, rest⟩

/-- If a payload holds what a field adds to it, the field adds the same to a payload of it. -/
theorem entries_of_held (f : Field) (checked : f.check sectionKey = .ok ())
    (held : ∀ entry ∈ f.entries viewer v, payload.get? entry.1 = some entry.2) :
    f.entries viewer payload = f.entries viewer v := by
  induction f using entries_induct viewer v with
  | nothing f never => rw [entries_of_not_submits never, entries_of_not_submits never]
  | own f name submits never =>
      rw [entries_of_reveals_nothing submits never] at held ⊢
      have ownHeld := List.forall_mem_singleton.mp held
      have stillNever : ∀ position g, ¬ f.Reveals payload position g := by
        intro position g found
        exact never position g ((reveals_of_held submits.named ownHeld).mp found)
      rw [entries_of_reveals_nothing submits stillNever, encoding_of_held checked ownHeld]
  | revealed f name position g submits reveals ih =>
      rw [entries_of_reveals submits reveals] at held ⊢
      obtain ⟨revealedHeld, ownHeld⟩ := List.forall_mem_append.mp held
      have ownHeld := List.forall_mem_singleton.mp ownHeld
      have alsoReveals := (reveals_of_held submits.named ownHeld).mpr reveals
      have revealedChecked : g.check sectionKey = .ok () := by
        obtain ⟨_, _, _, _, isRadio, _, atPosition, isRevealed⟩ := reveals
        exact check_revealed checked isRadio (List.mem_of_getElem? atPosition) isRevealed
      rw [entries_of_reveals submits alsoReveals, encoding_of_held checked ownHeld,
        ih revealedChecked revealedHeld]

end Field

namespace Schema

variable {s : Schema}

theorem Checked.entries_of_held (checked : s.Checked)
    (held : ∀ entry ∈ s.entries viewer v, payload.get? entry.1 = some entry.2) :
    s.entries viewer payload = s.entries viewer v := by
  simp only [entries, List.flatMap_def] at held ⊢
  apply congrArg List.flatten
  apply List.map_congr_left
  intro f inSchema
  obtain ⟨part, inSections, inPart⟩ := List.mem_flatMap.mp inSchema
  apply f.entries_of_held (checked part inSections f inPart)
  intro entry member
  exact held entry (List.mem_flatten_of_mem (List.mem_map_of_mem inSchema) member)

end Schema

/-- If the names of the fields that are live under some values stand apart, then what is submitted
    for them is submitted for itself. -/
theorem Form.submission_is_stable {template : Schema} (obtained : template.Obtainable)
    (paths : List AdminPath) (viewer : Viewer) (policy : ScopePolicy) (v : Values)
    (apart : (Form.build template paths viewer policy).schema.LiveApart viewer v) :
    let form := Form.build template paths viewer policy
    form.submission (form.submission v) = form.submission v := by
  intro form
  have checked : form.schema.Checked := (obtained.gated paths).checked
  have held : ∀ entry ∈ form.schema.entries viewer v,
      (form.submission v).get? entry.1 = some entry.2 := by
    intro entry member
    exact Values.get?_setAll_of_mem checked.isKeyOnly_of_mem_entries apart.pairwise_entries member
  have again := checked.entries_of_held held
  exact congrArg (fun entries => Values.empty.setAll entries) again

/-- A radio that reveals a note while it is not answered, a toggle, and a group of steps. -/
def Schema.sparse : Schema :=
  ⟨"Sparse", "S", [⟨none, "a", [Field.unanswered,
    ⟨some ⟨"a", [.key "on"]⟩, "on", none, false, .toggle⟩, Schema.paced.steps]⟩]⟩

theorem Schema.namesApart_sparse : sparse.NamesApart := by
  refine namesApart_of_list [(⟨0, 0, ⟨[], none⟩⟩, ⟨"a", [.key "mode"]⟩),
    (⟨0, 0, ⟨[0], none⟩⟩, ⟨"a", [.key "note"]⟩), (⟨0, 1, ⟨[], none⟩⟩, ⟨"a", [.key "on"]⟩),
    (⟨0, 2, ⟨[], none⟩⟩, ⟨"a", [.key "steps"]⟩)] ?_ (by decide)
  rintro ⟨sectionIndex, fieldIndex, options, nested⟩ f name isDirect found named
  cases isDirect
  match sectionIndex, fieldIndex, options with
  | 0, 0, [] | 0, 0, [0] | 0, 1, [] | 0, 2, [] =>
      cases found
      cases named
      simp
  | 0, 0, 0 :: _ :: _ | 0, 0, 1 :: _ | 0, 0, (_ + 2) :: _ | 0, 1, _ :: _ | 0, 2, _ :: _
  | 0, _ + 3, _ | _ + 1, _, _ => cases found

/-- Values of a form that was switched on by a text, with one step; the radio is not answered. -/
def Values.sparse : Values :=
  ⟨[("a", .object [("on", .text "yes"),
    ("steps", .array [.object [("gap", .int 1), ("memo", .text "m")]])])]⟩

/-- The radio and its note are submitted as nulls, the toggle as a boolean and the step without its
    gap. All of this is submitted again as it is. -/
theorem Form.sparse_payload_is_stable :
    let form := Form.build .sparse [⟨["S", "a", "gap"]⟩] ⟨false⟩ .wholeForm
    let payload := form.submission .sparse
    payload.get? ⟨"a", [.key "mode"]⟩ = some .null ∧
      payload.get? ⟨"a", [.key "note"]⟩ = some .null ∧
      payload.get? ⟨"a", [.key "on"]⟩ = some (.bool true) ∧
      payload.get? ⟨"a", [.key "steps"]⟩ = some (.array [.object [("memo", .text "m")]]) ∧
      form.submission payload = payload := by
  have accepted : Schema.build Schema.sparse.title Schema.sparse.backendKey
      Schema.sparse.sections = .ok .sparse := rfl
  have apart := (Schema.namesApart_sparse.gate [⟨["S", "a", "gap"]⟩]).liveApart ⟨false⟩ .sparse
  exact ⟨rfl, rfl, rfl, rfl, submission_is_stable (.built accepted) _ ⟨false⟩ .wholeForm .sparse
    apart⟩

end GatedForms

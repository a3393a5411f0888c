import GatedForms.Proofs.Submission.Shown

/-! # The revealed field of a radio

The directive of a radio exposes the field that the selected option reveals, this field is resolved
on its own, and it is submitted along with the radio. All three mean the same field, except that it
is not resolved as long as nothing is stored for the radio.
-/

namespace GatedForms

namespace Field

variable {viewer : Viewer} {v : Values} {messages : Messages} {f g : Field} {name : Path}
  {options : List FieldOption}

theorem exists_reveals_iff (named : f.name = some name) (isRadio : f.kind = .radio options) :
    (∃ position, f.Reveals v position g) ↔
      (FieldOption.select? options ((v.get? name).getD .null)).bind FieldOption.reveals =
        some g := by
  constructor
  · rintro ⟨position, _, _, option, alsoNamed, alsoRadio, selected, atPosition, reveals⟩
    cases named.symm.trans alsoNamed
    cases isRadio.symm.trans alsoRadio
    rw [FieldOption.select?_eq, selected, Option.bind_some, atPosition, Option.bind_some, reveals]
  · intro found
    obtain ⟨option, chosen, reveals⟩ := Option.bind_eq_some_iff.mp found
    obtain ⟨position, selected, atPosition⟩ := FieldOption.select?_eq_some_iff.mp chosen
    exact ⟨position, name, options, option, named, isRadio, selected, atPosition, reveals⟩

theorem resolveRevealed?_eq_some (named : f.name = some name) (isRadio : f.kind = .radio options)
    {d : Directive} :
    f.resolveRevealed? viewer v messages = some d ↔
      ∃ current, v.get? name = some current ∧
        ∃ g, (FieldOption.select? options current).bind FieldOption.reveals = some g ∧
          d = g.resolve viewer v messages := by
  simp only [resolveRevealed?, isRadio, named, Option.bind_some]
  constructor
  · intro resolved
    obtain ⟨current, stored, resolved⟩ := Option.bind_eq_some_iff.mp resolved
    obtain ⟨option, chosen, resolved⟩ := Option.bind_eq_some_iff.mp resolved
    obtain ⟨g, reveals, resolved⟩ := Option.bind_eq_some_iff.mp resolved
    cases resolved
    exact ⟨current, stored, g, by rw [chosen, Option.bind_some, reveals], rfl⟩
  · rintro ⟨current, stored, g, found, rfl⟩
    obtain ⟨option, chosen, reveals⟩ := Option.bind_eq_some_iff.mp found
    rw [stored]
    refine Option.bind_eq_some_iff.mpr ⟨current, rfl, ?_⟩
    refine Option.bind_eq_some_iff.mpr ⟨option, chosen, ?_⟩
    exact Option.bind_eq_some_iff.mpr ⟨g, reveals, rfl⟩

theorem entries_of_radio (named : f.name = some name) (isRadio : f.kind = .radio options)
    (unlocked : f.isLockedFor viewer = false) :
    f.entries viewer v =
      (((FieldOption.select? options ((v.get? name).getD .null)).bind FieldOption.reveals).map
        (Field.entries viewer v)).getD [] ++ [(name, (v.get? name).getD .null)] := by
  have bound : f.isBound = true := isBound_of_kind isRadio
  rw [entries_of_submits ⟨named, bound, unlocked⟩, encoding, isRadio]
  simp only [FieldOption.revealedEntries_eq]

/-- The directive of a radio exposes what the first option with the stored value reveals, null if
    nothing is stored. A viewer who may edit the radio submits the entries of this very field before
    that of the radio. Its directive is the one resolved for the radio, if something is stored. -/
theorem revealed_field_is_found_alike (named : f.name = some name)
    (isRadio : f.kind = .radio options) (viewer : Viewer) (v : Values) (messages : Messages) :
    ∃ views selected revealed,
      (f.resolve viewer v messages).body = .radio views selected revealed ∧
      (∀ g, revealed = some g ↔ ∃ position, f.Reveals v position g) ∧
      (∀ d, f.resolveRevealed? viewer v messages = some d ↔
        (v.get? name).isSome = true ∧ ∃ g, revealed = some g ∧ d = g.resolve viewer v messages) ∧
      (f.isLockedFor viewer = false →
        f.entries viewer v = (revealed.map (Field.entries viewer v)).getD [] ++
          [(name, (v.get? name).getD .null)]) := by
  have body : (f.resolve viewer v messages).body = _ := resolve_body_of_radio isRadio
  rw [named, Option.bind_some] at body
  refine ⟨_, _, _, body, fun g => (exists_reveals_iff named isRadio).symm, fun d => ?_,
    entries_of_radio named isRadio⟩
  rw [resolveRevealed?_eq_some named isRadio]
  cases v.get? name with
  | none =>
      constructor
      · rintro ⟨current, stored, -⟩
        cases stored
      · rintro ⟨stored, -⟩
        cases stored
  | some current => simp

/-- The rate of the paced form is exposed, resolved and submitted while the form is on. -/
theorem rate_is_found_alike :
    (∃ views selected, (Schema.paced.mode.resolve ⟨true⟩ .paced .empty).body =
      .radio views selected (some Schema.paced.rate)) ∧
    Schema.paced.mode.resolveRevealed? ⟨true⟩ .paced .empty =
      some (Schema.paced.rate.resolve ⟨true⟩ .paced .empty) ∧
    Schema.paced.mode.entries ⟨true⟩ .paced =
      [(⟨"a", [.key "rate"]⟩, .int 5), (⟨"a", [.key "mode"]⟩, .bool true)] := by
  obtain ⟨views, selected, revealed, body, exposed, resolved, entries⟩ :=
    revealed_field_is_found_alike (f := Schema.paced.mode) rfl rfl ⟨true⟩ .paced .empty
  have isRate : revealed = some Schema.paced.rate :=
    (exposed _).mpr ⟨0, _, _, _, rfl, rfl, rfl, rfl, rfl⟩
  subst isRate
  exact ⟨⟨views, selected, body⟩, (resolved _).mpr ⟨rfl, _, rfl, rfl⟩, entries rfl⟩

/-- A radio with an option for null, which reveals a note. -/
def unanswered : Field :=
  ⟨some ⟨"a", [.key "mode"]⟩, "mode", none, false,
    .radio [⟨"unset", .null, some note⟩, ⟨"on", .bool true, none⟩]⟩
where
  note : Field := ⟨some ⟨"a", [.key "note"]⟩, "note", none, false, .text .plain none⟩

/-- While nothing is stored, the note is exposed and submitted but not resolved. -/
theorem exposed_note_is_not_resolved :
    (∃ views, (unanswered.resolve ⟨true⟩ .empty .empty).body =
      .radio views (some 0) (some unanswered.note)) ∧
    unanswered.resolveRevealed? ⟨true⟩ .empty .empty = none ∧
    unanswered.isLockedFor ⟨true⟩ = false ∧
    unanswered.entries ⟨true⟩ .empty =
      unanswered.note.entries ⟨true⟩ .empty ++ [(⟨"a", [.key "mode"]⟩, .null)] :=
  ⟨⟨_, rfl⟩, rfl, rfl, rfl⟩

end Field

end GatedForms

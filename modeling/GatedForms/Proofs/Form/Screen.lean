import GatedForms.Form
import GatedForms.Proofs.Schema.Buttons
import GatedForms.Proofs.Submission.Shown

/-! # Buttons on screen

On screen are the directives of the fields of all sections, of what a radio on screen reveals, and
of the fields in the repetitions of a group on screen. Building gives ids to the buttons that stand
in a section, keeps these ids apart and lists these buttons only; gating keeps it so. Such a button
answers a click. A button that a radio reveals is shown like any other, but no click reaches it.
-/

namespace GatedForms

variable {viewer : Viewer} {v : Values} {messages : Messages}

/-! ## What is on screen -/

/-- The directive of a field is on screen. The field is the one at this place of a section or stands
    in it, below as many others as the depth says. -/
inductive Schema.OnScreen (s : Schema) (viewer : Viewer) (v : Values) (messages : Messages)
    (sectionIndex fieldIndex : Nat) : Nat → Field → Directive → Prop where
  | inSection {part : FormSection} {f : Field}
      (atSection : s.sections[sectionIndex]? = some part)
      (atField : part.fields[fieldIndex]? = some f) :
      OnScreen s viewer v messages sectionIndex fieldIndex 0 f (f.resolve viewer v messages)
  | revealed {depth position : Nat} {f g : Field} {d revealed : Directive}
      (above : OnScreen s viewer v messages sectionIndex fieldIndex depth f d)
      (reveals : f.Reveals v position g)
      (resolved : f.resolveRevealed? viewer v messages = some revealed) :
      OnScreen s viewer v messages sectionIndex fieldIndex (depth + 1) g revealed
  | inRepetition {depth position : Nat} {f : Field} {d entry : Directive}
      {nested : List NestedField} {spec : NestedField} {addButtonLabel : String}
      {repetitions : List Repetition} {repetition : Repetition}
      (above : OnScreen s viewer v messages sectionIndex fieldIndex depth f d)
      (isGroup : f.kind = .dynamic nested addButtonLabel)
      (body : d.body = .dynamic addButtonLabel repetitions) (shown : repetition ∈ repetitions)
      (inTemplate : nested[position]? = some spec)
      (inShown : repetition.fields[position]? = some entry) :
      OnScreen s viewer v messages sectionIndex fieldIndex (depth + 1) spec.field entry

namespace Field

variable {f : Field} {path : Option Path} {locked : Bool}

theorem isButton_of_kind {kind : FieldKind} (isKind : f.kind = kind) :
    f.isButton = (kind.tag == .button) := by
  rw [isButton, tag, isKind]

theorem body_resolveAt_eq_button {action : ButtonAction} {id : Option ButtonId} :
    (f.resolveAt viewer v messages path locked).body = .button id action ↔
      f.kind = .button action id := by
  rw [body_resolveAt]
  cases f.kind with
  | button own declared => simp [FieldKind.bodyAt, and_comm]
  | dynamic nested addButtonLabel => cases path <;> simp [FieldKind.bodyAt]
  | text | radio | checkbox | toggle | static => simp [FieldKind.bodyAt]

theorem resolveAt_of_mem_repetitions {nested : List NestedField} {spec : NestedField}
    {addButtonLabel : String} {repetitions : List Repetition} {repetition : Repetition}
    {entry : Directive} {position : Nat} (isGroup : f.kind = .dynamic nested addButtonLabel)
    (body : (f.resolveAt viewer v messages path locked).body =
      .dynamic addButtonLabel repetitions) (shown : repetition ∈ repetitions)
    (inTemplate : nested[position]? = some spec)
    (inShown : repetition.fields[position]? = some entry) :
    ∃ inner innerLocked, entry = spec.field.resolveAt viewer v messages inner innerLocked := by
  rw [body_resolveAt, isGroup] at body
  cases path with
  | none =>
      cases body
      cases shown
  | some group =>
      cases body
      obtain ⟨index, -, rfl⟩ := List.mem_map.mp shown
      rw [NestedField.resolveAll_eq_map, List.getElem?_map, inTemplate] at inShown
      cases inShown
      exact ⟨_, _, rfl⟩

end Field

/-- The field stands at this depth at a place of a section: it is the field there, or below one that
    is no button. -/
def Schema.StandsAt (s : Schema) (sectionIndex fieldIndex depth : Nat) (f : Field) : Prop :=
  ∃ part top, s.sections[sectionIndex]? = some part ∧ part.fields[fieldIndex]? = some top ∧
    (depth = 0 → f = top) ∧ (depth ≠ 0 → top.isButton = false)

theorem Schema.StandsAt.below {s : Schema} {i j depth : Nat} {f : Field}
    (stands : s.StandsAt i j depth f) (notButton : f.isButton = false) (g : Field) :
    s.StandsAt i j (depth + 1) g := by
  obtain ⟨part, top, atSection, atField, isTop, notTop⟩ := stands
  refine ⟨part, top, atSection, atField, nofun, fun _ => ?_⟩
  by_cases atTop : depth = 0
  · exact isTop atTop ▸ notButton
  · exact notTop atTop

namespace Schema.OnScreen

variable {s : Schema} {i j depth : Nat} {f : Field} {d : Directive}

theorem resolved (shown : s.OnScreen viewer v messages i j depth f d) :
    ∃ path locked, d = f.resolveAt viewer v messages path locked := by
  induction shown with
  | inSection => exact ⟨_, _, rfl⟩
  | revealed _ reveals resolved _ =>
      obtain ⟨_, h, alsoReveals, rfl⟩ := Field.exists_reveals_of_resolveRevealed? resolved
      obtain ⟨-, rfl⟩ := reveals.unique alsoReveals
      exact ⟨_, _, rfl⟩
  | inRepetition _ isGroup body shown inTemplate inShown ih =>
      obtain ⟨path, locked, rfl⟩ := ih
      exact Field.resolveAt_of_mem_repetitions isGroup body shown inTemplate inShown

theorem isButton (shown : s.OnScreen viewer v messages i j depth f d) {action : ButtonAction}
    {id : Option ButtonId} (body : d.body = .button id action) : f.kind = .button action id := by
  obtain ⟨path, locked, rfl⟩ := shown.resolved
  exact Field.body_resolveAt_eq_button.mp body

theorem body_of_isButton (shown : s.OnScreen viewer v messages i j depth f d)
    {action : ButtonAction} {id : Option ButtonId} (isButton : f.kind = .button action id) :
    d.body = .button id action := by
  obtain ⟨path, locked, rfl⟩ := shown.resolved
  exact Field.body_resolveAt_eq_button.mpr isButton

theorem standsAt (shown : s.OnScreen viewer v messages i j depth f d) :
    s.StandsAt i j depth f := by
  induction shown with
  | inSection atSection atField =>
      exact ⟨_, _, atSection, atField, fun _ => rfl, fun deeper => absurd rfl deeper⟩
  | revealed _ reveals _ ih =>
      obtain ⟨_, options, _, -, isRadio, -⟩ := reveals
      exact ih.below (Field.isButton_of_kind isRadio) _
  | inRepetition _ isGroup _ _ _ _ ih => exact ih.below (Field.isButton_of_kind isGroup) _

theorem checked (shown : s.OnScreen viewer v messages i j depth f d) (schema : s.Checked) :
    ∃ sectionKey, f.check sectionKey = .ok () := by
  induction shown with
  | inSection atSection atField =>
      exact ⟨_, schema _ (List.mem_of_getElem? atSection) _ (List.mem_of_getElem? atField)⟩
  | revealed _ reveals _ ih =>
      obtain ⟨sectionKey, fieldChecked⟩ := ih
      obtain ⟨_, options, option, -, isRadio, -, atPosition, isRevealed⟩ := reveals
      exact ⟨sectionKey, Field.check_revealed fieldChecked isRadio
        (List.mem_of_getElem? atPosition) isRevealed⟩
  | inRepetition _ isGroup _ _ inTemplate _ ih =>
      obtain ⟨sectionKey, fieldChecked⟩ := ih
      exact ⟨sectionKey, Field.check_nested fieldChecked isGroup (List.mem_of_getElem? inTemplate)⟩

theorem revealed_of_isButton (shown : s.OnScreen viewer v messages i j depth f d)
    (schema : s.Checked) {action : ButtonAction} {id : Option ButtonId}
    (isButton : f.kind = .button action id) :
    depth = 0 ∨ ∃ above radio e position, depth = above + 1 ∧
      s.OnScreen viewer v messages i j above radio e ∧ radio.Reveals v position f := by
  cases shown with
  | inSection => exact .inl rfl
  | revealed above reveals _ => exact .inr ⟨_, _, _, _, rfl, above, reveals⟩
  | inRepetition above isGroup _ _ inTemplate _ =>
      obtain ⟨sectionKey, fieldChecked⟩ := above.checked schema
      have canBeNested :=
        (Field.check_template fieldChecked isGroup _ (List.mem_of_getElem? inTemplate)).1
      rw [Field.tag, isButton] at canBeNested
      cases canBeNested

end Schema.OnScreen

/-! ## Which buttons answer -/

namespace Form

/-- A click on what is shown at a place as a button with this id and action is taken by the form, as
    a click on the button that stands there. -/
def Answers (form : Form) (sectionIndex fieldIndex : Nat) (id : Option ButtonId)
    (action : ButtonAction) : Prop :=
  ∃ own, id = some own ∧
    form.schema.button? own = some ⟨sectionIndex, fieldIndex, own, action⟩ ∧
    ∀ cursor values, form.click? cursor own values =
      some ⟨own, action, form.scopeFor action cursor, values⟩

variable {form : Form} {i j depth : Nat} {f : Field} {d : Directive} {id : Option ButtonId}
  {action : ButtonAction}

theorem answers_iff : form.Answers i j id action ↔
    ∃ own, id = some own ∧ form.schema.button? own = some ⟨i, j, own, action⟩ := by
  constructor
  · rintro ⟨own, isOwn, found, -⟩
    exact ⟨own, isOwn, found⟩
  · rintro ⟨own, isOwn, found⟩
    exact ⟨own, isOwn, found, fun cursor values => by rw [click?, found]; rfl⟩

/-- A button on screen answers exactly if it stands in a section. -/
theorem answers_iff_inSection (wellFormed : form.schema.WellFormed)
    (shown : form.schema.OnScreen viewer v messages i j depth f d)
    (body : d.body = .button id action) : form.Answers i j id action ↔ depth = 0 := by
  have isButton := shown.isButton body
  obtain ⟨part, top, atSection, atField, isTop, notTop⟩ := shown.standsAt
  rw [answers_iff]
  constructor
  · rintro ⟨own, -, found⟩
    obtain ⟨member, -⟩ := wellFormed.button?_eq_some.mp found
    obtain ⟨alsoPart, g, alsoAtSection, alsoAtField, alsoButton⟩ :=
      Schema.mem_sectionButtons_zero.mp member
    cases atSection.symm.trans alsoAtSection
    cases atField.symm.trans alsoAtField
    by_contra deeper
    cases (notTop deeper).symm.trans (Field.isButton_of_kind alsoButton)
  · intro atTop
    cases isTop atTop
    obtain ⟨own, rfl⟩ := wellFormed.exists_id atSection atField isButton
    exact ⟨own, rfl, wellFormed.button?_eq_some.mpr
      ⟨Schema.mem_sectionButtons_zero.mpr ⟨part, f, atSection, atField, isButton⟩, rfl⟩⟩

theorem eq_of_same_id (wellFormed : form.schema.WellFormed) {k l : Nat} {g : Field} {e : Directive}
    {other : ButtonAction} (shown : form.schema.OnScreen viewer v messages i j 0 f d)
    (alsoShown : form.schema.OnScreen viewer v messages k l 0 g e)
    (body : d.body = .button id action) (alsoBody : e.body = .button id other) :
    i = k ∧ j = l ∧ d = e := by
  obtain ⟨own, rfl, found, -⟩ := (answers_iff_inSection wellFormed shown body).mpr rfl
  obtain ⟨_, same, alsoFound, -⟩ := (answers_iff_inSection wellFormed alsoShown alsoBody).mpr rfl
  cases same
  cases found.symm.trans alsoFound
  cases shown with
  | inSection atSection atField =>
      cases alsoShown with
      | inSection alsoAtSection alsoAtField =>
          cases atSection.symm.trans alsoAtSection
          cases atField.symm.trans alsoAtField
          exact ⟨rfl, rfl, rfl⟩

/-- A form takes clicks on the ids that buttons of its sections show, and on no others. -/
theorem click?_isSome_iff (wellFormed : form.schema.WellFormed) (viewer : Viewer) (v : Values)
    (messages : Messages) {cursor : Nat} {id : ButtonId} {values : Values} :
    (form.click? cursor id values).isSome = true ↔ ∃ i j f d action,
      form.schema.OnScreen viewer v messages i j 0 f d ∧ d.body = .button (some id) action := by
  rw [click?, Option.isSome_map, Option.isSome_iff_exists]
  constructor
  · rintro ⟨place, found⟩
    obtain ⟨member, rfl⟩ := wellFormed.button?_eq_some.mp found
    obtain ⟨part, f, atSection, atField, isButton⟩ := Schema.mem_sectionButtons_zero.mp member
    have shown : form.schema.OnScreen viewer v messages _ _ 0 f _ := .inSection atSection atField
    exact ⟨_, _, f, _, place.action, shown, shown.body_of_isButton isButton⟩
  · rintro ⟨i, j, f, d, action, shown, body⟩
    obtain ⟨own, same, found, -⟩ := (answers_iff_inSection wellFormed shown body).mpr rfl
    cases same
    exact ⟨_, found⟩

/-- Whatever the gating, the viewer and the values, a button on screen stands in a section or is
    revealed by a radio. In a section it answers, under an id that no other button in a section
    has; revealed it does not. Clicks are taken on the ids that buttons in sections show and on no
    others. -/
theorem buttons_on_screen {template : Schema} (obtained : template.Obtainable)
    (paths : List AdminPath) (viewer : Viewer) (policy : ScopePolicy) (v : Values)
    (messages : Messages) :
    let form := Form.build template paths viewer policy
    (∀ i j depth f d id action, form.schema.OnScreen viewer v messages i j depth f d →
      d.body = .button id action →
        (form.Answers i j id action ↔ depth = 0) ∧
        (depth = 0 ∨ ∃ above radio e position, depth = above + 1 ∧
          form.schema.OnScreen viewer v messages i j above radio e ∧
          radio.Reveals v position f)) ∧
    (∀ i j k l f g d e id action other, form.schema.OnScreen viewer v messages i j 0 f d →
      form.schema.OnScreen viewer v messages k l 0 g e → d.body = .button id action →
      e.body = .button id other → i = k ∧ j = l ∧ d = e) ∧
    ∀ cursor id values, (form.click? cursor id values).isSome = true ↔ ∃ i j f d action,
      form.schema.OnScreen viewer v messages i j 0 f d ∧ d.body = .button (some id) action := by
  intro form
  have formObtained : form.schema.Obtainable := obtained.gated paths
  have wellFormed := formObtained.wellFormed
  refine ⟨fun i j depth f d id action shown body => ⟨?_, ?_⟩, ?_, fun cursor id values => ?_⟩
  · exact answers_iff_inSection wellFormed shown body
  · exact shown.revealed_of_isButton formObtained.checked (shown.isButton body)
  · intro i j k l f g d e id action other shown alsoShown body alsoBody
    exact eq_of_same_id wellFormed shown alsoShown body alsoBody
  · exact click?_isSome_iff wellFormed viewer v messages

/-- A question whose answer reveals a button, and a row with a button without an id. -/
def asking : List FormSection :=
  [⟨none, "a", [mode]⟩, ⟨none, "row", [⟨none, "Next", none, false, .button .next none⟩]⟩]
where
  go : Field := ⟨none, "Go", none, false, .button .custom (some "go")⟩
  mode : Field :=
    ⟨some ⟨"a", [.key "mode"]⟩, "Mode", none, false, .radio [⟨"On", .bool true, some go⟩]⟩

def ask : Form := .build ⟨"Ask", "S", asking.mapIdx FormSection.fillIds⟩ [] ⟨true⟩ .wholeForm

def answered : Values := ⟨[("a", .object [("mode", .bool true)])]⟩

/-- The button in the row answers, the one that the answer reveals does not. -/
theorem asking_buttons_on_screen :
    ask.Answers 1 0 (some "1:0:NEXT") .next ∧ ¬ ask.Answers 0 0 (some "go") .custom ∧
      (ask.click? 0 "1:0:NEXT" answered).isSome = true := by
  have accepted : Schema.build "Ask" "S" asking =
      .ok ⟨"Ask", "S", asking.mapIdx FormSection.fillIds⟩ := rfl
  obtain ⟨answers, -, clicks⟩ :=
    buttons_on_screen (.built accepted) [] ⟨true⟩ .wholeForm answered .empty
  have next : ask.schema.OnScreen ⟨true⟩ answered .empty 1 0 0 _ _ := .inSection rfl rfl
  have mode : ask.schema.OnScreen ⟨true⟩ answered .empty 0 0 0 _ _ := .inSection rfl rfl
  have go : ask.schema.OnScreen ⟨true⟩ answered .empty 0 0 1 asking.go _ :=
    mode.revealed ⟨_, _, _, rfl, rfl, rfl, rfl, rfl⟩ rfl
  refine ⟨(answers _ _ _ _ _ _ _ next rfl).1.mpr rfl, fun reached => ?_,
    (clicks _ _ _).mpr ⟨_, _, _, _, _, next, rfl⟩⟩
  exact absurd ((answers _ _ _ _ _ _ _ go rfl).1.mp reached) (by decide)

/-- The answer puts a button on screen that can be clicked, but the form knows no button of its
    id. -/
theorem revealed_button_is_unknown :
    (∃ template, Schema.build "Ask" "S" asking = .ok template ∧
      ask = .build template [] ⟨true⟩ .wholeForm) ∧
    ∃ f d, ask.schema.OnScreen ask.viewer answered .empty 0 0 1 f d ∧
      d.body = .button (some "go") .custom ∧ d.editable = true ∧
      ask.schema.button? "go" = none ∧ ∀ cursor values, ask.click? cursor "go" values = none := by
  have mode : ask.schema.OnScreen ask.viewer answered .empty 0 0 0 _ _ := .inSection rfl rfl
  have go : ask.schema.OnScreen ask.viewer answered .empty 0 0 1 asking.go _ :=
    mode.revealed ⟨_, _, _, rfl, rfl, rfl, rfl, rfl⟩ rfl
  exact ⟨⟨_, rfl, rfl⟩, _, _, go, rfl, rfl, rfl, fun cursor values => rfl⟩

end Form

end GatedForms

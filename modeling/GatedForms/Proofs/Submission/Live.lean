import GatedForms.Proofs.Submission.Locked

/-! # Live fields

A field is live if the viewer submits a value for it: it is a top-level field, or the selected
option of a live radio reveals it. A payload is written from one entry per live field.
-/

namespace GatedForms

variable {viewer : Viewer} {v : Values}

theorem FieldOption.select?_eq (options : List FieldOption) (value : Json) :
    select? options value = (selected? options value).bind fun position => options[position]? :=
  List.find?_eq_bind_findIdx?_getElem?

theorem FieldOption.select?_eq_some_iff {options : List FieldOption} {value : Json}
    {option : FieldOption} :
    select? options value = some option ↔
      ∃ position, selected? options value = some position ∧ options[position]? = some option := by
  rw [select?_eq]
  exact Option.bind_eq_some_iff

namespace Field

/-- The field holds a value under a name, and the viewer may edit it. -/
structure Submits (viewer : Viewer) (f : Field) (name : Path) : Prop where
  named : f.name = some name
  bound : f.isBound = true
  unlocked : f.isLockedFor viewer = false

/-- The first option of the radio `f` whose value is the stored one stands at `position` and reveals
    `g`. Where nothing is stored, null counts as stored. -/
def Reveals (v : Values) (f : Field) (position : Nat) (g : Field) : Prop :=
  ∃ name options option, f.name = some name ∧ f.kind = .radio options ∧
    FieldOption.selected? options ((v.get? name).getD .null) = some position ∧
    options[position]? = some option ∧ option.reveals = some g

/-- The field `g`, named `name`, is live in `f`; it is reached through options of radios. -/
inductive LiveIn (viewer : Viewer) (v : Values) : Field → List Nat → Field → Path → Prop where
  | itself {f : Field} {name : Path} (submits : f.Submits viewer name) :
      LiveIn viewer v f [] f name
  | revealed {f g h : Field} {own name : Path} {position : Nat} {rest : List Nat}
      (submits : f.Submits viewer own) (reveals : f.Reveals v position g)
      (inside : LiveIn viewer v g rest h name) : LiveIn viewer v f (position :: rest) h name

def encoding (viewer : Viewer) (v : Values) (f : Field) (name : Path) : Json :=
  match f.kind with
  | .toggle => .bool (Json.isTruthy (v.get? name))
  | .dynamic nested _ =>
      .array ((Json.itemsOrEmpty (v.get? name)).map
        (Json.strip (NestedField.lockedNames viewer nested)))
  | _ => (v.get? name).getD .null

theorem Reveals.unique {f g h : Field} {position other : Nat} (reveals : f.Reveals v position g)
    (alsoReveals : f.Reveals v other h) : position = other ∧ g = h := by
  obtain ⟨name, options, option, named, isRadio, selected, atPosition, isRevealed⟩ := reveals
  obtain ⟨_, _, _, alsoNamed, alsoRadio, alsoSelected, alsoAt, alsoRevealed⟩ := alsoReveals
  cases named.symm.trans alsoNamed
  cases isRadio.symm.trans alsoRadio
  cases selected.symm.trans alsoSelected
  cases atPosition.symm.trans alsoAt
  cases isRevealed.symm.trans alsoRevealed
  exact ⟨rfl, rfl⟩

theorem Reveals.sizeOf_lt {f g : Field} {position : Nat} (reveals : f.Reveals v position g) :
    sizeOf g < sizeOf f := by
  obtain ⟨name, options, option, named, isRadio, selected, atPosition, isRevealed⟩ := reveals
  have inOptions := List.sizeOf_lt_of_mem (List.mem_of_getElem? atPosition)
  obtain ⟨label, value, reveals⟩ := option
  cases isRevealed
  obtain ⟨fieldName, fieldLabel, tooltip, adminOnly, kind⟩ := f
  cases isRadio
  simp only [mk.sizeOf_spec, FieldKind.radio.sizeOf_spec, FieldOption.mk.sizeOf_spec,
    Option.some.sizeOf_spec] at inOptions ⊢
  omega

namespace LiveIn

variable {f g h : Field} {name own : Path} {options : List Nat} {position : Nat}

theorem revealed? (live : LiveIn viewer v f options g name) : f.revealed? options = some g := by
  induction live with
  | itself _ => rfl
  | revealed _ reveals _ ih =>
      obtain ⟨_, _, _, _, isRadio, _, atPosition, isRevealed⟩ := reveals
      rw [revealed?_cons_of_reveals isRadio atPosition isRevealed]
      exact ih

theorem snoc (live : LiveIn viewer v f options g own) (reveals : g.Reveals v position h)
    (submits : h.Submits viewer name) : LiveIn viewer v f (options ++ [position]) h name := by
  induction live with
  | itself ownSubmits => exact .revealed ownSubmits reveals (.itself submits)
  | revealed ownSubmits ownReveals _ ih => exact .revealed ownSubmits ownReveals (ih reveals)

end LiveIn

end Field

/-! ## Entries of one field -/

theorem FieldOption.revealedEntries_eq (current : Json) (options : List FieldOption) :
    revealedEntries viewer v current options =
      (((select? options current).bind FieldOption.reveals).map
        (Field.entries viewer v)).getD [] := by
  induction options with
  | nil => rfl
  | cons option rest ih =>
      rw [revealedEntries_cons]
      cases chosen : option.value.same current with
      | true => simp [select?, chosen]
      | false => simpa [select?, chosen] using ih

namespace Field

theorem entries_of_not_submits {f : Field} (nothing : ∀ name, ¬ f.Submits viewer name) :
    f.entries viewer v = [] := by
  obtain ⟨name, label, tooltip, adminOnly, kind⟩ := f
  cases name with
  | none => rfl
  | some name =>
      simp only [entries]
      split
      · rfl
      · next unlocked =>
        cases kind with
        | text | radio | checkbox | toggle | dynamic =>
            exact absurd ⟨rfl, rfl, (Bool.not_eq_true _).mp unlocked⟩ (nothing name)
        | button | static => rfl

theorem entries_of_submits {f : Field} {name : Path} (submits : f.Submits viewer name) :
    f.entries viewer v =
      (match f.kind with
        | .radio options =>
            FieldOption.revealedEntries viewer v ((v.get? name).getD .null) options
        | _ => []) ++ [(name, f.encoding viewer v name)] := by
  obtain ⟨fieldName, label, tooltip, adminOnly, kind⟩ := f
  obtain ⟨rfl, bound, unlocked⟩ := submits
  have unlocked : (adminOnly && !viewer.isPrivileged) = false := unlocked
  simp only [entries, unlocked, Bool.false_eq_true, if_false]
  cases kind with
  | text | radio | checkbox | toggle | dynamic => rfl
  | button | static => cases bound

theorem entries_of_reveals {f g : Field} {name : Path} {position : Nat}
    (submits : f.Submits viewer name) (reveals : f.Reveals v position g) :
    f.entries viewer v = g.entries viewer v ++ [(name, f.encoding viewer v name)] := by
  obtain ⟨own, options, option, named, isRadio, selected, atPosition, isRevealed⟩ := reveals
  cases named.symm.trans submits.named
  have chosen := FieldOption.select?_eq_some_iff.mpr ⟨position, selected, atPosition⟩
  rw [entries_of_submits submits, isRadio]
  simp only [FieldOption.revealedEntries_eq, chosen, Option.bind_some, isRevealed, Option.map_some,
    Option.getD_some]

theorem entries_of_reveals_nothing {f : Field} {name : Path} (submits : f.Submits viewer name)
    (nothing : ∀ position g, ¬ f.Reveals v position g) :
    f.entries viewer v = [(name, f.encoding viewer v name)] := by
  rw [entries_of_submits submits]
  split
  · next options isRadio =>
    cases found : (FieldOption.select? options ((v.get? name).getD .null)).bind
        FieldOption.reveals with
    | none => simp only [FieldOption.revealedEntries_eq, found, Option.map_none, Option.getD_none,
        List.nil_append]
    | some g =>
        obtain ⟨option, chosen, isRevealed⟩ := Option.bind_eq_some_iff.mp found
        obtain ⟨position, selected, atPosition⟩ := FieldOption.select?_eq_some_iff.mp chosen
        exact absurd ⟨name, options, option, submits.named, isRadio, selected, atPosition,
          isRevealed⟩ (nothing position g)
  · rfl

/-- Induction along what a field adds to a payload: nothing, its own value only, or also what it
    reveals. -/
theorem entries_induct (viewer : Viewer) (v : Values) {motive : Field → Prop}
    (nothing : ∀ f, (∀ name, ¬ Submits viewer f name) → motive f)
    (own : ∀ f name, Submits viewer f name → (∀ position g, ¬ Reveals v f position g) → motive f)
    (revealed : ∀ f name position g, Submits viewer f name → Reveals v f position g → motive g →
      motive f)
    (f : Field) : motive f := by
  by_cases submits : ∃ name, f.Submits viewer name
  · obtain ⟨name, submits⟩ := submits
    by_cases reveals : ∃ position g, f.Reveals v position g
    · obtain ⟨position, g, reveals⟩ := reveals
      exact revealed f name position g submits reveals
        (entries_induct viewer v nothing own revealed g)
    · exact own f name submits fun position g found => reveals ⟨position, g, found⟩
  · exact nothing f fun name found => submits ⟨name, found⟩
termination_by sizeOf f
decreasing_by exact reveals.sizeOf_lt

/-- A field adds one entry for each field that is live in it, and no others. -/
theorem mem_entries (f : Field) (entry : Path × Json) :
    entry ∈ f.entries viewer v ↔
      ∃ options g, LiveIn viewer v f options g entry.1 ∧
        entry.2 = g.encoding viewer v entry.1 := by
  induction f using entries_induct viewer v with
  | nothing f never =>
      rw [entries_of_not_submits never]
      refine ⟨nofun, ?_⟩
      rintro ⟨options, h, live, encoded⟩
      cases live with
      | itself own | revealed own => exact absurd own (never _)
  | own f name submits never =>
      rw [entries_of_reveals_nothing submits never, List.mem_singleton]
      constructor
      · rintro rfl
        exact ⟨[], f, .itself submits, rfl⟩
      · rintro ⟨options, h, live, encoded⟩
        cases live with
        | itself own =>
            cases submits.named.symm.trans own.named
            exact Prod.ext rfl encoded
        | revealed _ found _ => exact absurd found (never _ _)
  | revealed f name position g submits reveals ih =>
      rw [entries_of_reveals submits reveals, List.mem_append, ih, List.mem_singleton]
      constructor
      · rintro (⟨options, h, live, encoded⟩ | rfl)
        · exact ⟨position :: options, h, .revealed submits reveals live, encoded⟩
        · exact ⟨[], f, .itself submits, rfl⟩
      · rintro ⟨options, h, live, encoded⟩
        cases live with
        | itself own =>
            cases submits.named.symm.trans own.named
            exact .inr (Prod.ext rfl encoded)
        | revealed own alsoReveals inside =>
            obtain ⟨rfl, rfl⟩ := reveals.unique alsoReveals
            exact .inl ⟨_, h, inside, encoded⟩

theorem pairwise_entries (f : Field)
    (apart : ∀ options others g h name otherName, options ≠ others →
      LiveIn viewer v f options g name → LiveIn viewer v f others h otherName →
      name.Apart otherName) :
    (f.entries viewer v).Pairwise fun a b => a.1.Apart b.1 := by
  induction f using entries_induct viewer v with
  | nothing f never =>
      rw [entries_of_not_submits never]
      exact .nil
  | own f name submits never =>
      rw [entries_of_reveals_nothing submits never]
      exact List.pairwise_singleton _ _
  | revealed f name position g submits reveals ih =>
      rw [entries_of_reveals submits reveals]
      refine List.pairwise_append.mpr ⟨?_, List.pairwise_singleton _ _, ?_⟩
      · refine ih fun options others h k name otherName differ live other => ?_
        exact apart (position :: options) (position :: others) h k name otherName
          (fun same => differ (List.cons.inj same).2) (.revealed submits reveals live)
          (.revealed submits reveals other)
      · intro entry inRevealed own isOwn
        cases List.mem_singleton.mp isOwn
        obtain ⟨options, h, live, -⟩ := (mem_entries g entry).mp inRevealed
        exact apart (position :: options) [] h f entry.1 name nofun
          (.revealed submits reveals live) (.itself submits)

end Field

/-! ## Live fields of a schema -/

theorem pairwise_flatMap_of_getElem? {α β : Type} {R : β → β → Prop} {l : List α}
    {f : α → List β} (inside : ∀ (i : Nat) a, l[i]? = some a → (f a).Pairwise R)
    (across : ∀ (i j : Nat) a b, i ≠ j → l[i]? = some a → l[j]? = some b →
      ∀ x ∈ f a, ∀ y ∈ f b, R x y) :
    (l.flatMap f).Pairwise R := by
  refine List.pairwise_flatMap.mpr ⟨fun a member => ?_, ?_⟩
  · obtain ⟨i, atIndex⟩ := List.mem_iff_getElem?.mp member
    exact inside i a atIndex
  · refine List.pairwise_iff_getElem.mpr fun i j iInside jInside before => ?_
    exact across i j _ _ (Nat.ne_of_lt before) (List.getElem?_eq_getElem iInside)
      (List.getElem?_eq_getElem jInside)

namespace Schema

variable {s : Schema}

/-- The field `f` at a place, named `name`, is live. -/
inductive Live (s : Schema) (viewer : Viewer) (v : Values) : FieldPlace → Field → Path → Prop where
  | top {sectionIndex fieldIndex : Nat} {part : FormSection} {f : Field} {name : Path}
      (atSection : s.sections[sectionIndex]? = some part)
      (atField : part.fields[fieldIndex]? = some f) (submits : f.Submits viewer name) :
      Live s viewer v ⟨sectionIndex, fieldIndex, ⟨[], none⟩⟩ f name
  /-- The selected option of a live radio reveals it. -/
  | revealed {sectionIndex fieldIndex : Nat} {options : List Nat} {f g : Field} {own name : Path}
      {position : Nat} (above : Live s viewer v ⟨sectionIndex, fieldIndex, ⟨options, none⟩⟩ f own)
      (reveals : f.Reveals v position g) (submits : g.Submits viewer name) :
      Live s viewer v ⟨sectionIndex, fieldIndex, ⟨options ++ [position], none⟩⟩ g name

/-- The names of different live fields stand apart. -/
def LiveApart (s : Schema) (viewer : Viewer) (v : Values) : Prop :=
  ∀ place other f g name otherName, place ≠ other → s.Live viewer v place f name →
    s.Live viewer v other g otherName → name.Apart otherName

namespace Live

variable {place : FieldPlace} {f : Field} {name : Path}

theorem submits (live : s.Live viewer v place f name) : f.Submits viewer name := by
  cases live with
  | top _ _ submits | revealed _ _ submits => exact submits

theorem exists_top (live : s.Live viewer v place f name) :
    place.descent.nested = none ∧ ∃ part top, s.sections[place.sectionIndex]? = some part ∧
      part.fields[place.fieldIndex]? = some top ∧
      top.LiveIn viewer v place.descent.options f name := by
  induction live with
  | top atSection atField submits => exact ⟨rfl, _, _, atSection, atField, .itself submits⟩
  | revealed _ reveals submits ih =>
      obtain ⟨isDirect, part, top, atSection, atField, above⟩ := ih
      exact ⟨rfl, part, top, atSection, atField, above.snoc reveals submits⟩

theorem of_liveIn {sectionIndex fieldIndex : Nat} {part : FormSection} {top : Field}
    {options : List Nat} (atSection : s.sections[sectionIndex]? = some part)
    (atField : part.fields[fieldIndex]? = some top)
    (live : top.LiveIn viewer v options f name) :
    s.Live viewer v ⟨sectionIndex, fieldIndex, ⟨options, none⟩⟩ f name := by
  -- On the way from the outermost field inwards, `above` are the options passed so far.
  suffices further : ∀ above, (∀ own, top.Submits viewer own →
      s.Live viewer v ⟨sectionIndex, fieldIndex, ⟨above, none⟩⟩ top own) →
      s.Live viewer v ⟨sectionIndex, fieldIndex, ⟨above ++ options, none⟩⟩ f name from
    further [] fun _ submits => .top atSection atField submits
  clear atField
  induction live with
  | itself submits =>
      intro above reached
      rw [List.append_nil]
      exact reached _ submits
  | @revealed g _ _ _ _ position rest submits reveals _ ih =>
      intro above reached
      rw [List.append_cons]
      exact ih (above ++ [position]) fun _ further => .revealed (reached _ submits) reveals further

theorem at? (live : s.Live viewer v place f name) : s.at? place = some f := by
  obtain ⟨isDirect, part, top, atSection, atField, inTop⟩ := live.exists_top
  simp only [Schema.at?, atSection, atField, Option.bind_some, Field.at?, isDirect,
    inTop.revealed?]

end Live

/-- The names of all different fields stand apart, those of nested fields aside. -/
def NamesApart (s : Schema) : Prop :=
  ∀ place other f g name otherName, place ≠ other → place.descent.nested = none →
    other.descent.nested = none → s.at? place = some f → s.at? other = some g →
    f.isBound = true → g.isBound = true → f.name = some name → g.name = some otherName →
    name.Apart otherName

/-- It is enough to list all fields that are not nested with their names. -/
theorem namesApart_of_list (names : List (FieldPlace × Path))
    (listed : ∀ place f name, place.descent.nested = none → s.at? place = some f →
      f.name = some name → (place, name) ∈ names)
    (apart : ∀ a ∈ names, ∀ b ∈ names, a.1 ≠ b.1 → a.2.Apart b.2) : s.NamesApart := by
  intro place other f g name otherName differ isDirect alsoDirect found alsoFound _ _ named
    alsoNamed
  exact apart (place, name) (listed place f name isDirect found named) (other, otherName)
    (listed other g otherName alsoDirect alsoFound alsoNamed) differ

theorem NamesApart.liveApart (apart : s.NamesApart) (viewer : Viewer) (v : Values) :
    s.LiveApart viewer v := by
  intro place other f g name otherName differ live alsoLive
  exact apart place other f g name otherName differ live.exists_top.1 alsoLive.exists_top.1
    live.at? alsoLive.at? live.submits.bound alsoLive.submits.bound live.submits.named
    alsoLive.submits.named

theorem NamesApart.gate (apart : s.NamesApart) (paths : List AdminPath) :
    (s.gate paths).NamesApart := by
  have ungated : ∀ place f, place.descent.nested = none → (s.gate paths).at? place = some f →
      ∃ g, s.at? place = some g ∧ f.name = g.name ∧ f.isBound = g.isBound := by
    rintro ⟨sectionIndex, fieldIndex, options, nested⟩ f isDirect found
    cases isDirect
    obtain ⟨part, atSection, found⟩ := Option.bind_eq_some_iff.mp found
    rw [sections_gate, List.getElem?_map] at atSection
    obtain ⟨before, sectionBefore, rfl⟩ := Option.map_eq_some_iff.mp atSection
    obtain ⟨top, atField, found⟩ := Option.bind_eq_some_iff.mp found
    rw [List.getElem?_map] at atField
    obtain ⟨topBefore, fieldBefore, rfl⟩ := Option.map_eq_some_iff.mp atField
    simp only [Schema.at?, sectionBefore, fieldBefore, Option.bind_some]
    exact Field.revealed?_of_gate found
  intro place other f g name otherName differ isDirect alsoDirect found alsoFound bound alsoBound
    named alsoNamed
  obtain ⟨_, before, sameName, sameBound⟩ := ungated place f isDirect found
  obtain ⟨_, alsoBefore, alsoSameName, alsoSameBound⟩ := ungated other g alsoDirect alsoFound
  rw [sameName] at named
  rw [alsoSameName] at alsoNamed
  rw [sameBound] at bound
  rw [alsoSameBound] at alsoBound
  exact apart place other _ _ name otherName differ isDirect alsoDirect before alsoBefore bound
    alsoBound named alsoNamed

/-! ## Entries of a schema -/

theorem entries_eq (s : Schema) :
    s.entries viewer v =
      s.sections.flatMap fun part => part.fields.flatMap (Field.entries viewer v) := by
  rw [entries, fields, List.flatMap_assoc]

theorem mem_entries (s : Schema) (entry : Path × Json) :
    entry ∈ s.entries viewer v ↔
      ∃ place f, s.Live viewer v place f entry.1 ∧ entry.2 = f.encoding viewer v entry.1 := by
  rw [entries_eq]
  constructor
  · intro member
    obtain ⟨part, inSchema, member⟩ := List.mem_flatMap.mp member
    obtain ⟨top, inSection, member⟩ := List.mem_flatMap.mp member
    obtain ⟨options, f, live, encoded⟩ := (top.mem_entries entry).mp member
    obtain ⟨sectionIndex, atSection⟩ := List.mem_iff_getElem?.mp inSchema
    obtain ⟨fieldIndex, atField⟩ := List.mem_iff_getElem?.mp inSection
    exact ⟨_, f, .of_liveIn atSection atField live, encoded⟩
  · rintro ⟨place, f, live, encoded⟩
    obtain ⟨-, part, top, atSection, atField, inTop⟩ := live.exists_top
    refine List.mem_flatMap.mpr ⟨part, List.mem_of_getElem? atSection, ?_⟩
    refine List.mem_flatMap.mpr ⟨top, List.mem_of_getElem? atField, ?_⟩
    exact (top.mem_entries entry).mpr ⟨_, f, inTop, encoded⟩

theorem LiveApart.across (apart : s.LiveApart viewer v) {sectionIndex otherSection : Nat}
    {part otherPart : FormSection} (atSection : s.sections[sectionIndex]? = some part)
    (atOther : s.sections[otherSection]? = some otherPart) {fieldIndex otherField : Nat}
    {top otherTop : Field} (atField : part.fields[fieldIndex]? = some top)
    (atOtherField : otherPart.fields[otherField]? = some otherTop)
    (differ : sectionIndex = otherSection → fieldIndex ≠ otherField) :
    ∀ entry ∈ top.entries viewer v, ∀ other ∈ otherTop.entries viewer v,
      entry.1.Apart other.1 := by
  intro entry member other inOther
  obtain ⟨options, f, live, -⟩ := (top.mem_entries entry).mp member
  obtain ⟨others, g, alsoLive, -⟩ := (otherTop.mem_entries other).mp inOther
  refine apart _ _ f g _ _ ?_ (.of_liveIn atSection atField live)
    (.of_liveIn atOther atOtherField alsoLive)
  rintro ⟨⟩
  exact differ rfl rfl

theorem LiveApart.pairwise_entries (apart : s.LiveApart viewer v) :
    (s.entries viewer v).Pairwise fun a b => a.1.Apart b.1 := by
  rw [entries_eq]
  refine pairwise_flatMap_of_getElem? ?_ ?_
  · intro sectionIndex part atSection
    refine pairwise_flatMap_of_getElem? ?_ ?_
    · intro fieldIndex top atField
      refine top.pairwise_entries fun options others f g name otherName differ live other => ?_
      refine apart _ _ f g name otherName ?_ (.of_liveIn atSection atField live)
        (.of_liveIn atSection atField other)
      rintro ⟨⟩
      exact differ rfl
    · intro fieldIndex otherField top otherTop differ atField atOtherField
      exact apart.across atSection atSection atField atOtherField fun _ => differ
  · intro sectionIndex otherSection part otherPart differ atSection atOther entry member other
      inOther
    obtain ⟨top, inSection, member⟩ := List.mem_flatMap.mp member
    obtain ⟨otherTop, inOtherSection, inOther⟩ := List.mem_flatMap.mp inOther
    obtain ⟨fieldIndex, atField⟩ := List.mem_iff_getElem?.mp inSection
    obtain ⟨otherField, atOtherField⟩ := List.mem_iff_getElem?.mp inOtherSection
    exact apart.across atSection atOther atField atOtherField (fun same => absurd same differ)
      entry member other inOther

end Schema

end GatedForms

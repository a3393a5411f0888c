import GatedForms.Proofs.Schema.RoundTrip
import GatedForms.Proofs.Submission.Shown
import GatedForms.Proofs.Validation.Binding
import GatedForms.Proofs.Validation.Outcome

/-! # Messages that can be seen

A validator looks for fields under all options of all radios, and viewers see what is revealed under
the selected ones. The message of a field that no radio reveals now blocks a form unseen; all other
messages are shown.
-/

namespace GatedForms

variable {viewer : Viewer} {v : Values} {messages : Messages}

/-! ## Revealed places -/

namespace Field

/-- The radio stores the value of the option at a position, and no option before it has this
    value. -/
def Selects (v : Values) (f : Field) (position : Nat) : Prop :=
  ∃ name options value, f.name = some name ∧ f.kind = .radio options ∧ v.get? name = some value ∧
    FieldOption.selected? options value = some position

theorem Selects.of_resolveRevealed? {f g : Field} {d : Directive} {position : Nat}
    (reveals : f.Reveals v position g) (resolved : f.resolveRevealed? viewer v messages = some d) :
    f.Selects v position := by
  obtain ⟨name, options, option, named, isRadio, selected, -, -⟩ := reveals
  simp only [resolveRevealed?, isRadio, named, Option.bind_some] at resolved
  obtain ⟨value, stored, -⟩ := Option.bind_eq_some_iff.mp resolved
  rw [stored, Option.getD_some] at selected
  exact ⟨name, options, value, named, isRadio, stored, selected⟩

theorem Selects.resolve {f g : Field} {options : List FieldOption} {option : FieldOption}
    {position : Nat} (selects : f.Selects v position) (isRadio : f.kind = .radio options)
    (atPosition : options[position]? = some option) (isRevealed : option.reveals = some g) :
    (f.resolve viewer v messages).body =
        .radio (options.map FieldOption.view) (some position) (some g) ∧
      f.resolveRevealed? viewer v messages = some (g.resolve viewer v messages) := by
  obtain ⟨name, _, value, named, alsoRadio, stored, selected⟩ := selects
  cases isRadio.symm.trans alsoRadio
  have chosen := FieldOption.select?_eq_some_iff.mpr ⟨position, selected, atPosition⟩
  constructor
  · rw [resolve_body_of_radio isRadio]
    simp only [named, Option.bind_some, stored, Option.getD_some, selected, chosen, isRevealed]
  · simp only [resolveRevealed?, isRadio, named, Option.bind_some, stored, chosen, isRevealed,
      bind, pure]

end Field

namespace Schema

variable {s : Schema} {place : FieldPlace} {f : Field}

/-- Every radio above a place stores the value of the option that leads there. -/
def Revealed (s : Schema) (v : Values) (place : FieldPlace) : Prop :=
  ∀ above position below, place.descent.options = above ++ position :: below →
    ∃ radio, s.at? ⟨place.sectionIndex, place.fieldIndex, ⟨above, none⟩⟩ = some radio ∧
      radio.Selects v position

theorem Shows.revealed_place {underLocked : Bool} {d : Directive}
    (shown : s.Shows viewer v messages place underLocked f d) : s.Revealed v place := by
  induction shown with
  | top => exact fun above position below split => by simp at split
  | @revealed sectionIndex fieldIndex options _ f g d _ _ selected shownAbove body resolved ih =>
      intro above position below split
      have split : options ++ [selected] = above ++ position :: below := split
      rcases List.eq_nil_or_concat below with rfl | ⟨inner, last, rfl⟩
      · obtain ⟨rfl, same⟩ := List.append_inj' split rfl
        cases same
        cases shownAbove.resolved
        have reveals := (Field.reveals_of_resolveRevealed? body resolved).1
        exact ⟨f, shownAbove.at?.2, .of_resolveRevealed? reveals resolved⟩
      · rw [List.concat_eq_append, ← List.cons_append, ← List.append_assoc] at split
        exact ih above position inner (List.append_inj' split rfl).1

/-- What stands at a revealed place is shown. The induction is on the options that are left, with
    the field shown so far. -/
theorem Revealed.shows_below {sectionIndex fieldIndex : Nat} (done : List Nat) {rest : List Nat}
    {g : Field} {underLocked : Bool} {d : Directive}
    (revealed : s.Revealed v ⟨sectionIndex, fieldIndex, ⟨done ++ rest, none⟩⟩)
    (shown : s.Shows viewer v messages ⟨sectionIndex, fieldIndex, ⟨done, none⟩⟩ underLocked g d)
    (found : g.revealed? rest = some f) :
    ∃ locked, s.Shows viewer v messages ⟨sectionIndex, fieldIndex, ⟨done ++ rest, none⟩⟩ locked f
      (f.resolve viewer v messages) := by
  induction rest generalizing done g underLocked d with
  | nil =>
      cases found
      rw [List.append_nil]
      exact ⟨underLocked, shown.resolved ▸ shown⟩
  | cons position rest ih =>
      obtain ⟨options, option, inner, isRadio, atPosition, isRevealed, found⟩ :=
        Field.revealed?_cons_eq_some found
      obtain ⟨radio, atAbove, selects⟩ := revealed done position rest rfl
      cases shown.at?.2.symm.trans atAbove
      cases shown.resolved
      obtain ⟨body, resolved⟩ := selects.resolve isRadio atPosition isRevealed
      have next := shown.revealed body resolved
      rw [List.append_cons] at revealed ⊢
      exact ih _ revealed next found

theorem Revealed.shows (revealed : s.Revealed v place) (isDirect : place.descent.nested = none)
    (found : s.at? place = some f) :
    ∃ underLocked, s.Shows viewer v messages place underLocked f
      (f.resolve viewer v messages) := by
  obtain ⟨part, top, atSection, atField, found⟩ := exists_top_of_at? isDirect found
  obtain ⟨sectionIndex, fieldIndex, options, nested⟩ := place
  cases isDirect
  exact Revealed.shows_below [] revealed (.top atSection atField) found

end Schema

/-! ## Names that a document can hold -/

theorem Field.Portable.revealed? {f g : Field} (portable : f.Portable) {options : List Nat}
    (found : f.revealed? options = some g) : g.Portable := by
  induction options generalizing f with
  | nil =>
      cases found
      exact portable
  | cons position rest ih =>
      obtain ⟨options, option, inner, isRadio, atPosition, isRevealed, found⟩ :=
        revealed?_cons_eq_some found
      have kind := (portable_iff.mp portable).2
      rw [isRadio] at kind
      cases kind with
      | radio each =>
          exact ih ((each option (List.mem_of_getElem? atPosition)).revealed inner isRevealed) found

theorem Schema.Portable.at? {s : Schema} (portable : s.Portable) {place : FieldPlace} {f : Field}
    (isDirect : place.descent.nested = none) (found : s.at? place = some f) : f.Portable := by
  obtain ⟨part, top, atSection, atField, found⟩ := exists_top_of_at? isDirect found
  have topPortable := portable part (List.mem_of_getElem? atSection) top
    (List.mem_of_getElem? atField)
  exact topPortable.revealed? found

namespace Schema.Portable

variable {s : Schema} {place : FieldPlace} {f : Field}

theorem printable (portable : s.Portable) (isDirect : place.descent.nested = none)
    (found : s.at? place = some f) {name : Path} (named : f.name = some name) : name.Printable :=
  (Field.portable_iff.mp (portable.at? isDirect found)).1 name named

theorem printable_nested (portable : s.Portable) (isDirect : place.descent.nested = none)
    (found : s.at? place = some f) {nested : List NestedField} {addButtonLabel : String}
    (isGroup : f.kind = .dynamic nested addButtonLabel) {spec : NestedField}
    (member : spec ∈ nested) {name : Path} (named : spec.field.name = some name) :
    name.Printable := by
  have kindPortable := (Field.portable_iff.mp (portable.at? isDirect found)).2
  rw [isGroup] at kindPortable
  cases kindPortable with
  | dynamic each => exact (Field.portable_iff.mp (each spec member)).1 name named

end Schema.Portable

/-! ## Fields of messages -/

namespace Field

/-- The field is the one that a message for the path of this text is about: it has the path for its
    name, or it is a group with a repetition in which a field has the path. -/
inductive Holds (v : Values) (key : String) (f : Field) : Prop where
  | itself {name : Path} (named : f.name = some name) (text : name.display = key) : Holds v key f
  | inRepetition {group name : Path} {nested : List NestedField} {addButtonLabel : String}
      {spec : NestedField} {position : Nat} (named : f.name = some group)
      (isGroup : f.kind = .dynamic nested addButtonLabel) (member : spec ∈ nested)
      (specNamed : spec.field.name = some name)
      (stored : position < (Json.itemsOrEmpty (v.get? group)).length)
      (text : ((group.index position).join name).display = key) : Holds v key f

/-- A directive for the path of this text: the directive `d` of the field, or a directive in a
    repetition that `d` shows. -/
inductive Renders (f : Field) (d : Directive) (key : String) : Directive → Prop where
  | itself {name : Path} (named : f.name = some name) (text : name.display = key) :
      Renders f d key d
  | inRepetition {nested : List NestedField} {addButtonLabel shownLabel : String}
      {repetitions : List Repetition} {repetition : Repetition} {spec : NestedField}
      {name : Path} {position : Nat} {shown : Directive}
      (isGroup : f.kind = .dynamic nested addButtonLabel)
      (body : d.body = .dynamic shownLabel repetitions) (member : repetition ∈ repetitions)
      (atSpec : nested[position]? = some spec) (specNamed : spec.field.name = some name)
      (atShown : repetition.fields[position]? = some shown)
      (text : (repetition.path.join name).display = key) : Renders f d key shown

theorem message_resolveAt_of_privileged (f : Field) (path : Option Path) (locked : Bool) :
    (f.resolveAt ⟨true⟩ v messages path locked).message =
      path.bind fun p => (messages.get? p.display).map .invalid := by
  simp [message_resolveAt, isLockedFor, messageAt]

end Field

namespace Field

variable {f : Field} {key : String}

/-- What a message is about is rendered with this message for a privileged viewer. -/
theorem Holds.renders (holds : f.Holds v key) (messages : Messages) :
    ∃ shown, f.Renders (f.resolve ⟨true⟩ v messages) key shown ∧
      shown.message = (messages.get? key).map .invalid := by
  cases holds with
  | @itself name named text =>
      refine ⟨_, .itself named text, ?_⟩
      rw [resolve, message_resolveAt_of_privileged, named, Option.bind_some, text]
  | @inRepetition group name nested addButtonLabel spec position named isGroup member specNamed
      stored text =>
      obtain ⟨index, atSpec⟩ := List.mem_iff_getElem?.mp member
      refine ⟨_, .inRepetition isGroup (resolve_body_of_group isGroup named)
        (List.mem_map.mpr ⟨position, List.mem_range.mpr stored, rfl⟩) atSpec specNamed
        (by rw [getElem?_repetition, atSpec, Option.map_some]) text, ?_⟩
      rw [message_resolveAt_of_privileged, specNamed, Option.map_some, Option.bind_some, text]

/-- What is rendered for a path is about a field or a repetition that there is. -/
theorem Renders.holds {shown : Directive}
    (renders : f.Renders (f.resolve viewer v messages) key shown) : f.Holds v key := by
  cases renders with
  | itself named text => exact .itself named text
  | @inRepetition nested addButtonLabel shownLabel repetitions repetition spec name position shown
      isGroup body member atSpec specNamed atShown text =>
      obtain ⟨nestedShown, group, index, alsoGroup, named, inside, rfl⟩ :=
        exists_of_mem_repetitions body member
      exact .inRepetition named isGroup (List.mem_of_getElem? atSpec) specNamed inside text

end Field

/-! ## Errors and directives -/

namespace Schema

/-- The message of a path is shown in some directive of a field that it is about. -/
def Seen (s : Schema) (viewer : Viewer) (v : Values) (messages : Messages) (key text : String) :
    Prop :=
  ∃ place underLocked f d shown, s.Shows viewer v messages place underLocked f d ∧
    f.Renders d key shown ∧ shown.message = some (.invalid text)

theorem seen_iff {s : Schema} {key text : String} (found : messages.get? key = some text) :
    s.Seen ⟨true⟩ v messages key text ↔
      ∃ place f, place.descent.nested = none ∧ s.at? place = some f ∧ f.Holds v key ∧
        s.Revealed v place := by
  constructor
  · rintro ⟨place, underLocked, f, d, shown, showsField, renders, -⟩
    cases showsField.resolved
    exact ⟨place, f, showsField.at?.1, showsField.at?.2, renders.holds, showsField.revealed_place⟩
  · rintro ⟨place, f, isDirect, atPlace, holds, revealed⟩
    obtain ⟨underLocked, showsField⟩ := revealed.shows isDirect atPlace
    obtain ⟨shown, renders, message⟩ := holds.renders messages
    exact ⟨place, underLocked, f, _, shown, showsField, renders, by rw [message, found]; rfl⟩

end Schema

theorem Check.Bound.holds {s : Schema} {check : Check} (bound : check.Bound s)
    (portable : s.Portable) {p : Path} (member : p ∈ check.target.paths v) :
    ∃ fieldIndex options f,
      s.at? ⟨check.sectionIndex, fieldIndex, ⟨options, none⟩⟩ = some f ∧ f.Holds v p.display := by
  cases bound with
  | @field name sectionIndex f path rule located read =>
      cases List.mem_singleton.mp member
      obtain ⟨fieldIndex, options, found, hasName⟩ := Schema.exists_place_of_locate? located
      obtain ⟨own, named, text⟩ := Field.exists_name_of_hasName hasName
      refine ⟨fieldIndex, options, f, found, .itself named ?_⟩
      rw [text, Path.display_of_parseName read]
  | @eachRepetition name nestedName sectionIndex f path nested rule located read hasNested
      nestedRead =>
      obtain ⟨position, inside, rfl⟩ := List.mem_map.mp member
      obtain ⟨fieldIndex, options, found, hasName⟩ := Schema.exists_place_of_locate? located
      obtain ⟨own, named, rfl⟩ := Field.exists_name_of_hasName hasName
      -- Names of a schema are read as they are printed.
      have sameGroup : path = own := Path.eq_of_parseName (portable.printable rfl found named) read
      subst sameGroup
      unfold Field.hasNested at hasNested
      split at hasNested
      · next template addButtonLabel isGroup =>
        obtain ⟨spec, inTemplate, hasName⟩ := List.any_eq_true.mp hasNested
        obtain ⟨below, specNamed, text⟩ := Field.exists_name_of_hasName hasName
        subst text
        have sameName : nested = below := Path.eq_of_parseName
          (portable.printable_nested rfl found isGroup inTemplate specNamed) nestedRead
        subst sameName
        exact ⟨fieldIndex, options, f, found,
          .inRepetition named isGroup inTemplate specNamed (List.mem_range.mp inside) rfl⟩
      · cases hasNested

namespace Validator

/-- Every error is about a field of the part that is validated, and a privileged viewer sees it
    exactly if the radios above such a field now reveal it. -/
theorem errors_seen_where_revealed {s : Schema} (issued : s.Issued) {specs : List RuleSpec}
    {validator : Validator} (built : build s specs = .ok validator) {v : Values}
    {scope : ValidationScope} {messages : Messages}
    (refused : validator.check v scope = .error messages) {key text : String}
    (found : messages.get? key = some text) :
    (∃ place f, scope.covers place.sectionIndex = true ∧ place.descent.nested = none ∧
      s.at? place = some f ∧ f.Holds v key) ∧
    (s.Seen ⟨true⟩ v messages key text ↔
      ∃ place f, place.descent.nested = none ∧ s.at? place = some f ∧ f.Holds v key ∧
        s.Revealed v place) := by
  refine ⟨?_, Schema.seen_iff found⟩
  have isError : (validator.errors v scope).get? key = some text := by
    rw [errors, refused]
    exact found
  obtain ⟨task, member, rfl, -⟩ := exists_task_of_get?_errors isError
  obtain ⟨check, inChecks, covered, inCheck, -⟩ := mem_tasks.mp member
  obtain ⟨fieldIndex, options, f, atPlace, holds⟩ :=
    (bound_of_build built check inChecks).holds issued.keeps.2 inCheck
  exact ⟨_, f, covered, rfl, atPlace, holds⟩

def paced : Validator :=
  ⟨[⟨0, .field ⟨"a", [.key "rate"]⟩, .range 1 100⟩,
    ⟨0, .eachRepetition ⟨"a", [.key "steps"]⟩ ⟨"gap", []⟩, .range 0 60⟩]⟩
where
  specs : List RuleSpec :=
    [⟨"a.rate", none, .range 1 100⟩, ⟨"a.steps", some "gap", .range 0 60⟩]
  /-- Values with a rate that is too high, and with steps with these gaps. -/
  values (isOn : Bool) (gaps : List Int) : Values :=
    ⟨[("a", .object [("mode", .bool isOn), ("rate", .int 900),
      ("steps", .array (gaps.map fun gap => .object [("gap", .int gap)]))])]⟩

theorem built_paced : build .paced paced.specs = .ok paced := rfl

theorem issued_paced : Schema.paced.Issued := by
  have rate : Schema.paced.rate.Constructed :=
    .number (rfl : Field.number "a.rate" "rate" = .ok Schema.paced.rate)
  have mode : Schema.paced.mode.Constructed := by
    have built : Field.radio "a.mode" "mode"
        [⟨"on", .bool true, some Schema.paced.rate⟩, ⟨"off", .bool false, none⟩] =
      .ok Schema.paced.mode := rfl
    refine .radio ?_ ?_ built
    · exact List.forall_mem_cons.mpr ⟨.bool true, List.forall_mem_singleton.mpr (.bool false)⟩
    · refine List.forall_mem_cons.mpr ⟨fun g reveals => ?_, List.forall_mem_singleton.mpr nofun⟩
      cases reveals
      exact rate
  have steps : Schema.paced.steps.Constructed := by
    have built : Field.dynamic "a.steps" "steps"
        [Schema.paced.nested "gap", Schema.paced.nested "memo"] "Add" =
      .ok Schema.paced.steps := rfl
    refine .dynamic ?_ built
    exact List.forall_mem_cons.mpr ⟨.text (rfl : Field.text "gap" "gap" = .ok _),
      List.forall_mem_singleton.mpr (.text (rfl : Field.text "memo" "memo" = .ok _))⟩
  refine .built (List.forall_mem_singleton.mpr ?_)
    (rfl : Schema.build Schema.paced.title Schema.paced.backendKey Schema.paced.sections =
      .ok .paced)
  exact List.forall_mem_cons.mpr ⟨mode.portable, List.forall_mem_singleton.mpr steps.portable⟩

/-- While the form is on, a privileged viewer sees that the rate is too high, and in the first step
    that its gap is too long. -/
theorem errors_seen_paced :
    ∃ messages, paced.check (paced.values true [90]) .form = .error messages ∧
      Schema.paced.Seen ⟨true⟩ (paced.values true [90]) messages "a.rate"
        "Must be a number in range [1..100]" ∧
      Schema.paced.Seen ⟨true⟩ (paced.values true [90]) messages "a.steps[0].gap"
        "Must be a number in range [0..60]" := by
  have refused : paced.check (paced.values true [90]) .form =
      .error (paced.errors (paced.values true [90]) .form) := rfl
  refine ⟨_, refused, ?_, ?_⟩
  · refine (errors_seen_where_revealed issued_paced built_paced refused rfl).2.mpr
      ⟨⟨0, 0, ⟨[0], none⟩⟩, Schema.paced.rate, rfl, rfl, .itself rfl rfl, ?_⟩
    intro above position below split
    match above with
    | [] =>
        cases split
        exact ⟨Schema.paced.mode, rfl, _, _, _, rfl, rfl, rfl, rfl⟩
    | _ :: inner => cases inner <;> cases split
  · refine (errors_seen_where_revealed issued_paced built_paced refused rfl).2.mpr
      ⟨⟨0, 1, ⟨[], none⟩⟩, Schema.paced.steps, rfl, rfl, ?_, fun above _ _ split => ?_⟩
    · have stored : 0 < (Json.itemsOrEmpty
          ((paced.values true [90]).get? ⟨"a", [.key "steps"]⟩)).length := by decide
      exact .inRepetition rfl rfl List.mem_cons_self rfl stored rfl
    · cases above <;> cases split

/-- While the form is off, the rate is not revealed. A rate from before that is too high is refused
    all the same, and no directive has a message. -/
theorem unrevealed_rate_is_refused :
    Schema.paced.Issued ∧ build .paced paced.specs = .ok paced ∧
    ∃ messages, paced.check (paced.values false []) .form = .error messages ∧
      messages.get? "a.rate" = some "Must be a number in range [1..100]" ∧
      ∀ place underLocked f d,
        Schema.paced.Shows ⟨true⟩ (paced.values false []) messages place underLocked f d →
        d.message = none ∧ ∀ addButtonLabel repetitions,
          d.body = .dynamic addButtonLabel repetitions → repetitions = [] := by
  refine ⟨issued_paced, built_paced, paced.errors (paced.values false []) .form, rfl, rfl, ?_⟩
  rintro ⟨sectionIndex, fieldIndex, options, nested⟩ underLocked f d shown
  obtain ⟨isDirect, atPlace⟩ := shown.at?
  cases isDirect
  cases shown.resolved
  cases options with
  | cons position rest =>
      -- The mode selects an option that reveals nothing.
      obtain ⟨radio, atTop, name, _, value, named, isRadio, stored, selected⟩ :=
        shown.revealed_place [] position rest rfl
      match sectionIndex, fieldIndex with
      | 0, 0 =>
          cases atTop
          cases named
          cases isRadio
          cases stored
          cases selected
          cases atPlace
      | 0, 1 =>
          cases atTop
          cases isRadio
      | 0, _ + 2 | _ + 1, _ => cases atTop
  | nil =>
      match sectionIndex, fieldIndex with
      | 0, 0 =>
          cases atPlace
          exact ⟨rfl, fun _ _ body => by cases body⟩
      | 0, 1 =>
          cases atPlace
          refine ⟨rfl, fun _ _ body => ?_⟩
          cases body
          rfl
      | 0, _ + 2 | _ + 1, _ => cases atPlace

end Validator

end GatedForms

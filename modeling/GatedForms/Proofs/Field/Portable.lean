import GatedForms.Proofs.Field.RoundTrip
import GatedForms.Proofs.Gating.Marks

/-! # Where portable fields come from

Fields that are built in code, that are loaded, or that gating has marked can be written to a
document and loaded again.
-/

namespace GatedForms

/-! ## Parts of fields -/

structure FieldOption.Portable (option : FieldOption) : Prop where
  value : option.value.Ordered
  revealed : ∀ g, option.reveals = some g → g.Portable

/-- A document can hold what only fields of this kind have. -/
inductive FieldKind.Portable : FieldKind → Prop where
  | text (input : TextInput) (placeholder : Option String) : Portable (.text input placeholder)
  | radio {options : List FieldOption} (each : ∀ option ∈ options, option.Portable) :
      Portable (.radio options)
  | checkbox {options : Option (List FieldOption)}
      (each : ∀ given, options = some given → ∀ option ∈ given, option.Portable) :
      Portable (.checkbox options)
  | toggle : Portable .toggle
  | dynamic {nested : List NestedField} (each : ∀ spec ∈ nested, spec.field.Portable)
      (addButtonLabel : String) : Portable (.dynamic nested addButtonLabel)
  | button (action : ButtonAction) (id : Option ButtonId) : Portable (.button action id)
  | static (content : String) : Portable (.static content)

namespace Field

theorem portable_iff {f : Field} :
    f.Portable ↔ (∀ p, f.name = some p → p.Printable) ∧ f.kind.Portable := by
  obtain ⟨name, label, tooltip, adminOnly, kind⟩ := f
  constructor
  · intro portable
    cases portable with
    | mk printable values revealed nested =>
        refine ⟨printable, ?_⟩
        cases kind with
        | text input placeholder => exact .text input placeholder
        | radio options =>
            exact .radio fun option member => ⟨values option member, revealed option member⟩
        | checkbox options =>
            refine .checkbox fun given same option member => ?_
            subst same
            exact ⟨values option member, revealed option member⟩
        | toggle => exact .toggle
        | dynamic nestedFields addButtonLabel => exact .dynamic nested addButtonLabel
        | button action id => exact .button action id
        | static content => exact .static content
  · rintro ⟨printable, kindPortable⟩
    cases kindPortable with
    | text | toggle | button | static => exact .mk printable nofun nofun nofun
    | radio each =>
        exact .mk printable (fun option member => (each option member).value)
          (fun option member => (each option member).revealed) nofun
    | @checkbox options each =>
        cases options with
        | none => exact .mk printable nofun nofun nofun
        | some given =>
            exact .mk printable (fun option member => (each given rfl option member).value)
              (fun option member => (each given rfl option member).revealed) nofun
    | dynamic each => exact .mk printable nofun nofun each

end Field

/-! ## Fields built in code -/

namespace Field

/-- The fields that the constructors make. Each option has a value and may reveal a field made so,
    and so are nested fields made, which may be read-only in the first repetition. -/
inductive Constructed : Field → Prop where
  | text {name label : String} {f : Field} (built : Field.text name label = .ok f) : Constructed f
  | number {name label : String} {f : Field} (built : Field.number name label = .ok f) :
      Constructed f
  | radio {name label : String} {options : List FieldOption} {f : Field}
      (values : ∀ option ∈ options, option.value.Ordered)
      (revealed : ∀ option ∈ options, ∀ g, option.reveals = some g → Constructed g)
      (built : Field.radio name label options = .ok f) : Constructed f
  | checkbox {name label : String} {f : Field} (built : Field.checkbox name label = .ok f) :
      Constructed f
  | toggle {name label : String} {f : Field} (built : Field.toggle name label = .ok f) :
      Constructed f
  | dynamic {name label addButtonLabel : String} {nested : List NestedField} {f : Field}
      (each : ∀ spec ∈ nested, Constructed spec.field)
      (built : Field.dynamic name label nested addButtonLabel = .ok f) : Constructed f
  | button (label : String) (action : ButtonAction) : Constructed (Field.button label action)
  | static (content : String) : Constructed (Field.static content)
  | withTooltip {f : Field} (made : Constructed f) (tooltip : String) :
      Constructed (f.withTooltip tooltip)
  | withId {f : Field} (made : Constructed f) (id : ButtonId) : Constructed (f.withId id)

theorem portable_of_named {name label : String} {kind : FieldKind} {f : Field}
    (built : Field.named name label kind = .ok f) (kindPortable : kind.Portable) : f.Portable := by
  obtain ⟨path, read, built⟩ := ok_of_bind built
  cases built
  refine portable_iff.mpr ⟨fun p same => ?_, kindPortable⟩
  cases same
  exact Path.printable_of_parse (Path.parse_of_parseName read).1

theorem Constructed.portable {f : Field} (made : f.Constructed) : f.Portable := by
  induction made with
  | text built => exact portable_of_named built (.text _ _)
  | number built => exact portable_of_named built (.text _ _)
  | radio values _ built revealed =>
      exact portable_of_named built
        (.radio fun option member => ⟨values option member, revealed option member⟩)
  | checkbox built => exact portable_of_named built (.checkbox nofun)
  | toggle built => exact portable_of_named built .toggle
  | dynamic _ built each => exact portable_of_named built (.dynamic each _)
  | button label action => exact portable_iff.mpr ⟨nofun, .button action none⟩
  | static content => exact portable_iff.mpr ⟨nofun, .static content⟩
  | withTooltip _ tooltip portable =>
      have parts := portable_iff.mp portable
      exact portable_iff.mpr parts
  | withId _ id portable =>
      unfold Field.withId
      split
      · exact portable_iff.mpr ⟨(portable_iff.mp portable).1, .button _ _⟩
      · exact portable

end Field

/-! ## Loaded fields -/

structure KindParts.Portable (parts : KindParts) : Prop where
  options : ∀ options, parts.options = some (some options) → ∀ option ∈ options, option.Portable
  nested : ∀ nested, parts.nested = some nested → ∀ spec ∈ nested, spec.field.Portable

theorem Document.wrongType_ne_ok {α : Type} (doc : Document) (x : α) : doc.wrongType ≠ .ok x := by
  cases doc <;> exact nofun

theorem Document.put_of_once {α β γ : Type} {key : String} {before : Option α}
    {read : Except LoadError β} {put : β → γ} {next : γ}
    (stepped : (do once key before; let x ← read; .ok (put x) : Except LoadError γ) = .ok next) :
    ∃ x, read = .ok x ∧ next = put x := by
  obtain ⟨_, _, stepped⟩ := ok_of_bind stepped
  obtain ⟨x, isRead, stepped⟩ := ok_of_bind stepped
  cases stepped
  exact ⟨x, isRead, rfl⟩

theorem KindParts.step_keeps {tag : KindTag} {parts next : KindParts} {key : String}
    {doc : Document} (read : parts.step tag key doc = .ok next) :
    next.options = parts.options ∧ next.nested = parts.nested := by
  unfold step at read
  split at read
  case h_7 =>
    cases read
    exact ⟨rfl, rfl⟩
  all_goals
    obtain ⟨_, _, rfl⟩ := Document.put_of_once read
    exact ⟨rfl, rfl⟩

/-- What the parts of a kind are after one more member: fields are read from an array only. -/
inductive KindParts.Taken (parts : KindParts) (doc : Document) : KindParts → Prop where
  | options {items : List Document} {stop : Option TextFault} {options : List FieldOption}
      (isArray : doc = .array items stop) (read : FieldOption.loadAll items = .ok options) :
      Taken parts doc { parts with options := some (some options) }
  | nested {items : List Document} {stop : Option TextFault} {nested : List NestedField}
      (isArray : doc = .array items stop) (read : NestedField.loadAll items = .ok nested) :
      Taken parts doc { parts with nested := some nested }
  | noFields {next : KindParts}
      (sameOptions : next.options = parts.options ∨ next.options = some none)
      (sameNested : next.nested = parts.nested) : Taken parts doc next

namespace KindParts

variable {tag : KindTag} {parts read : KindParts} {doc : Document}
    {rest : List (Option String × Document)}

theorem taken_of_options (known : "options" ∈ tag.memberKeys)
    (loaded : load tag parts ((some "options", doc) :: rest) = .ok read) :
    ∃ next, parts.Taken doc next ∧ load tag next rest = .ok read := by
  cases doc with
  | array items stop =>
      rw [load_options known] at loaded
      obtain ⟨_, _, loaded⟩ := ok_of_bind loaded
      obtain ⟨options, optionsRead, loaded⟩ := ok_of_bind loaded
      obtain ⟨_, _, loaded⟩ := ok_of_bind loaded
      exact ⟨_, .options rfl optionsRead, loaded⟩
  | null =>
      -- Of the two kinds with options only a checkbox can do without any.
      cases tag with
      | radio =>
          obtain ⟨_, _, loaded⟩ := ok_of_bind loaded
          exact absurd loaded (Document.wrongType_ne_ok .null _)
      | checkbox =>
          obtain ⟨_, _, loaded⟩ := ok_of_bind loaded
          exact ⟨{ parts with options := some none }, .noFields (.inr rfl) rfl, loaded⟩
      | text | toggle | dynamic | button | static => simp [KindTag.memberKeys] at known
  | bool | int | float | text | object | flawed =>
      cases tag with
      | radio | checkbox =>
          obtain ⟨_, _, loaded⟩ := ok_of_bind loaded
          exact absurd loaded (Document.wrongType_ne_ok _ _)
      | text | toggle | dynamic | button | static => simp [KindTag.memberKeys] at known

theorem taken_of_template
    (loaded : load .dynamic parts ((some "nested_fields", doc) :: rest) = .ok read) :
    ∃ next, parts.Taken doc next ∧ load .dynamic next rest = .ok read := by
  cases doc with
  | array items stop =>
      rw [load_template] at loaded
      obtain ⟨_, _, loaded⟩ := ok_of_bind loaded
      obtain ⟨nested, nestedRead, loaded⟩ := ok_of_bind loaded
      obtain ⟨_, _, loaded⟩ := ok_of_bind loaded
      exact ⟨_, .nested rfl nestedRead, loaded⟩
  | null | bool | int | float | text | object | flawed =>
      obtain ⟨_, _, loaded⟩ := ok_of_bind loaded
      exact absurd loaded (Document.wrongType_ne_ok _ _)

theorem taken_of_load {key : String}
    (loaded : load tag parts ((some key, doc) :: rest) = .ok read) :
    ∃ next, parts.Taken doc next ∧ load tag next rest = .ok read := by
  have passed (unknown : key ∉ tag.memberKeys) :
      ∃ next, parts.Taken doc next ∧ load tag next rest = .ok read :=
    ⟨parts, .noFields (.inl rfl) rfl, (load_unknown unknown rest).symm.trans loaded⟩
  by_cases isOptions : key = "options"
  · subst isOptions
    by_cases known : "options" ∈ tag.memberKeys
    · exact taken_of_options known loaded
    · exact passed known
  · by_cases isTemplate : key = "nested_fields"
    · subst isTemplate
      cases tag with
      | dynamic => exact taken_of_template loaded
      | text | radio | checkbox | toggle | button | static =>
          exact passed (by simp [KindTag.memberKeys])
    · rw [load_plain isOptions isTemplate] at loaded
      obtain ⟨next, stepped, loaded⟩ := ok_of_bind loaded
      obtain ⟨sameOptions, sameNested⟩ := step_keeps stepped
      exact ⟨next, .noFields (.inl sameOptions) sameNested, loaded⟩

end KindParts

theorem Document.required_eq_ok {α : Type} {name : String} {found : Option α} {x : α} :
    required name found = .ok x ↔ found = some x := by
  cases found <;> simp [required]

theorem Document.eq_some_of_getD {α : Type} {found : Option (Option α)} {x : α}
    (given : found.getD none = some x) : found = some (some x) := by
  cases found with
  | none => cases given
  | some read => exact congrArg some given

theorem KindParts.Portable.finish {tag : KindTag} {parts : KindParts} {kind : FieldKind}
    (portable : parts.Portable) (read : parts.finish tag = .ok kind) : kind.Portable := by
  cases tag with
  | text =>
      cases read
      exact .text _ _
  | radio =>
      obtain ⟨options, isRead, read⟩ := ok_of_bind read
      cases read
      refine .radio fun option member => ?_
      cases options with
      | none => cases member
      | some options =>
          exact portable.options options (Document.required_eq_ok.mp isRead) option member
  | checkbox =>
      cases read
      exact .checkbox fun options given =>
        portable.options options (Document.eq_some_of_getD given)
  | toggle =>
      cases read
      exact .toggle
  | dynamic =>
      obtain ⟨nested, isRead, read⟩ := ok_of_bind read
      obtain ⟨label, _, read⟩ := ok_of_bind read
      cases read
      exact .dynamic (portable.nested nested (Document.required_eq_ok.mp isRead)) label
  | button =>
      obtain ⟨action, _, read⟩ := ok_of_bind read
      cases read
      exact .button _ _
  | static =>
      obtain ⟨content, _, read⟩ := ok_of_bind read
      cases read
      exact .static content

theorem Document.loadMembers_keeps {α : Type} (Kept : α → Prop)
    {step : α → String → Document → Except LoadError α}
    (keeps : ∀ {soFar key doc next}, Kept soFar → step soFar key doc = .ok next → Kept next)
    {soFar read : α} {members : List (Option String × Document)} (kept : Kept soFar)
    (loaded : loadMembers step soFar members = .ok read) : Kept read := by
  induction members generalizing soFar with
  | nil =>
      cases loaded
      exact kept
  | cons member rest ih =>
      obtain ⟨key, doc⟩ := member
      cases key with
      | none => cases loaded
      | some key =>
          obtain ⟨next, stepped, loaded⟩ := ok_of_bind loaded
          exact ih (keeps kept stepped) loaded

theorem Document.printable_of_loadOptionalPath {doc : Document} {p : Path}
    (read : doc.loadOptionalPath = .ok (some p)) : p.Printable := by
  obtain ⟨raw, _, read⟩ := ok_of_bind read
  cases raw with
  | none => cases read
  | some raw =>
      simp only at read
      split at read
      · next path pathRead =>
        cases read
        exact Path.printable_of_parse pathRead
      · cases read

namespace Document

/-- What one more member does to the slot of some member: it is kept, or filled with what was
    read. -/
inductive Filled {α : Type} (read : Document → Except LoadError α) (doc : Document)
    (before after : Option α) : Prop where
  | kept (same : after = before)
  | filled {x : α} (isRead : read doc = .ok x) (now : after = some x)

/-- What stands in a slot at the end was read of some document. -/
theorem exists_read_of_loadMembers {α β : Type}
    {step : α → String → Document → Except LoadError α} {read : Document → Except LoadError β}
    (slot : α → Option β)
    (fills : ∀ {soFar key doc next}, step soFar key doc = .ok next →
      Filled read doc (slot soFar) (slot next))
    {soFar parts : α} (empty : slot soFar = none) {members : List (Option String × Document)}
    (loaded : loadMembers step soFar members = .ok parts) {x : β} (found : slot parts = some x) :
    ∃ doc, read doc = .ok x := by
  refine loadMembers_keeps (fun parts => ∀ x, slot parts = some x → ∃ doc, read doc = .ok x)
    (fun {soFar key doc next} before stepped x found => ?_) (fun x found => ?_) loaded x found
  · cases fills stepped with
    | kept same => exact before x (same.symm.trans found)
    | filled isRead now =>
        cases now.symm.trans found
        exact ⟨doc, isRead⟩
  · cases empty.symm.trans found

end Document

theorem CommonParts.name_step {parts next : CommonParts} {key : String} {doc : Document}
    (stepped : parts.step key doc = .ok next) :
    Document.Filled Document.loadOptionalPath doc parts.name next.name := by
  unfold step at stepped
  split at stepped
  case h_1 =>
    obtain ⟨name, nameRead, rfl⟩ := Document.put_of_once stepped
    exact .filled nameRead rfl
  case h_2 | h_3 | h_4 =>
    -- The label, the tooltip and the mark.
    obtain ⟨_, _, rfl⟩ := Document.put_of_once stepped
    exact .kept rfl
  case h_5 =>
    -- A member of the kind is not converted yet.
    obtain ⟨_, _, stepped⟩ := ok_of_bind stepped
    cases stepped
    exact .kept rfl

theorem CommonParts.printable_of_load {parts : CommonParts}
    {members : List (Option String × Document)}
    (read : Document.loadMembers step {} members = .ok parts) {p : Path}
    (named : parts.name.getD none = some p) : p.Printable := by
  obtain ⟨_, nameRead⟩ := Document.exists_read_of_loadMembers name name_step rfl read
    (Document.eq_some_of_getD named)
  exact Document.printable_of_loadOptionalPath nameRead

theorem KindParts.portable_empty : KindParts.Portable {} where
  options _ same := by cases same
  nested _ same := by cases same

theorem Document.loadJson_ordered {doc : Document} {x : Json} (read : doc.loadJson = .ok x) :
    x.Ordered := by
  unfold loadJson liftText at read
  split at read
  · next value isValue =>
    cases read
    exact ordered_value isValue
  · cases read

structure OptionParts.Portable (parts : OptionParts) : Prop where
  value : ∀ x, parts.value = some x → x.Ordered
  revealed : ∀ g, parts.reveals = some (some g) → g.Portable

theorem OptionParts.Portable.finish {parts : OptionParts} {option : FieldOption}
    (portable : parts.Portable) (read : parts.finish = .ok option) : option.Portable := by
  obtain ⟨label, _, read⟩ := ok_of_bind read
  obtain ⟨value, valueRead, read⟩ := ok_of_bind read
  cases read
  exact ⟨portable.value value (Document.required_eq_ok.mp valueRead),
    fun g given => portable.revealed g (Document.eq_some_of_getD given)⟩

theorem OptionParts.portable_empty : OptionParts.Portable {} where
  value _ same := by cases same
  revealed _ same := by cases same

theorem NestedField.field_of_load {doc : Document} {spec : NestedField}
    (read : NestedField.load doc = .ok spec) : Field.load doc = .ok spec.field := by
  cases doc with
  | object members stop =>
      rw [NestedField.load_object] at read
      obtain ⟨mark, _, read⟩ := ok_of_bind read
      obtain ⟨f, fieldRead, read⟩ := ok_of_bind read
      cases read
      exact fieldRead
  | null | bool | int | float | text | array | flawed =>
      rw [NestedField.load] at read
      · exact absurd read (Document.wrongType_ne_ok _ _)
      · simp

/-- Fields loaded from documents smaller than this are portable. -/
def Document.PortableBelow (n : Nat) : Prop :=
  ∀ doc : Document, sizeOf doc < n → ∀ f, Field.load doc = .ok f → f.Portable

section Below

variable {n : Nat} (below : Document.PortableBelow n)

include below

theorem OptionParts.portable_of_load {members : List (Option String × Document)}
    {parts read : OptionParts} (fits : ∀ member ∈ members, sizeOf member.2 < n)
    (portable : parts.Portable) (loaded : parts.load members = .ok read) : read.Portable := by
  induction members generalizing parts with
  | nil =>
      rw [load] at loaded
      cases loaded
      exact portable
  | cons member rest ih =>
      obtain ⟨first, restFits⟩ := List.forall_mem_cons.mp fits
      unfold load at loaded
      split at loaded
      next nothing => cases nothing
      next doc others same =>
        cases same
        obtain ⟨_, _, loaded⟩ := ok_of_bind loaded
        obtain ⟨label, _, loaded⟩ := ok_of_bind loaded
        refine ih restFits ?_ loaded
        exact ⟨portable.value, portable.revealed⟩
      next doc others same =>
        cases same
        obtain ⟨_, _, loaded⟩ := ok_of_bind loaded
        obtain ⟨x, valueRead, loaded⟩ := ok_of_bind loaded
        refine ih restFits ?_ loaded
        refine ⟨fun y same => ?_, portable.revealed⟩
        cases same
        exact Document.loadJson_ordered valueRead
      next doc others same =>
        cases same
        obtain ⟨_, _, loaded⟩ := ok_of_bind loaded
        simp only [ok_bind] at loaded
        split at loaded
        · refine ih restFits ?_ loaded
          exact ⟨portable.value, fun _ same => by cases same⟩
        · obtain ⟨revealed, revealsRead, loaded⟩ := ok_of_bind loaded
          obtain ⟨f, fieldRead, rfl⟩ := map_eq_ok.mp revealsRead
          refine ih restFits ?_ loaded
          refine ⟨portable.value, fun g same => ?_⟩
          cases same
          exact below _ first f fieldRead
      next same =>
        cases same
        exact ih restFits portable loaded
      next => cases loaded

theorem FieldOption.portable_of_load {doc : Document} {option : FieldOption}
    (fits : sizeOf doc ≤ n) (read : FieldOption.load doc = .ok option) : option.Portable := by
  unfold load at read
  split at read
  next members stop =>
    obtain ⟨parts, partsRead, read⟩ := ok_of_bind read
    obtain ⟨_, _, read⟩ := ok_of_bind read
    refine (OptionParts.portable_of_load below ?_ OptionParts.portable_empty partsRead).finish read
    intro member inMembers
    obtain ⟨key, inner⟩ := member
    have smaller := List.sizeOf_lt_of_mem inMembers
    simp only [Prod.mk.sizeOf_spec, Document.object.sizeOf_spec] at smaller fits ⊢
    omega
  next => cases read
  next =>
    obtain ⟨_, _, read⟩ := ok_of_bind read
    cases read
  next =>
    obtain ⟨label, _, read⟩ := ok_of_bind read
    obtain ⟨x, valueRead, read⟩ := ok_of_bind read
    obtain ⟨_, _, read⟩ := ok_of_bind read
    cases read
    exact ⟨Document.loadJson_ordered valueRead, nofun⟩
  next label value reveals more stop =>
    obtain ⟨label, _, read⟩ := ok_of_bind read
    obtain ⟨x, valueRead, read⟩ := ok_of_bind read
    simp only [ok_bind] at read
    split at read
    · obtain ⟨_, _, read⟩ := ok_of_bind read
      split at read
      · cases read
        exact ⟨Document.loadJson_ordered valueRead, nofun⟩
      · cases read
    · obtain ⟨revealed, revealsRead, read⟩ := ok_of_bind read
      obtain ⟨f, fieldRead, rfl⟩ := map_eq_ok.mp revealsRead
      obtain ⟨_, _, read⟩ := ok_of_bind read
      split at read
      · cases read
        refine ⟨Document.loadJson_ordered valueRead, fun g same => ?_⟩
        cases same
        refine below _ ?_ f fieldRead
        simp only [Document.array.sizeOf_spec, List.cons.sizeOf_spec] at fits
        omega
      · cases read
  next => exact absurd read (Document.wrongType_ne_ok _ _)

theorem FieldOption.portable_of_loadAll {docs : List Document} {options : List FieldOption}
    (fits : ∀ doc ∈ docs, sizeOf doc ≤ n) (read : loadAll docs = .ok options) :
    ∀ option ∈ options, option.Portable := by
  induction docs generalizing options with
  | nil =>
      rw [loadAll] at read
      cases read
      intro option member
      cases member
  | cons doc rest ih =>
      obtain ⟨first, restFits⟩ := List.forall_mem_cons.mp fits
      rw [loadAll] at read
      obtain ⟨option, optionRead, read⟩ := ok_of_bind read
      obtain ⟨others, othersRead, read⟩ := ok_of_bind read
      cases read
      exact List.forall_mem_cons.mpr
        ⟨portable_of_load below first optionRead, ih restFits othersRead⟩

theorem NestedField.portable_of_loadAll {docs : List Document} {nested : List NestedField}
    (fits : ∀ doc ∈ docs, sizeOf doc < n) (read : loadAll docs = .ok nested) :
    ∀ spec ∈ nested, spec.field.Portable := by
  induction docs generalizing nested with
  | nil =>
      rw [loadAll] at read
      cases read
      intro spec member
      cases member
  | cons doc rest ih =>
      obtain ⟨first, restFits⟩ := List.forall_mem_cons.mp fits
      rw [loadAll] at read
      obtain ⟨spec, specRead, read⟩ := ok_of_bind read
      obtain ⟨others, othersRead, read⟩ := ok_of_bind read
      cases read
      exact List.forall_mem_cons.mpr
        ⟨below doc first spec.field (field_of_load specRead), ih restFits othersRead⟩

theorem KindParts.portable_of_load {tag : KindTag} {members : List (Option String × Document)}
    {parts read : KindParts} (fits : ∀ member ∈ members, sizeOf member.2 ≤ n)
    (portable : parts.Portable) (loaded : load tag parts members = .ok read) : read.Portable := by
  induction members generalizing parts with
  | nil =>
      rw [load] at loaded
      cases loaded
      exact portable
  | cons member rest ih =>
      obtain ⟨key, doc⟩ := member
      obtain ⟨first, restFits⟩ := List.forall_mem_cons.mp fits
      cases key with
      | none =>
          rw [load] at loaded
          cases loaded
      | some key =>
          obtain ⟨next, taken, loaded⟩ := taken_of_load loaded
          refine ih restFits ?_ loaded
          have itemFits {items : List Document} {stop : Option TextFault}
              (isArray : doc = .array items stop) : ∀ item ∈ items, sizeOf item < n := by
            intro item member
            subst isArray
            have smaller := List.sizeOf_lt_of_mem member
            simp only [Document.array.sizeOf_spec] at first
            omega
          cases taken with
          | options isArray optionsRead =>
              refine ⟨fun options same => ?_, portable.nested⟩
              cases same
              exact FieldOption.portable_of_loadAll below
                (fun item member => Nat.le_of_lt (itemFits isArray item member)) optionsRead
          | nested isArray nestedRead =>
              refine ⟨portable.options, fun nested same => ?_⟩
              cases same
              exact NestedField.portable_of_loadAll below (itemFits isArray) nestedRead
          | noFields sameOptions sameNested =>
              refine ⟨fun options same => ?_, fun nested same => ?_⟩
              · rcases sameOptions with kept | dropped
                · exact portable.options options (kept.symm.trans same)
                · cases dropped.symm.trans same
              · exact portable.nested nested (sameNested.symm.trans same)

end Below

namespace Field

theorem portableBelow (n : Nat) : Document.PortableBelow n := by
  -- The documents of the fields in a field are smaller than its own.
  induction n with
  | zero => exact fun _ smaller => absurd smaller (Nat.not_lt_zero _)
  | succ n ih =>
      intro doc fits f read
      unfold load at read
      split at read
      next members stop =>
        obtain ⟨common, commonRead, read⟩ := ok_of_bind read
        obtain ⟨_, _, read⟩ := ok_of_bind read
        obtain ⟨tag, _, read⟩ := ok_of_bind read
        obtain ⟨parts, partsRead, read⟩ := ok_of_bind read
        obtain ⟨kind, finished, read⟩ := ok_of_bind read
        cases read
        have memberFits : ∀ member ∈ members, sizeOf member.2 ≤ n := by
          intro member inMembers
          obtain ⟨key, inner⟩ := member
          have smaller := List.sizeOf_lt_of_mem inMembers
          simp only [Document.object.sizeOf_spec, Prod.mk.sizeOf_spec] at fits smaller ⊢
          omega
        have portable :=
          KindParts.portable_of_load ih memberFits KindParts.portable_empty partsRead
        exact portable_iff.mpr
          ⟨fun _ => CommonParts.printable_of_load commonRead, portable.finish finished⟩
      next => exact absurd read (Document.wrongType_ne_ok _ _)

theorem portable_of_load {doc : Document} {f : Field} (read : load doc = .ok f) : f.Portable :=
  portableBelow (sizeOf doc + 1) doc (Nat.lt_succ_self _) f read

/-! ## Gated fields -/

variable {paths : List AdminPath} {owner : List String}

theorem Portable.mark {f : Field} (portable : f.Portable) (isNested : Bool) :
    (f.mark paths owner isNested).Portable := by
  have parts := portable_iff.mp portable
  rw [mark_eq]
  exact portable_iff.mpr parts

theorem portable_gatedKind {kind : FieldKind} (portable : kind.Portable) :
    (gatedKind paths owner kind).Portable := by
  cases portable with
  | text input placeholder => exact .text input placeholder
  | radio each =>
      refine .radio fun option member => ?_
      obtain ⟨ungated, before, rfl⟩ := List.mem_map.mp member
      refine ⟨(each ungated before).value, fun g reveals => ?_⟩
      obtain ⟨f, revealsBefore, rfl⟩ := Option.map_eq_some_iff.mp reveals
      exact ((each ungated before).revealed f revealsBefore).mark false
  | checkbox each => exact .checkbox each
  | toggle => exact .toggle
  | dynamic each addButtonLabel =>
      refine .dynamic (fun spec member => ?_) addButtonLabel
      obtain ⟨ungated, before, rfl⟩ := List.mem_map.mp member
      exact (each ungated before).mark true
  | button action id => exact .button action id
  | static content => exact .static content

theorem Portable.gate {f : Field} (portable : f.Portable) : (f.gate paths owner).Portable := by
  obtain ⟨printable, kindPortable⟩ := portable_iff.mp portable
  rw [gate_eq, mark_eq]
  exact portable_iff.mpr ⟨printable, portable_gatedKind kindPortable⟩

theorem Portable.fillId {f : Field} (portable : f.Portable) (sectionIndex fieldIndex : Nat) :
    (f.fillId sectionIndex fieldIndex).Portable := by
  unfold Field.fillId
  split
  · exact portable_iff.mpr ⟨(portable_iff.mp portable).1, .button _ _⟩
  · exact portable

end Field

end GatedForms

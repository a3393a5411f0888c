import GatedForms.Field.Encode
import GatedForms.Field.Build
import GatedForms.Proofs.Documents.Members
import GatedForms.Proofs.Paths.Display

/-! # Fields and their documents

A field is loaded from its document as it was, whatever it reveals and repeats, if the names in it
can be printed and the values of its options are ordered. Fields that were built in code or loaded
are such fields.
-/

namespace GatedForms

open Document (ofMembers ofJson)

/-! ## What the readers of a field know -/

/-- The keys of the members that all fields have, besides the kind. -/
def CommonParts.keys : List String := ["name", "label", "tooltip", "admin_only"]

/-- The keys of the members that only fields of a kind have. -/
def KindTag.memberKeys : KindTag → List String
  | .text => ["input", "placeholder"]
  | .radio => ["options"]
  | .checkbox => ["options"]
  | .toggle => []
  | .dynamic => ["nested_fields", "add_button_label"]
  | .button => ["action", "id"]
  | .static => ["content"]

theorem CommonParts.step_unknown {parts : CommonParts} {key : String} {x : Json}
    (unknown : key ∉ keys) : parts.step key (ofJson x) = .ok parts := by
  simp only [keys, List.mem_cons, List.not_mem_nil, or_false, not_or] at unknown
  obtain ⟨notName, notLabel, notTooltip, notMark⟩ := unknown
  obtain ⟨y, read, -⟩ := Document.value_ofJson x
  unfold step
  split
  · exact absurd rfl notName
  · exact absurd rfl notLabel
  · exact absurd rfl notTooltip
  · exact absurd rfl notMark
  · rw [Document.loadJson, read]
    rfl

theorem KindParts.step_unknown {tag : KindTag} {parts : KindParts} {key : String} {doc : Document}
    (unknown : key ∉ tag.memberKeys) : parts.step tag key doc = .ok parts := by
  unfold step
  split
  · simp [KindTag.memberKeys] at unknown
  · simp [KindTag.memberKeys] at unknown
  · simp [KindTag.memberKeys] at unknown
  · simp [KindTag.memberKeys] at unknown
  · simp [KindTag.memberKeys] at unknown
  · simp [KindTag.memberKeys] at unknown
  · rfl

theorem KindParts.load_nil (tag : KindTag) (parts : KindParts) :
    load tag parts [] = .ok parts := rfl

theorem KindParts.load_options {tag : KindTag} (known : "options" ∈ tag.memberKeys)
    (parts : KindParts) (items : List Document) (stop : Option TextFault)
    (rest : List (Option String × Document)) :
    load tag parts ((some "options", .array items stop) :: rest) =
      Document.once "options" parts.options >>= fun _ =>
        FieldOption.loadAll items >>= fun options => Document.close stop >>= fun _ =>
          load tag { parts with options := some (some options) } rest := by
  cases tag with
  | radio | checkbox => rfl
  | text | toggle | dynamic | button | static => simp [KindTag.memberKeys] at known

theorem KindParts.load_template (parts : KindParts) (items : List Document)
    (stop : Option TextFault) (rest : List (Option String × Document)) :
    load .dynamic parts ((some "nested_fields", .array items stop) :: rest) =
      Document.once "nested_fields" parts.nested >>= fun _ =>
        NestedField.loadAll items >>= fun nested => Document.close stop >>= fun _ =>
          load .dynamic { parts with nested := some nested } rest := rfl

theorem KindParts.load_plain {tag : KindTag} {key : String} (notOptions : key ≠ "options")
    (notTemplate : key ≠ "nested_fields") (parts : KindParts) (doc : Document)
    (rest : List (Option String × Document)) :
    load tag parts ((some key, doc) :: rest) =
      parts.step tag key doc >>= fun next => load tag next rest := by
  rw [load]
  · simpa using notOptions
  · simpa using notTemplate

theorem KindParts.load_unknown {tag : KindTag} {parts : KindParts} {key : String} {doc : Document}
    (unknown : key ∉ tag.memberKeys) (rest : List (Option String × Document)) :
    load tag parts ((some key, doc) :: rest) = load tag parts rest := by
  by_cases isOptions : key = "options"
  · subst isOptions
    cases tag with
    | radio | checkbox => simp [KindTag.memberKeys] at unknown
    | text | toggle | dynamic | button | static => rfl
  · by_cases isTemplate : key = "nested_fields"
    · subst isTemplate
      cases tag with
      | dynamic => simp [KindTag.memberKeys] at unknown
      | text | radio | checkbox | toggle | button | static => rfl
    · rw [load_plain isOptions isTemplate, step_unknown unknown]
      rfl

theorem KindParts.load_cons_congr {tag : KindTag} {rest others : List (Option String × Document)}
    (same : ∀ parts, load tag parts rest = load tag parts others) (parts : KindParts)
    (member : Option String × Document) :
    load tag parts (member :: rest) = load tag parts (member :: others) := by
  match member with
  | (none, doc) => rfl
  | (some key, doc) =>
      by_cases isOptions : key = "options"
      · subst isOptions
        cases tag with
        | radio =>
            have known : "options" ∈ KindTag.radio.memberKeys := by decide
            cases doc with
            | array items stop => simp only [load_options known, same]
            | null | bool | int | float | text | object | flawed => rfl
        | checkbox =>
            have known : "options" ∈ KindTag.checkbox.memberKeys := by decide
            cases doc with
            | array items stop => simp only [load_options known, same]
            | null => exact bind_congr fun _ => same _
            | bool | int | float | text | object | flawed => rfl
        | text | toggle | dynamic | button | static => exact same parts
      · by_cases isTemplate : key = "nested_fields"
        · subst isTemplate
          cases tag with
          | dynamic =>
              cases doc with
              | array items stop => simp only [load_template, same]
              | null | bool | int | float | text | object | flawed => rfl
          | text | radio | checkbox | toggle | button | static => exact same parts
        · simp only [load_plain isOptions isTemplate, same]

/-! ## Readers of one part -/

section Filter

variable (entries : List (String × Json))

theorem CommonParts.load_filter (parts : CommonParts) :
    Document.loadMembers step parts (ofMembers entries) =
      Document.loadMembers step parts (ofMembers (entries.filter fun entry => entry.1 ∈ keys)) :=
  Document.loadMembers_filter (fun key => decide (key ∈ keys))
    (fun _ _ _ unknown => step_unknown (of_decide_eq_false unknown)) parts entries

theorem KindTag.loadFrom_filter (found : Option KindTag) :
    loadFrom found (ofMembers entries) =
      loadFrom found (ofMembers (entries.filter fun entry => entry.1 = "kind")) := by
  induction entries generalizing found with
  | nil => rfl
  | cons entry rest ih =>
      obtain ⟨key, x⟩ := entry
      by_cases isKind : key = "kind"
      · subst isKind
        simp only [List.filter_cons, decide_true, if_true, ofMembers, loadFrom, ih]
      · simp only [List.filter_cons, isKind, decide_false, Bool.false_eq_true, if_false, ofMembers]
        rw [loadFrom.eq_3 _ _ _ (by simp [isKind]), ih]

theorem NestedField.loadMark_filter (found : Option Bool) :
    loadMark found (ofMembers entries) =
      loadMark found (ofMembers (entries.filter fun entry => entry.1 = "disable_on_first")) := by
  induction entries generalizing found with
  | nil => rfl
  | cons entry rest ih =>
      obtain ⟨key, x⟩ := entry
      by_cases isMark : key = "disable_on_first"
      · subst isMark
        simp only [List.filter_cons, decide_true, if_true, ofMembers, loadMark, ih]
      · simp only [List.filter_cons, isMark, decide_false, Bool.false_eq_true, if_false, ofMembers]
        rw [loadMark.eq_3 _ _ _ (by simp [isMark]), ih]

theorem KindParts.load_filter (tag : KindTag) (parts : KindParts) :
    load tag parts (ofMembers entries) =
      load tag parts (ofMembers (entries.filter fun entry => entry.1 ∈ tag.memberKeys)) := by
  induction entries generalizing parts with
  | nil => rfl
  | cons entry rest ih =>
      obtain ⟨key, x⟩ := entry
      by_cases isKnown : key ∈ tag.memberKeys
      · simp only [List.filter_cons, isKnown, decide_true, if_true, ofMembers]
        exact load_cons_congr ih parts _
      · simp only [List.filter_cons, isKnown, decide_false, Bool.false_eq_true, if_false, ofMembers]
        rw [load_unknown isKnown, ih]

end Filter

/-! ## Members that all fields have -/

/-- The members that all fields have, besides the kind. -/
def CommonParts.pairs (name : Option Path) (label : String) (tooltip : Option String)
    (adminOnly : Bool) : List (String × Json) :=
  [ Json.optionalText "name" (name.map Path.display)
  , some ("label", .text label)
  , Json.optionalText "tooltip" tooltip
  , if adminOnly then some ("admin_only", .bool true) else none ].filterMap id

theorem CommonParts.load_pairs {name : Option Path} (label : String) (tooltip : Option String)
    (adminOnly : Bool) (printable : ∀ p, name = some p → p.Printable) :
    Document.loadMembers step {} (ofMembers (KeyMap.ofList (pairs name label tooltip adminOnly))) =
      .ok ⟨name.map some, some label, tooltip.map some, if adminOnly then some true else none⟩ := by
  cases name with
  | none =>
      cases tooltip <;> cases adminOnly <;>
        simp (disch := decide) [pairs, Json.optionalText, List.filterMap_cons, KeyMap.ofList,
          KeyMap.insert_before, KeyMap.insert_behind, Document.loadMembers, step]
  | some p =>
      have read := Document.loadOptionalPath_display (printable p rfl)
      cases tooltip <;> cases adminOnly <;>
        simp (disch := decide) [pairs, Json.optionalText, List.filterMap_cons, KeyMap.ofList,
          KeyMap.insert_before, KeyMap.insert_behind, Document.loadMembers, step, read]

/-! ## Members of one kind -/

namespace FieldKind

def pairs (kind : FieldKind) : List (String × Json) := kind.members.filterMap id

theorem key_mem_of_pairs (kind : FieldKind) :
    ∀ entry ∈ kind.pairs, entry.1 ∈ kind.tag.memberKeys := by
  cases kind with
  | text input placeholder =>
      cases placeholder <;> simp [pairs, members, Json.optionalText, tag, KindTag.memberKeys]
  | checkbox options => cases options <;> simp [pairs, members, tag, KindTag.memberKeys]
  | button action id =>
      cases id <;> simp [pairs, members, Json.optionalText, tag, KindTag.memberKeys]
  | radio | toggle | dynamic | static => simp [pairs, members, tag, KindTag.memberKeys]

def Loads (kind : FieldKind) : Prop :=
  ∃ parts, KindParts.load kind.tag {} (ofMembers (KeyMap.ofList kind.pairs)) = .ok parts ∧
    parts.finish kind.tag = .ok kind

theorem loads_text (input : TextInput) (placeholder : Option String) :
    (text input placeholder).Loads := by
  have read : (Document.text input.name).loadName TextInput.ofName?
      (TextInput.all.map TextInput.name) = .ok input := by cases input <;> rfl
  refine ⟨{ input := some input, placeholder := placeholder.map some }, ?_, ?_⟩
  · cases placeholder <;>
      simp (disch := decide) [tag, pairs, members, Json.optionalText, List.filterMap_cons,
        KeyMap.ofList, KeyMap.insert_behind, KindParts.load_plain, KindParts.load_nil,
        KindParts.step, read]
  · cases placeholder <;> rfl

theorem loads_button (action : ButtonAction) (id : Option ButtonId) : (button action id).Loads := by
  have read : (Document.text action.name).loadName ButtonAction.ofName?
      (ButtonAction.all.map ButtonAction.name) = .ok action := by cases action <;> rfl
  refine ⟨{ action := some action, id := id.map some }, ?_, ?_⟩
  · cases id <;>
      simp (disch := decide) [tag, pairs, members, Json.optionalText, List.filterMap_cons,
        KeyMap.ofList, KeyMap.insert_behind, KindParts.load_plain, KindParts.load_nil,
        KindParts.step, read]
  · cases id <;> rfl

theorem loads_static (content : String) : (static content).Loads := by
  refine ⟨{ content := some content }, ?_, rfl⟩
  simp (disch := decide) [tag, pairs, members, List.filterMap_cons, KeyMap.ofList,
    KindParts.load_plain, KindParts.load_nil, KindParts.step]

theorem loads_toggle : toggle.Loads := by
  refine ⟨{}, ?_, rfl⟩
  simp [tag, pairs, members, KeyMap.ofList, KindParts.load_nil]

theorem loads_radio {options : List FieldOption}
    (loaded :
      FieldOption.loadAll (Document.ofItems (FieldOption.allToJson options)) = .ok options) :
    (radio options).Loads := by
  refine ⟨{ options := some (some options) }, ?_, rfl⟩
  simp (disch := decide) [tag, pairs, members, List.filterMap_cons, KeyMap.ofList,
    KindParts.load_options, KindParts.load_nil, loaded]

theorem loads_checkbox {options : Option (List FieldOption)}
    (loaded : ∀ given, options = some given →
      FieldOption.loadAll (Document.ofItems (FieldOption.allToJson given)) = .ok given) :
    (checkbox options).Loads := by
  refine ⟨{ options := options.map some }, ?_, ?_⟩
  · cases options with
    | none => simp [tag, pairs, members, KeyMap.ofList, KindParts.load_nil]
    | some options =>
        simp (disch := decide) [tag, pairs, members, List.filterMap_cons, KeyMap.ofList,
          KindParts.load_options, KindParts.load_nil, loaded options rfl]
  · cases options <;> rfl

theorem loads_dynamic {nested : List NestedField} {addButtonLabel : String}
    (loaded : NestedField.loadAll (Document.ofItems (NestedField.allToJson nested)) = .ok nested) :
    (dynamic nested addButtonLabel).Loads := by
  refine ⟨{ nested := some nested, addButtonLabel := some addButtonLabel }, ?_, rfl⟩
  simp (disch := decide) [tag, pairs, members, List.filterMap_cons, KeyMap.ofList,
    KeyMap.insert_before, KindParts.load_plain, KindParts.load_template, KindParts.load_nil,
    KindParts.step, loaded]

end FieldKind

/-! ## Fields -/

theorem KindTag.memberKeys_apart {tag : KindTag} {key : String} (member : key ∈ tag.memberKeys) :
    key ∉ CommonParts.keys ∧ key ≠ "kind" ∧ key ≠ "disable_on_first" := by
  revert key
  cases tag <;> simp [memberKeys, CommonParts.keys]

namespace Field

def pairs (f : Field) : List (String × Json) := f.members.filterMap id

theorem pairs_eq (f : Field) :
    f.pairs = CommonParts.pairs f.name f.label f.tooltip f.adminOnly ++
      ("kind", .text f.tag.name) :: f.kind.pairs := by
  obtain ⟨name, label, tooltip, adminOnly, kind⟩ := f
  rw [pairs, members, List.filterMap_append]
  have common : (commonMembers name label tooltip adminOnly kind.tag).filterMap id =
      CommonParts.pairs name label tooltip adminOnly ++ [("kind", .text kind.tag.name)] := by
    cases name <;> cases tooltip <;> cases adminOnly <;> rfl
  rw [common, List.append_assoc]
  rfl

theorem key_mem_of_commonPairs (f : Field) :
    ∀ entry ∈ CommonParts.pairs f.name f.label f.tooltip f.adminOnly,
      entry.1 ∈ CommonParts.keys := by
  cases f.name <;> cases f.tooltip <;> cases f.adminOnly <;>
    simp [CommonParts.pairs, CommonParts.keys, Json.optionalText]

/-- The members of the document of a field, or of a field in a template with its mark. -/
def pairsWith (mark : Option Bool) (f : Field) : List (String × Json) :=
  mark.toList.map (fun marked => ("disable_on_first", .bool marked)) ++ f.pairs

theorem filter_all {entries : List (String × Json)} {keep : String → Bool} {keeps : Bool}
    (all : ∀ entry ∈ entries, keep entry.1 = keeps) :
    entries.filter (fun entry => keep entry.1) = if keeps then entries else [] := by
  cases keeps with
  | true => exact List.filter_eq_self.mpr all
  | false => exact List.filter_eq_nil_iff.mpr fun entry member => by simp [all entry member]

/-- A reader that knows all or none of the members of each sort sees just those that it knows. -/
theorem filter_pairsWith (mark : Option Bool) (f : Field) (keep : String → Bool)
    (keepsCommon keepsMember : Bool) (common : ∀ key ∈ CommonParts.keys, keep key = keepsCommon)
    (ofKind : ∀ key ∈ f.tag.memberKeys, keep key = keepsMember) :
    (f.pairsWith mark).filter (fun entry => keep entry.1) =
      (if keep "disable_on_first" then
        mark.toList.map fun marked => ("disable_on_first", .bool marked) else []) ++
      ((if keepsCommon then CommonParts.pairs f.name f.label f.tooltip f.adminOnly else []) ++
      ((if keep "kind" then [("kind", .text f.tag.name)] else []) ++
        if keepsMember then f.kind.pairs else [])) := by
  have marks : ∀ entry ∈ mark.toList.map fun marked => ("disable_on_first", Json.bool marked),
      keep entry.1 = keep "disable_on_first" := by
    cases mark <;> simp
  have commons := fun entry member => common _ (f.key_mem_of_commonPairs entry member)
  have members := fun entry member => ofKind _ (f.kind.key_mem_of_pairs entry member)
  rw [pairsWith, pairs_eq, List.filter_append, List.filter_append, filter_all marks,
    filter_all commons, List.filter_cons, filter_all members]
  cases keep "kind" <;> rfl

theorem filter_common (mark : Option Bool) (f : Field) :
    (f.pairsWith mark).filter (fun entry => entry.1 ∈ CommonParts.keys) =
      CommonParts.pairs f.name f.label f.tooltip f.adminOnly := by
  have filtered := f.filter_pairsWith mark (fun key => key ∈ CommonParts.keys) true false
    (fun key member => decide_eq_true member)
    fun key member => decide_eq_false (KindTag.memberKeys_apart member).1
  rw [filtered]
  simp [CommonParts.keys]

theorem filter_kind (mark : Option Bool) (f : Field) :
    (f.pairsWith mark).filter (fun entry => entry.1 = "kind") = [("kind", .text f.tag.name)] := by
  have filtered := f.filter_pairsWith mark (fun key => key = "kind") false false
    (by decide)
    fun key member => decide_eq_false (KindTag.memberKeys_apart member).2.1
  rw [filtered]
  simp

theorem filter_mark (mark : Option Bool) (f : Field) :
    (f.pairsWith mark).filter (fun entry => entry.1 = "disable_on_first") =
      mark.toList.map fun marked => ("disable_on_first", .bool marked) := by
  have filtered := f.filter_pairsWith mark (fun key => key = "disable_on_first") false false
    (by decide)
    fun key member => decide_eq_false (KindTag.memberKeys_apart member).2.2
  rw [filtered]
  simp

theorem filter_members (mark : Option Bool) (f : Field) :
    (f.pairsWith mark).filter (fun entry => entry.1 ∈ f.tag.memberKeys) = f.kind.pairs := by
  have known : ∀ key ∈ CommonParts.keys, key ∉ f.tag.memberKeys :=
    fun key member inKind => (KindTag.memberKeys_apart inKind).1 member
  have notKind : "kind" ∉ f.tag.memberKeys :=
    fun inKind => (KindTag.memberKeys_apart inKind).2.1 rfl
  have notMark : "disable_on_first" ∉ f.tag.memberKeys :=
    fun inKind => (KindTag.memberKeys_apart inKind).2.2 rfl
  have filtered := f.filter_pairsWith mark (fun key => key ∈ f.tag.memberKeys) false true
    (fun key member => decide_eq_false (known key member))
    fun key member => decide_eq_true member
  rw [filtered]
  simp [notKind, notMark]

/-- The field is loaded from its members, also where a mark stands beside them. -/
def Loads (f : Field) : Prop :=
  ∀ mark, Field.load (.object (ofMembers (KeyMap.ofList (f.pairsWith mark))) none) = .ok f

theorem loads_of_kind {f : Field} (printable : ∀ p, f.name = some p → p.Printable)
    (kindLoads : f.kind.Loads) : f.Loads := by
  intro mark
  obtain ⟨parts, partsRead, finished⟩ := kindLoads
  -- Three readers go through all members, and each sees just those that it knows.
  have common := CommonParts.load_filter (KeyMap.ofList (f.pairsWith mark)) {}
  rw [KeyMap.filter_ofList (fun key => decide (key ∈ CommonParts.keys)), filter_common,
    CommonParts.load_pairs f.label f.tooltip f.adminOnly printable] at common
  have kind := KindTag.loadFrom_filter (KeyMap.ofList (f.pairsWith mark)) none
  rw [KeyMap.filter_ofList (fun key => decide (key = "kind")), filter_kind] at kind
  have tagRead : KindTag.loadFrom none (ofMembers (KeyMap.ofList [("kind", .text f.tag.name)])) =
      .ok f.tag := by
    cases f.tag <;> rfl
  have members := KindParts.load_filter (KeyMap.ofList (f.pairsWith mark)) f.tag {}
  rw [KeyMap.filter_ofList (fun key => decide (key ∈ f.tag.memberKeys)), filter_members] at members
  rw [load, common, ok_bind, Document.close_none, ok_bind, kind, tagRead, ok_bind, members]
  simp only [tag, partsRead, ok_bind, finished]
  obtain ⟨name, label, tooltip, adminOnly, kind⟩ := f
  cases name <;> cases tooltip <;> cases adminOnly <;> rfl

theorem Loads.toJson {f : Field} (loads : f.Loads) : Field.load (ofJson f.toJson) = .ok f :=
  loads none

end Field

/-! ## Fields in fields -/

theorem NestedField.load_object (members : List (Option String × Document))
    (stop : Option TextFault) :
    NestedField.load (.object members stop) =
      loadMark none members >>= fun mark =>
        Field.load (.object members stop) >>= fun f => .ok ⟨f, mark⟩ := by
  simp only [load, Field.load, bind_assoc, ok_bind]

theorem NestedField.load_toJson {spec : NestedField} (loads : spec.field.Loads) :
    NestedField.load (ofJson spec.toJson) = .ok spec := by
  obtain ⟨f, mark⟩ := spec
  have members : (NestedField.members ⟨f, mark⟩).filterMap id = f.pairsWith (some mark) := rfl
  have marked := loadMark_filter (KeyMap.ofList (f.pairsWith (some mark))) none
  rw [KeyMap.filter_ofList (fun key => decide (key = "disable_on_first")), Field.filter_mark]
    at marked
  rw [toJson, Document.ofJson_ofOptionalMembers, members, load_object, marked, loads (some mark)]
  rfl

theorem NestedField.loadAll_toJson {nested : List NestedField}
    (loads : ∀ spec ∈ nested, spec.field.Loads) :
    loadAll (Document.ofItems (allToJson nested)) = .ok nested := by
  induction nested with
  | nil => rfl
  | cons spec rest ih =>
      obtain ⟨first, restLoads⟩ := List.forall_mem_cons.mp loads
      rw [allToJson, Document.ofItems_cons, loadAll, ih restLoads]
      have read := load_toJson first
      rw [toJson] at read
      rw [read]
      rfl

theorem FieldOption.load_toJson {option : FieldOption} (ordered : option.value.Ordered)
    (loads : ∀ g, option.reveals = some g → g.Loads) :
    FieldOption.load (ofJson (Json.ofOptionalMembers option.members)) = .ok option := by
  obtain ⟨label, value, reveals⟩ := option
  have read := Document.loadJson_ofJson ordered
  simp only at read
  cases reveals with
  | none =>
      simp (disch := decide) [members, Json.ofOptionalMembers, Json.ofMembers, List.filterMap_cons,
        KeyMap.ofList, KeyMap.insert_behind, ofJson, load, OptionParts.load, OptionParts.finish,
        read]
  | some g =>
      have revealed := (loads g rfl).toJson
      obtain ⟨entries, isObject⟩ : ∃ entries, g.toJson = .object entries := ⟨_, rfl⟩
      rw [isObject, ofJson] at revealed
      have written : members ⟨label, value, some g⟩ =
          [some ("label", .text label), some ("value", value),
            some ("reveals", .object entries)] := by
        rw [members, ← isObject, Field.toJson]
      rw [written]
      simp (disch := decide) [Json.ofOptionalMembers, Json.ofMembers, List.filterMap_cons,
        KeyMap.ofList, KeyMap.insert_before, KeyMap.insert_behind, ofJson, load, OptionParts.load,
        OptionParts.finish, read, revealed, Except.map]

theorem FieldOption.loadAll_toJson {options : List FieldOption}
    (ordered : ∀ option ∈ options, option.value.Ordered)
    (loads : ∀ option ∈ options, ∀ g, option.reveals = some g → g.Loads) :
    loadAll (Document.ofItems (allToJson options)) = .ok options := by
  induction options with
  | nil => rfl
  | cons option rest ih =>
      obtain ⟨firstOrdered, restOrdered⟩ := List.forall_mem_cons.mp ordered
      obtain ⟨first, restLoads⟩ := List.forall_mem_cons.mp loads
      rw [allToJson, Document.ofItems_cons, loadAll, load_toJson firstOrdered first,
        ih restOrdered restLoads]
      rfl

/-! ## Portable fields -/

namespace Field

def choices (f : Field) : List FieldOption := f.options?.getD []

def template (f : Field) : List NestedField :=
  match f.kind with
  | .dynamic nested _ => nested
  | _ => []

/-- A document can hold the field and all that stands in it: names can be printed and option values
    are ordered. Every path that was read and every value of a tree is such a name and value. -/
inductive Portable : Field → Prop where
  | mk {f : Field} (name : ∀ p, f.name = some p → p.Printable)
      (values : ∀ option ∈ f.choices, option.value.Ordered)
      (revealed : ∀ option ∈ f.choices, ∀ g, option.reveals = some g → Portable g)
      (nested : ∀ spec ∈ f.template, Portable spec.field) : Portable f

theorem Portable.loads {f : Field} (portable : f.Portable) : f.Loads := by
  induction portable with
  | @mk f name values revealed nested revealedLoad nestedLoad =>
      refine loads_of_kind name ?_
      obtain ⟨name, label, tooltip, adminOnly, kind⟩ := f
      cases kind with
      | text input placeholder => exact FieldKind.loads_text input placeholder
      | radio options =>
          exact FieldKind.loads_radio (FieldOption.loadAll_toJson values revealedLoad)
      | checkbox options =>
          refine FieldKind.loads_checkbox fun given same => ?_
          subst same
          exact FieldOption.loadAll_toJson values revealedLoad
      | toggle => exact FieldKind.loads_toggle
      | dynamic nested addButtonLabel =>
          exact FieldKind.loads_dynamic (NestedField.loadAll_toJson nestedLoad)
      | button action id => exact FieldKind.loads_button action id
      | static content => exact FieldKind.loads_static content

end Field

end GatedForms

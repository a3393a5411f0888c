import GatedForms.Proofs.Field.Portable
import GatedForms.Proofs.Field.Same
import GatedForms.Proofs.Schema.WellFormed
import GatedForms.Schema.Document

/-! # Schemas and their documents

Whatever schema is in hand, built from its parts, loaded or gated, its document is loaded as the
same schema.
-/

namespace GatedForms

open Document (ofMembers ofJson)

/-! ## Arrays -/

namespace Document

variable {α : Type} {read : Document → Except LoadError α}

theorem loadItems_map {write : α → Json} {xs : List α}
    (each : ∀ x ∈ xs, read (ofJson (write x)) = .ok x) :
    loadItems read (ofItems (xs.map write)) = .ok xs := by
  induction xs with
  | nil => rfl
  | cons x rest ih =>
      obtain ⟨first, others⟩ := List.forall_mem_cons.mp each
      rw [List.map_cons, ofItems_cons, loadItems, first, ih others]
      rfl

theorem loadArray_map {write : α → Json} {xs : List α}
    (each : ∀ x ∈ xs, read (ofJson (write x)) = .ok x) :
    (ofJson (.array (xs.map write))).loadArray read = .ok xs := by
  rw [ofJson_array, loadArray, loadItems_map each]
  rfl

theorem forall_of_loadItems {Kept : α → Prop} (keeps : ∀ doc x, read doc = .ok x → Kept x)
    {docs : List Document} {xs : List α} (loaded : loadItems read docs = .ok xs) :
    ∀ x ∈ xs, Kept x := by
  induction docs generalizing xs with
  | nil =>
      cases loaded
      exact nofun
  | cons doc rest ih =>
      obtain ⟨first, firstRead, loaded⟩ := ok_of_bind loaded
      obtain ⟨others, othersRead, loaded⟩ := ok_of_bind loaded
      cases loaded
      exact List.forall_mem_cons.mpr ⟨keeps doc first firstRead, ih othersRead⟩

theorem forall_of_loadArray {Kept : α → Prop} (keeps : ∀ doc x, read doc = .ok x → Kept x)
    {doc : Document} {xs : List α} (loaded : doc.loadArray read = .ok xs) : ∀ x ∈ xs, Kept x := by
  unfold loadArray at loaded
  split at loaded
  · obtain ⟨items, itemsRead, loaded⟩ := ok_of_bind loaded
    obtain ⟨_, _, loaded⟩ := ok_of_bind loaded
    cases loaded
    exact forall_of_loadItems keeps itemsRead
  · exact absurd loaded (wrongType_ne_ok _ _)

end Document

/-! ## Sections -/

namespace FormSection

def Portable (part : FormSection) : Prop := ∀ f ∈ part.fields, f.Portable

theorem load_toJson {part : FormSection} (portable : part.Portable) (surplus : LoadError) :
    load surplus (ofJson part.toJson) = .ok part := by
  obtain ⟨title, backendKey, fields⟩ := part
  have read : (ofJson (.array (fields.map Field.toJson))).loadArray Field.load = .ok fields :=
    Document.loadArray_map fun f member => (portable f member).loads.toJson
  rw [Document.ofJson_array] at read
  cases title <;>
    simp (disch := decide) [toJson, Document.ofJson_ofOptionalMembers, Json.optionalText,
      List.filterMap_cons, KeyMap.ofList, KeyMap.insert_before, KeyMap.insert_behind, load,
      Document.loadMembers, Parts.step, read]

theorem Parts.fields_step {parts next : Parts} {key : String} {doc : Document}
    (stepped : parts.step key doc = .ok next) :
    Document.Filled (Document.loadArray Field.load) doc parts.fields next.fields := by
  unfold step at stepped
  split at stepped
  case h_1 | h_2 =>
    -- The title and the key.
    obtain ⟨_, _, rfl⟩ := Document.put_of_once stepped
    exact .kept rfl
  case h_3 =>
    obtain ⟨fields, fieldsRead, rfl⟩ := Document.put_of_once stepped
    exact .filled fieldsRead rfl
  case h_4 =>
    -- A member of another key is passed over.
    obtain ⟨_, _, stepped⟩ := ok_of_bind stepped
    cases stepped
    exact .kept rfl

theorem exists_fields_read {surplus : LoadError} {doc : Document} {part : FormSection}
    (read : load surplus doc = .ok part) :
    ∃ fields : Document, fields.loadArray Field.load = .ok part.fields := by
  unfold load at read
  split at read
  next members stop =>
    obtain ⟨parts, partsRead, read⟩ := ok_of_bind read
    obtain ⟨_, _, read⟩ := ok_of_bind read
    obtain ⟨backendKey, _, read⟩ := ok_of_bind read
    obtain ⟨fields, fieldsRead, read⟩ := ok_of_bind read
    cases read
    exact Document.exists_read_of_loadMembers Parts.fields Parts.fields_step rfl partsRead
      (Document.required_eq_ok.mp fieldsRead)
  next title backendKey fields more stop =>
    obtain ⟨title, _, read⟩ := ok_of_bind read
    obtain ⟨backendKey, _, read⟩ := ok_of_bind read
    obtain ⟨_, fieldsRead, read⟩ := ok_of_bind read
    split at read
    · obtain ⟨_, _, read⟩ := ok_of_bind read
      cases read
      exact ⟨fields, fieldsRead⟩
    · cases read
  -- A shorter list is refused, whatever its elements are.
  all_goals simp [bind_eq_ok, Document.wrongType_ne_ok] at read

theorem portable_of_load {surplus : LoadError} {doc : Document} {part : FormSection}
    (read : load surplus doc = .ok part) : part.Portable := by
  obtain ⟨_, fieldsRead⟩ := exists_fields_read read
  exact Document.forall_of_loadArray (fun _ _ => Field.portable_of_load) fieldsRead

theorem Portable.gateFields {part : FormSection} (portable : part.Portable)
    (paths : List AdminPath) (schemaKey : String) :
    (part.gateFields paths schemaKey).Portable := by
  intro f member
  obtain ⟨g, inPart, rfl⟩ := List.mem_map.mp member
  exact (portable g inPart).gate

theorem Portable.fillIds {part : FormSection} (portable : part.Portable) (sectionIndex : Nat) :
    (part.fillIds sectionIndex).Portable := by
  intro f member
  obtain ⟨i, inside, rfl⟩ := List.mem_mapIdx.mp member
  exact (portable _ (List.getElem_mem inside)).fillId sectionIndex i

end FormSection

/-! ## Schemas -/

namespace Schema

def Portable (s : Schema) : Prop := ∀ part ∈ s.sections, part.Portable

theorem load_toJson {s : Schema} (wellFormed : s.WellFormed) (portable : s.Portable)
    (surplus : LoadError) : load surplus (Document.ofJson s.toJson) = .ok s := by
  obtain ⟨title, backendKey, sections⟩ := s
  have read : (Document.ofJson (.array (sections.map FormSection.toJson))).loadArray
      (FormSection.load surplus) = .ok sections :=
    Document.loadArray_map fun part member => FormSection.load_toJson (portable part member) surplus
  have built : build title backendKey sections = .ok ⟨title, backendKey, sections⟩ :=
    build_eq_ok.mpr ⟨wellFormed.sections, by rw [wellFormed.filled]⟩
  rw [Document.ofJson_array] at read
  simp (disch := decide) [toJson, Json.ofMembers, Document.ofJson, KeyMap.ofList,
    KeyMap.insert_before, KeyMap.insert_behind, load, Document.loadMembers, Parts.step, read,
    buildLoaded, built]

theorem portable_of_build {title backendKey : String} {sections : List FormSection} {s : Schema}
    (portable : ∀ part ∈ sections, part.Portable)
    (accepted : build title backendKey sections = .ok s) : s.Portable := by
  obtain ⟨-, rfl⟩ := build_eq_ok.mp accepted
  intro part member
  obtain ⟨i, inside, rfl⟩ := List.mem_mapIdx.mp member
  exact (portable _ (List.getElem_mem inside)).fillIds i

theorem Portable.gate {s : Schema} (portable : s.Portable) (paths : List AdminPath) :
    (s.gate paths).Portable := by
  intro part member
  rw [sections_gate_eq] at member
  obtain ⟨ungated, before, rfl⟩ := List.mem_map.mp member
  exact (portable ungated before).gateFields paths s.backendKey

theorem buildLoaded_eq_ok {title backendKey : String} {sections : List FormSection} {s : Schema} :
    buildLoaded title backendKey sections = .ok s ↔ build title backendKey sections = .ok s := by
  unfold buildLoaded
  split
  · next schema accepted => simp [accepted]
  · next cause refused => simp [refused]

theorem Parts.sections_step {surplus : LoadError} {parts next : Parts} {key : String}
    {doc : Document} (stepped : parts.step surplus key doc = .ok next) :
    Document.Filled (Document.loadArray (FormSection.load surplus)) doc parts.sections
      next.sections := by
  unfold step at stepped
  split at stepped
  case h_1 | h_2 =>
    -- The title and the key.
    obtain ⟨_, _, rfl⟩ := Document.put_of_once stepped
    exact .kept rfl
  case h_3 =>
    obtain ⟨sections, sectionsRead, rfl⟩ := Document.put_of_once stepped
    exact .filled sectionsRead rfl
  case h_4 =>
    -- A member of another key is passed over.
    obtain ⟨_, _, stepped⟩ := ok_of_bind stepped
    cases stepped
    exact .kept rfl

theorem built_of_load {surplus : LoadError} {doc : Document} {s : Schema}
    (read : load surplus doc = .ok s) :
    ∃ title backendKey sections, build title backendKey sections = .ok s ∧
      ∃ parts : Document, parts.loadArray (FormSection.load surplus) = .ok sections := by
  unfold load at read
  split at read
  next members stop =>
    obtain ⟨parts, partsRead, read⟩ := ok_of_bind read
    obtain ⟨_, _, read⟩ := ok_of_bind read
    obtain ⟨title, _, read⟩ := ok_of_bind read
    obtain ⟨backendKey, _, read⟩ := ok_of_bind read
    obtain ⟨sections, sectionsRead, read⟩ := ok_of_bind read
    exact ⟨title, backendKey, sections, buildLoaded_eq_ok.mp read,
      Document.exists_read_of_loadMembers Parts.sections Parts.sections_step rfl partsRead
        (Document.required_eq_ok.mp sectionsRead)⟩
  next title backendKey sections more stop =>
    obtain ⟨title, _, read⟩ := ok_of_bind read
    obtain ⟨backendKey, _, read⟩ := ok_of_bind read
    obtain ⟨loaded, sectionsRead, read⟩ := ok_of_bind read
    split at read
    · obtain ⟨_, _, read⟩ := ok_of_bind read
      exact ⟨title, backendKey, loaded, buildLoaded_eq_ok.mp read, sections, sectionsRead⟩
    · cases read
  -- A shorter list is refused, whatever its elements are.
  all_goals simp [bind_eq_ok, Document.wrongType_ne_ok] at read

/-- A schema in hand: built of any sections that a document can hold, loaded from a value or a text,
    or gated. -/
inductive Issued : Schema → Prop where
  | built {title backendKey : String} {sections : List FormSection} {s : Schema}
      (portable : ∀ part ∈ sections, part.Portable)
      (accepted : build title backendKey sections = .ok s) : Issued s
  | ofJson {x : Json} {s : Schema} (accepted : Schema.ofJson x = .ok s) : Issued s
  | ofText {text : String} {s : Schema} (accepted : Schema.ofText text = .ok s) : Issued s
  | gated {s : Schema} (issued : Issued s) (paths : List AdminPath) : Issued (s.gate paths)

theorem Issued.keeps {s : Schema} (issued : s.Issued) : s.WellFormed ∧ s.Portable := by
  have ofBuilt {title backendKey : String} {sections : List FormSection} {s : Schema}
      (portable : ∀ part ∈ sections, part.Portable)
      (accepted : build title backendKey sections = .ok s) : s.WellFormed ∧ s.Portable :=
    ⟨wellFormed_of_build accepted, portable_of_build portable accepted⟩
  have ofLoaded {surplus : LoadError} {doc : Document} {s : Schema}
      (read : load surplus doc = .ok s) : s.WellFormed ∧ s.Portable := by
    obtain ⟨_, _, _, accepted, _, sectionsRead⟩ := built_of_load read
    exact ofBuilt (Document.forall_of_loadArray (fun _ _ => FormSection.portable_of_load)
      sectionsRead) accepted
  induction issued with
  | built portable accepted => exact ofBuilt portable accepted
  | ofJson accepted => exact ofLoaded accepted
  | ofText accepted =>
      obtain ⟨s, read, accepted⟩ := ok_of_bind accepted
      obtain ⟨_, _, accepted⟩ := ok_of_bind accepted
      cases accepted
      exact ofLoaded read
  | gated _ paths ih => exact ⟨ih.1.gate, ih.2.gate paths⟩

/-- The document of a schema in hand is loaded as this schema. The document of a field, or of a
    field in a template, that the constructors make or that was loaded is loaded as this field. -/
theorem documents_round_trip :
    (∀ s : Schema, s.Issued → Schema.ofJson s.toJson = .ok s ∧ s.same s = true) ∧
    (∀ f : Field, (f.Constructed ∨ ∃ doc, Field.load doc = .ok f) →
      Field.load (Document.ofJson f.toJson) = .ok f ∧ f.same f = true) ∧
    ∀ spec : NestedField,
      (spec.field.Constructed ∨ ∃ doc, NestedField.load doc = .ok spec) →
      NestedField.load (Document.ofJson spec.toJson) = .ok spec ∧
        NestedField.sameAll [spec] [spec] = true := by
  refine ⟨fun s issued => ?_, fun f obtained => ?_, fun spec obtained => ?_⟩
  · obtain ⟨wellFormed, portable⟩ := issued.keeps
    exact ⟨load_toJson wellFormed portable .wrongType, s.same_self⟩
  · have portable : f.Portable := by
      rcases obtained with made | ⟨doc, read⟩
      · exact made.portable
      · exact Field.portable_of_load read
    exact ⟨portable.loads.toJson, f.same_self⟩
  · have portable : spec.field.Portable := by
      rcases obtained with made | ⟨doc, read⟩
      · exact made.portable
      · exact Field.portable_of_load (NestedField.field_of_load read)
    exact ⟨NestedField.load_toJson portable.loads, NestedField.sameAll_self [spec]⟩

theorem constructed_delay : stepped.delay.Constructed :=
  .number (rfl : Field.number "delay" "Delay" = .ok stepped.delay)

theorem constructed_mode : stepped.mode.Constructed := by
  have built : Field.radio "mode" "Mode" [⟨"Later", .bool true, some stepped.delay⟩] =
      .ok stepped.mode := rfl
  refine .radio ?_ ?_ built
  · exact List.forall_mem_singleton.mpr (.bool true)
  · refine List.forall_mem_singleton.mpr fun g reveals => ?_
    cases reveals
    exact constructed_delay

theorem portable_stepped : ∀ part ∈ stepped, FormSection.Portable part := by
  have built : Field.dynamic "a.steps" "Steps" [⟨stepped.mode, false⟩] "Add" = .ok _ := rfl
  have steps := Field.Constructed.dynamic (List.forall_mem_singleton.mpr constructed_mode) built
  refine List.forall_mem_cons.mpr ⟨List.forall_mem_singleton.mpr steps.portable,
    List.forall_mem_singleton.mpr ?_⟩
  exact List.forall_mem_cons.mpr ⟨(Field.Constructed.button "Back" .previous).portable,
    List.forall_mem_singleton.mpr (Field.Constructed.button "Save" .submit).portable⟩

/-- Built and gated, the steps are written with the ids of their buttons and the marks, and loaded
    so. -/
theorem stepped_round_trip :
    ∃ s, build "Steps" "S" stepped = .ok s ∧
      Schema.ofJson (s.gate [⟨["S", "a"]⟩]).toJson = .ok (s.gate [⟨["S", "a"]⟩]) ∧
      Field.load (Document.ofJson stepped.mode.toJson) = .ok stepped.mode ∧
      NestedField.load (Document.ofJson (NestedField.mk stepped.mode true).toJson) =
        .ok ⟨stepped.mode, true⟩ := by
  obtain ⟨schemas, fields, nested⟩ := documents_round_trip
  have accepted : build "Steps" "S" stepped =
      .ok ⟨"Steps", "S", stepped.mapIdx FormSection.fillIds⟩ := rfl
  exact ⟨_, accepted, (schemas _ (.gated (.built portable_stepped accepted) _)).1,
    (fields _ (.inl constructed_mode)).1, (nested ⟨stepped.mode, true⟩ (.inl constructed_mode)).1⟩

end Schema

end GatedForms

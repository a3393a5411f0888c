import GatedForms.Field.Load
import GatedForms.Proofs.Paths.Display
import GatedForms.Proofs.Values.Ordered

/-! # Members of documents

The document of a value is read as this value. A reader of records takes up the members that it
knows and passes over all others, so what it reads depends on the members of known keys only.
-/

namespace GatedForms

namespace Document

mutual

/-- The document of a value can be read, and gives the value back if it is ordered. -/
theorem value_ofJson (x : Json) : ∃ y, (ofJson x).value = .ok y ∧ (x.Ordered → y = x) := by
  cases x with
  | null => exact ⟨_, rfl, fun _ => rfl⟩
  | bool b => exact ⟨_, rfl, fun _ => rfl⟩
  | int n => exact ⟨_, rfl, fun _ => rfl⟩
  | float number => exact ⟨_, rfl, fun _ => rfl⟩
  | text s => exact ⟨_, rfl, fun _ => rfl⟩
  | array items =>
      obtain ⟨read, itemsRead, same⟩ := itemValues_ofItems items
      refine ⟨.array read, by rw [ofJson, value, itemsRead]; rfl, fun ordered => ?_⟩
      cases ordered with
      | array each => rw [same each]
  | object members =>
      obtain ⟨read, membersRead, same⟩ := memberValues_ofMembers members
      refine ⟨Json.ofMembers read, by rw [ofJson, value, membersRead]; rfl, fun ordered => ?_⟩
      cases ordered with
      | object ascending each =>
          rw [same each, Json.ofMembers, KeyMap.ofList_of_ascending ascending]
termination_by sizeOf x

theorem itemValues_ofItems (items : List Json) :
    ∃ read, itemValues (ofItems items) = .ok read ∧
      ((∀ item ∈ items, item.Ordered) → read = items) := by
  cases items with
  | nil => exact ⟨[], rfl, fun _ => rfl⟩
  | cons item rest =>
      obtain ⟨first, firstRead, firstSame⟩ := value_ofJson item
      obtain ⟨others, othersRead, othersSame⟩ := itemValues_ofItems rest
      refine ⟨first :: others, by rw [ofItems, itemValues, firstRead, othersRead]; rfl, ?_⟩
      intro ordered
      obtain ⟨firstOrdered, restOrdered⟩ := List.forall_mem_cons.mp ordered
      rw [firstSame firstOrdered, othersSame restOrdered]
termination_by sizeOf items

theorem memberValues_ofMembers (members : List (String × Json)) :
    ∃ read, memberValues (ofMembers members) = .ok read ∧
      ((∀ entry ∈ members, entry.2.Ordered) → read = members) := by
  match members with
  | [] => exact ⟨[], rfl, fun _ => rfl⟩
  | (key, member) :: rest =>
      obtain ⟨first, firstRead, firstSame⟩ := value_ofJson member
      obtain ⟨others, othersRead, othersSame⟩ := memberValues_ofMembers rest
      refine ⟨(key, first) :: others, ?_, ?_⟩
      · rw [ofMembers, memberValues, firstRead, othersRead]
        rfl
      · intro ordered
        obtain ⟨firstOrdered, restOrdered⟩ := List.forall_mem_cons.mp ordered
        rw [firstSame firstOrdered, othersSame restOrdered]
termination_by sizeOf members

end

/-! ## Documents of known shape -/

@[simp] theorem ofMembers_nil : ofMembers [] = [] := rfl

@[simp] theorem ofMembers_cons (key : String) (x : Json) (rest : List (String × Json)) :
    ofMembers ((key, x) :: rest) = (some key, ofJson x) :: ofMembers rest := rfl

@[simp] theorem ofItems_cons (x : Json) (rest : List Json) :
    ofItems (x :: rest) = ofJson x :: ofItems rest := rfl

@[simp] theorem ofJson_text (s : String) : ofJson (.text s) = .text s := rfl

@[simp] theorem ofJson_bool (b : Bool) : ofJson (.bool b) = .bool b := rfl

@[simp] theorem ofJson_array (items : List Json) :
    ofJson (.array items) = .array (ofItems items) none := rfl

@[simp] theorem once_none {α : Type} (key : String) : once key (none : Option α) = .ok () := rfl

@[simp] theorem close_none : close none = .ok () := rfl

@[simp] theorem required_some {α : Type} (key : String) (read : α) :
    required key (some read) = .ok read := rfl

@[simp] theorem loadText_text (s : String) : (text s).loadText = .ok s := rfl

@[simp] theorem loadOptionalText_text (s : String) : (text s).loadOptionalText = .ok (some s) := rfl

@[simp] theorem loadBool_bool (b : Bool) : (bool b).loadBool = .ok b := rfl

theorem loadOptionalPath_display {p : Path} (printable : p.Printable) :
    (text p.display).loadOptionalPath = .ok (some p) := by
  simp [loadOptionalPath, Path.parse_display printable]

theorem loadJson_ofJson {x : Json} (ordered : x.Ordered) : (ofJson x).loadJson = .ok x := by
  obtain ⟨y, read, same⟩ := value_ofJson x
  rw [loadJson, read, same ordered]
  rfl

theorem ofJson_ofOptionalMembers (members : List (Option (String × Json))) :
    ofJson (Json.ofOptionalMembers members) =
      .object (ofMembers (KeyMap.ofList (members.filterMap id))) none := rfl

/-! ## Members that a reader knows -/

variable (known : String → Bool) {α : Type}

/-- A reader that leaves what it has read as it is at members it does not know. -/
theorem loadMembers_filter {step : α → String → Document → Except LoadError α}
    (passes : ∀ soFar key x, known key = false → step soFar key (ofJson x) = .ok soFar)
    (soFar : α) (entries : List (String × Json)) :
    loadMembers step soFar (ofMembers entries) =
      loadMembers step soFar (ofMembers (entries.filter fun entry => known entry.1)) := by
  induction entries generalizing soFar with
  | nil => rfl
  | cons entry rest ih =>
      obtain ⟨key, x⟩ := entry
      cases isKnown : known key with
      | true =>
          simp only [List.filter_cons, isKnown, if_true, ofMembers, loadMembers, ih]
      | false =>
          simp only [List.filter_cons, isKnown, Bool.false_eq_true, if_false, ofMembers,
            loadMembers, passes soFar key x isKnown]
          exact ih soFar

end Document

end GatedForms

import GatedForms.Group
import GatedForms.Proofs.Values.Removal

/-! # Edits of dynamic groups

Appending and removing repetitions of a group, in any order and however often, is appending to a
list and erasing from it: the answers are those of the list, the records of the group are the list,
and what stands beside the group stays. An appended repetition can be removed again without a trace.
-/

namespace GatedForms

inductive GroupEdit where
  /-- Append an empty repetition. -/
  | append
  /-- Remove the repetition at a position. -/
  | remove (position : Nat)

inductive GroupAnswer where
  /-- The position of the new repetition. -/
  | appended (position : Nat)
  /-- The record that was removed. -/
  | removed (record : Json)

namespace GroupEdit

/-- The change of a plain list of records; `name` only appears in the answer. -/
def change (name : Path) (records : List Json) :
    GroupEdit → Except GroupError GroupAnswer × List Json
  | .append => (.ok (.appended records.length), records ++ [.object []])
  | .remove position =>
      match records[position]? with
      | some record => (.ok (.removed record), records.eraseIdx position)
      | none => (.error (.outOfRange name.display position records.length), records)

/-- Changes of a plain list of records, one after the other: the answers and the last list. -/
def changeAll (name : Path) (records : List Json) :
    List GroupEdit → List (Except GroupError GroupAnswer) × List Json
  | [] => ([], records)
  | edit :: rest =>
      let done := edit.change name records
      let others := changeAll name done.2 rest
      (done.1 :: others.1, others.2)

end GroupEdit

namespace Field

/-- Change a group. Values that a failed change does not give back are kept. -/
def edit (f : Field) (values : Values) : GroupEdit → Except GroupError GroupAnswer × Values
  | .append =>
      match f.appendRepetition values with
      | .ok (position, left) => (.ok (.appended position), left)
      | .error cause => (.error cause, values)
  | .remove position =>
      match f.removeRepetition values position with
      | .ok (record, left) => (.ok (.removed record), left)
      | .error cause => (.error cause, values)

def editAll (f : Field) (values : Values) :
    List GroupEdit → List (Except GroupError GroupAnswer) × Values
  | [] => ([], values)
  | change :: rest =>
      let done := f.edit values change
      let others := f.editAll done.2 rest
      (done.1 :: others.1, others.2)

end Field

/-! ## Records of a group -/

namespace Values

variable {v : Values} {name : Path} {position : Nat}

theorem get?_of_records (inside : position < (v.records name).length) :
    v.get? name = some (.array (v.records name)) := by
  have found : (v.get? name).bind (Json.item? position) = some (v.records name)[position] := by
    rw [Json.bind_item?]
    exact List.getElem?_eq_getElem inside
  obtain ⟨x, stored, item⟩ := Option.bind_eq_some_iff.mp found
  obtain ⟨items, rfl, -⟩ := Json.item?_eq_some.mp item
  rw [records, stored, Json.itemsOrEmpty]

theorem toJson_set_index (v : Values) (name : Path) (position : Nat) (w : Json) :
    (v.set (name.index position) w).toJson =
      Json.write (.array ((Json.padded (v.records name) position).set position w)) name.segments
        (some v.toJson) := by
  rw [toJson_set, Path.segments_index, Json.write_append]
  rfl

theorem padded_records (v : Values) (name : Path) (w : Json) :
    (Json.padded (v.records name) (v.records name).length).set (v.records name).length w =
      v.records name ++ [w] := by
  rw [Json.padded, List.set_append_right _ _ (Nat.le_refl _)]
  simp

theorem records_set_next (v : Values) (name : Path) (w : Json) :
    (v.set (name.index (v.records name).length) w).records name = v.records name ++ [w] := by
  have written : (v.set (name.index (v.records name).length) w).get? name =
      some (.array (v.records name ++ [w])) := by
    rw [get?_eq, toJson_set_index, Json.get?_write_self, padded_records]
  rw [records, written]
  rfl

theorem records_remove (inside : position < (v.records name).length) :
    (v.remove (name.index position)).2.records name = (v.records name).eraseIdx position := by
  obtain ⟨items, before, after, -⟩ := (lacksElement_remove (get?_of_records inside) inside).shorter
  simp only [records, before, after, Json.itemsOrEmpty]

theorem get?_index_eq_none (outside : (v.records name).length ≤ position) :
    v.get? (name.index position) = none := by
  have absent : (v.records name)[position]? = none := List.getElem?_eq_none outside
  rw [get?_eq, Path.segments_index, Json.get?_append, Json.bind_get?_index]
  exact congrArg (Option.bind · _) absent

/-- A record that is appended to an array can be removed again without a trace. -/
theorem remove_set_next {items : List Json} (ordered : v.toJson.Ordered)
    (stored : v.get? name = some (.array items)) (w : Json) :
    ((v.set (name.index items.length) w).remove (name.index items.length)).2 = v := by
  have records : v.records name = items := by rw [records, stored, Json.itemsOrEmpty]
  have written : (v.set (name.index items.length) w).toJson =
      Json.write (.array (items ++ [w])) name.segments (some v.toJson) := by
    have padded := padded_records v name w
    rw [records] at padded
    rw [toJson_set_index, records, padded]
  have holds : (v.set (name.index items.length) w).get? name = some (.array (items ++ [w])) := by
    rw [get?_eq, written, Json.get?_write_self]
  have inside : items.length < (items ++ [w]).length := by simp
  apply toJson_injective
  calc ((v.set (name.index items.length) w).remove (name.index items.length)).2.toJson
    _ = Json.write (.array ((items ++ [w]).eraseIdx items.length)) name.segments
          (some (v.set (name.index items.length) w).toJson) := toJson_remove_element holds inside
    _ = Json.write (.array items) name.segments
          (some (v.set (name.index items.length) w).toJson) := by
        simp [List.eraseIdx_append_of_length_le]
    _ = Json.write (.array items) name.segments (some v.toJson) := by
        rw [written, Json.write_write]
    _ = v.toJson := Json.write_of_get? ordered stored

end Values

/-! ## One change -/

namespace Field

variable {f : Field} {nested : List NestedField} {name : Path} {v : Values} {position : Nat}

theorem edit_append (group : f.group = .ok (name, nested)) (v : Values) :
    f.edit v .append =
      (.ok (.appended (v.records name).length),
        v.set (name.index (v.records name).length) (.object [])) := by
  simp only [edit, appendRepetition, nextRepetition, group]
  rfl

theorem edit_remove (group : f.group = .ok (name, nested))
    (inside : position < (v.records name).length) :
    f.edit v (.remove position) =
      (.ok (.removed (v.records name)[position]), (v.remove (name.index position)).2) := by
  have removed : (v.remove (name.index position)).1 = some (v.records name)[position] := by
    rw [Values.fst_remove, Values.get?_eq, Path.segments_index, Json.get?_append,
      ← Values.get?_eq, Values.get?_of_records inside]
    simp only [Option.bind_some, Json.get?, Json.item?, List.getElem?_eq_getElem inside]
  simp only [edit, removeRepetition, group, ok_bind, if_neg (Nat.not_le_of_lt inside)]
  simp only [removed]
  rfl

theorem edit_remove_outside (group : f.group = .ok (name, nested))
    (outside : (v.records name).length ≤ position) :
    f.edit v (.remove position) =
      (.error (.outOfRange name.display position (v.records name).length), v) := by
  simp only [edit, removeRepetition, group, ok_bind, if_pos outside]

/-- A change answers what the change of the list of records answers, and leaves these records. -/
theorem edit_changes (group : f.group = .ok (name, nested)) (v : Values) (change : GroupEdit) :
    (f.edit v change).1 = (change.change name (v.records name)).1 ∧
      (f.edit v change).2.records name = (change.change name (v.records name)).2 := by
  cases change with
  | append =>
      rw [edit_append group]
      exact ⟨rfl, Values.records_set_next v name (.object [])⟩
  | remove position =>
      by_cases inside : position < (v.records name).length
      · rw [edit_remove group inside, GroupEdit.change, List.getElem?_eq_getElem inside]
        exact ⟨rfl, Values.records_remove inside⟩
      · have outside := Nat.le_of_not_lt inside
        rw [edit_remove_outside group outside, GroupEdit.change, List.getElem?_eq_none outside]
        exact ⟨rfl, rfl⟩

theorem get?_edit (group : f.group = .ok (name, nested)) (v : Values) (change : GroupEdit)
    {q : Path} {common : List Segment} {key other : String}
    (parts : name.PartsAt q common (.key key) (.key other)) :
    (f.edit v change).2.get? q = v.get? q := by
  cases change with
  | append =>
      rw [edit_append group]
      have further :
          (name.index (v.records name).length).PartsAt q common (.key key) (.key other) :=
        ⟨parts.differ, parts.first.trans (List.prefix_append _ _), parts.second⟩
      exact (Values.written_set v _ _).otherKey q common key other further
  | remove position =>
      by_cases inside : position < (v.records name).length
      · rw [edit_remove group inside]
        have lacks := Values.lacksElement_remove (Values.get?_of_records inside) inside
        refine lacks.kept q parts.startsWith_eq_false fun element rest through => ?_
        have notInside := Path.startsWith_eq_false.mp parts.symm.startsWith_eq_false
        exact notInside ⟨_, by rw [through, Path.segments_through]⟩
      · rw [edit_remove_outside group (Nat.le_of_not_lt inside)]

/-! ## Many changes -/

theorem editAll_changes (group : f.group = .ok (name, nested)) (v : Values)
    (changes : List GroupEdit) :
    (f.editAll v changes).1 = (GroupEdit.changeAll name (v.records name) changes).1 ∧
      (f.editAll v changes).2.records name =
        (GroupEdit.changeAll name (v.records name) changes).2 := by
  induction changes generalizing v with
  | nil => exact ⟨rfl, rfl⟩
  | cons change rest ih =>
      obtain ⟨answer, records⟩ := edit_changes group v change
      obtain ⟨answers, last⟩ := ih (f.edit v change).2
      rw [records] at answers last
      refine ⟨?_, last⟩
      simp only [editAll, GroupEdit.changeAll]
      rw [answer, answers]

theorem get?_editAll (group : f.group = .ok (name, nested)) (v : Values)
    (changes : List GroupEdit) {q : Path} {common : List Segment} {key other : String}
    (parts : name.PartsAt q common (.key key) (.key other)) :
    (f.editAll v changes).2.get? q = v.get? q := by
  induction changes generalizing v with
  | nil => rfl
  | cons change rest ih => exact (ih _).trans (get?_edit group v change parts)

theorem ordered_edit (group : f.group = .ok (name, nested)) (v : OrderedValues)
    (change : GroupEdit) : (f.edit v.toValues change).2.toJson.Ordered := by
  cases change with
  | append =>
      rw [edit_append group]
      exact (v.set _ .noMembers).ordered
  | remove position =>
      by_cases inside : position < (v.records name).length
      · rw [edit_remove group inside]
        exact (v.remove _).ordered
      · rw [edit_remove_outside group (Nat.le_of_not_lt inside)]
        exact v.ordered

theorem ordered_editAll (group : f.group = .ok (name, nested)) (v : OrderedValues)
    (changes : List GroupEdit) : (f.editAll v.toValues changes).2.toJson.Ordered := by
  induction changes generalizing v with
  | nil => exact v.ordered
  | cons change rest ih => exact ih ⟨_, ordered_edit group v change⟩

theorem editAll_append_remove (group : f.group = .ok (name, nested)) {items : List Json}
    (ordered : v.toJson.Ordered) (stored : v.get? name = some (.array items)) :
    f.editAll v [.append, .remove items.length] =
      ([.ok (.appended items.length), .ok (.removed (.object []))], v) := by
  have records : v.records name = items := by rw [Values.records, stored, Json.itemsOrEmpty]
  have next := Values.records_set_next v name (.object [])
  rw [records] at next
  have inside : items.length <
      ((v.set (name.index items.length) (.object [])).records name).length := by
    rw [next]
    simp
  simp only [editAll, edit_append group, records, edit_remove group inside,
    Values.remove_set_next ordered stored]
  simp [next]

/-- A dynamic group is a list: changes answer and leave what they do of the list of its records, a
    removal behind the last record changes nothing, and neither does, after whatever changes, a
    repetition that is appended to an array and removed again. -/
theorem group_is_a_list {addButtonLabel : String}
    (isGroup : f.kind = .dynamic nested addButtonLabel) (named : f.name = some name) :
    (∀ (v : Values) changes,
      (f.editAll v changes).1 = (GroupEdit.changeAll name (v.records name) changes).1 ∧
      (f.editAll v changes).2.records name =
        (GroupEdit.changeAll name (v.records name) changes).2 ∧
      ∀ q common key other, name.PartsAt q common (.key key) (.key other) →
        (f.editAll v changes).2.get? q = v.get? q) ∧
    (∀ (v : Values) position, (v.records name).length ≤ position →
      f.edit v (.remove position) =
        (.error (.outOfRange name.display position (v.records name).length), v) ∧
      v.remove (name.index position) = (none, v)) ∧
    ∀ (v : OrderedValues) changes items,
      let edited := (f.editAll v.toValues changes).2
      edited.get? name = some (.array items) →
      f.editAll edited [.append, .remove items.length] =
        ([.ok (.appended items.length), .ok (.removed (.object []))], edited) := by
  have group : f.group = .ok (name, nested) := by simp only [Field.group, isGroup, named]
  refine ⟨fun v changes => ?_, fun v position outside => ?_, fun v changes items => ?_⟩
  · obtain ⟨answers, last⟩ := editAll_changes group v changes
    exact ⟨answers, last, fun q common key other parts => get?_editAll group v changes parts⟩
  · exact ⟨edit_remove_outside group outside,
      Values.remove_of_absent (Values.get?_index_eq_none outside)⟩
  · exact editAll_append_remove group (ordered_editAll group v changes)

def stepGroup : Field :=
  ⟨some ⟨"a", [.key "steps"]⟩, "steps", none, false,
    .dynamic [⟨⟨some ⟨"gap", []⟩, "gap", none, false, .text .number none⟩, false⟩] "Add"⟩

/-- One step, as it is read from a document. -/
def oneStep : OrderedValues :=
  .ofDocument (.object [(some "a", .object [(some "steps", .array [.bool true] none)] none)] none)
    rfl

/-- Steps are appended where a number stood, one is removed and another one is not there to be
    removed. A step that is appended to one step can be removed again. -/
theorem steps_come_and_go :
    let name : Path := ⟨"a", [.key "steps"]⟩
    let number : Values := ⟨[("a", .object [("on", .bool true), ("steps", .int 7)])]⟩
    let changed := stepGroup.editAll number [.append, .append, .remove 0, .remove 5]
    changed.1 = [.ok (.appended 0), .ok (.appended 1), .ok (.removed (.object [])),
        .error (.outOfRange "a.steps" 5 1)] ∧
      changed.2.records name = [.object []] ∧
      changed.2.get? ⟨"a", [.key "on"]⟩ = some (.bool true) ∧
      (stepGroup.editAll oneStep.toValues [.append, .remove 1]).2 = oneStep.toValues := by
  intro name number changed
  obtain ⟨run, -, restored⟩ := group_is_a_list (f := stepGroup) rfl rfl
  obtain ⟨answers, records, beside⟩ := run number [.append, .append, .remove 0, .remove 5]
  refine ⟨answers.trans rfl, records.trans rfl, ?_, ?_⟩
  · exact beside _ [.key "a"] "steps" "on" ⟨by decide, ⟨_, rfl⟩, ⟨_, rfl⟩⟩
  · exact congrArg Prod.snd (restored oneStep [] [.bool true] rfl)

end Field

end GatedForms

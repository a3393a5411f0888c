import GatedForms.Json.Document
import GatedForms.Proofs.KeyMap
import GatedForms.Proofs.Results
import GatedForms.Values

/-! # Ordered values

Objects keep their members in ascending order of their keys. A value read from a document is kept
that way whatever order its text has, and so is a value tree that is written to or removed from. An
ordered tree carries this with it.
-/

namespace GatedForms

namespace Json

/-- Every object in the value keeps its members in ascending order of their keys. -/
inductive Ordered : Json → Prop where
  | null : Ordered .null
  | bool (b : Bool) : Ordered (.bool b)
  | int (n : Int) : Ordered (.int n)
  | float (x : Binary64) : Ordered (.float x)
  | text (s : String) : Ordered (.text s)
  | array {items : List Json} (each : ∀ item ∈ items, Ordered item) : Ordered (.array items)
  | object {members : List (String × Json)} (ascending : KeyMap.Ascending members)
      (each : ∀ entry ∈ members, Ordered entry.2) : Ordered (.object members)

theorem member?_eq_some {x c : Json} {name : String} :
    x.member? name = some c ↔
      ∃ members, x = .object members ∧ KeyMap.find? name members = some c := by
  cases x with
  | object members => simp [member?]
  | null | bool | int | float | text | array => simp [member?]

theorem item?_eq_some {x c : Json} {position : Nat} :
    x.item? position = some c ↔ ∃ items, x = .array items ∧ items[position]? = some c := by
  cases x with
  | array items => simp [item?]
  | null | bool | int | float | text | object => simp [item?]

theorem Ordered.get? {x y : Json} (ordered : x.Ordered) {p : List Segment}
    (found : x.get? p = some y) : y.Ordered := by
  induction p generalizing x with
  | nil =>
      cases found
      exact ordered
  | cons s rest ih =>
      cases s with
      | key name =>
          obtain ⟨c, member, below⟩ := Option.bind_eq_some_iff.mp found
          obtain ⟨members, rfl, atKey⟩ := member?_eq_some.mp member
          cases ordered with
          | object _ each => exact ih (each _ (KeyMap.mem_of_find? atKey)) below
      | index position =>
          obtain ⟨c, item, below⟩ := Option.bind_eq_some_iff.mp found
          obtain ⟨items, rfl, atPosition⟩ := item?_eq_some.mp item
          cases ordered with
          | array each => exact ih (each _ (List.mem_of_getElem? atPosition)) below

/-! ## Objects from members -/

theorem Ordered.noMembers : (Json.object []).Ordered := .object KeyMap.ascending_nil nofun

theorem Ordered.ofMembers {members : List (String × Json)}
    (each : ∀ entry ∈ members, entry.2.Ordered) : (Json.ofMembers members).Ordered :=
  .object (KeyMap.ascending_ofList members) fun entry member =>
    each entry (KeyMap.mem_of_mem_ofList member)

/-! ## Writing and removing -/

variable {w : Json}

theorem Ordered.membersOrEmpty {old : Option Json} (ordered : ∀ x, old = some x → x.Ordered) :
    KeyMap.Ascending (Json.membersOrEmpty old) ∧
      ∀ entry ∈ Json.membersOrEmpty old, entry.2.Ordered := by
  match old with
  | none => exact ⟨KeyMap.ascending_nil, nofun⟩
  | some x =>
      cases ordered x rfl with
      | object ascending each => exact ⟨ascending, each⟩
      | null | bool | int | float | text | array => exact ⟨KeyMap.ascending_nil, nofun⟩

theorem Ordered.itemsOrEmpty {old : Option Json} (ordered : ∀ x, old = some x → x.Ordered) :
    ∀ item ∈ Json.itemsOrEmpty old, item.Ordered := by
  match old with
  | none => exact nofun
  | some x =>
      cases ordered x rfl with
      | array each => exact each
      | null | bool | int | float | text | object => exact nofun

/-- A write into an ordered value, or where nothing stands, leaves an ordered value. -/
theorem Ordered.write (ordered : w.Ordered) (p : List Segment) {old : Option Json}
    (oldOrdered : ∀ x, old = some x → x.Ordered) : (Json.write w p old).Ordered := by
  induction p generalizing old with
  | nil => exact ordered
  | cons s rest ih =>
      cases s with
      | key name =>
          obtain ⟨ascending, each⟩ := Ordered.membersOrEmpty oldOrdered
          refine .object (KeyMap.ascending_insert _ _ ascending) fun entry member => ?_
          rcases KeyMap.mem_insert member with rfl | before
          · exact ih fun x found => each _ (KeyMap.mem_of_find? found)
          · exact each entry before
      | index position =>
          have each := Ordered.itemsOrEmpty oldOrdered
          refine .array fun item member => ?_
          rcases List.mem_or_eq_of_mem_set member with before | rfl
          · rcases List.mem_append.mp before with old | pad
            · exact each item old
            · rw [List.eq_of_mem_replicate pad]
              exact .null
          · exact ih fun x found => each x (List.mem_of_getElem? found)

theorem Ordered.remove? {p : List Segment} {x removed left : Json} (ordered : x.Ordered)
    (done : Json.remove? p x = some (removed, left)) : left.Ordered := by
  fun_induction Json.remove? p x generalizing removed left with
  | case1 => cases done
  | case2 name members =>
      obtain ⟨value, found, rest⟩ := Option.map_eq_some_iff.mp done
      cases rest
      cases ordered with
      | object ascending each =>
          exact .object (KeyMap.ascending_erase name ascending) fun entry member =>
            each entry (List.mem_filter.mp member).1
  | case3 position items =>
      obtain ⟨value, found, rest⟩ := Option.map_eq_some_iff.mp done
      cases rest
      cases ordered with
      | array each => exact .array fun item member => each item (List.mem_of_mem_eraseIdx member)
  | case4 name rest members _ ih =>
      obtain ⟨child, found, further⟩ := Option.bind_eq_some_iff.mp done
      obtain ⟨⟨value, shrunk⟩, below, kept⟩ := Option.bind_eq_some_iff.mp further
      cases kept
      cases ordered with
      | object ascending each =>
          refine .object (KeyMap.ascending_insert name shrunk ascending) fun entry member => ?_
          rcases KeyMap.mem_insert member with rfl | before
          · exact ih child (each _ (KeyMap.mem_of_find? found)) below
          · exact each entry before
  | case5 position rest items _ ih =>
      obtain ⟨child, found, further⟩ := Option.bind_eq_some_iff.mp done
      obtain ⟨⟨value, shrunk⟩, below, kept⟩ := Option.bind_eq_some_iff.mp further
      cases kept
      cases ordered with
      | array each =>
          refine .array fun item member => ?_
          rcases List.mem_or_eq_of_mem_set member with before | rfl
          · exact each item before
          · exact ih child (each child (List.mem_of_getElem? found)) below
  | case6 => cases done

end Json

/-! ## Documents -/

namespace Document

mutual

/-- The value of a document is ordered, however its text orders the members. -/
theorem ordered_value {doc : Document} {x : Json} (read : doc.value = .ok x) : x.Ordered := by
  cases doc with
  | null => cases read; exact .null
  | bool b => cases read; exact .bool b
  | int n => cases read; exact .int n
  | float number => cases read; exact .float number
  | text s => cases read; exact .text s
  | array items stop =>
      rw [value] at read
      obtain ⟨values, itemsRead, kept⟩ := ok_of_bind read
      cases stop with
      | some fault => cases kept
      | none =>
          cases kept
          exact .array (ordered_itemValues itemsRead)
  | object members stop =>
      rw [value] at read
      obtain ⟨values, membersRead, kept⟩ := ok_of_bind read
      cases stop with
      | some fault => cases kept
      | none =>
          cases kept
          exact .ofMembers (ordered_memberValues membersRead)
  | flawed fault skipped => cases read
termination_by sizeOf doc

theorem ordered_itemValues {docs : List Document} {values : List Json}
    (read : itemValues docs = .ok values) : ∀ item ∈ values, item.Ordered := by
  cases docs with
  | nil =>
      cases read
      exact nofun
  | cons doc rest =>
      rw [itemValues] at read
      obtain ⟨first, firstRead, read⟩ := ok_of_bind read
      obtain ⟨others, othersRead, read⟩ := ok_of_bind read
      cases read
      exact List.forall_mem_cons.mpr ⟨ordered_value firstRead, ordered_itemValues othersRead⟩
termination_by sizeOf docs

theorem ordered_memberValues {docs : List (Option String × Document)}
    {values : List (String × Json)} (read : memberValues docs = .ok values) :
    ∀ entry ∈ values, entry.2.Ordered := by
  match docs with
  | [] =>
      cases read
      exact nofun
  | (none, _) :: _ => cases read
  | (some key, doc) :: rest =>
      rw [memberValues] at read
      obtain ⟨first, firstRead, read⟩ := ok_of_bind read
      obtain ⟨others, othersRead, read⟩ := ok_of_bind read
      cases read
      exact List.forall_mem_cons.mpr ⟨ordered_value firstRead, ordered_memberValues othersRead⟩
termination_by sizeOf docs

end

end Document

/-! ## Value trees -/

namespace Values

theorem get?_eq (values : Values) (path : Path) :
    values.get? path = values.toJson.get? path.segments := rfl

theorem toJson_set (values : Values) (path : Path) (w : Json) :
    (values.set path w).toJson = Json.write w path.segments (some values.toJson) := rfl

end Values

/-- A value tree whose objects keep their members in ascending order of their keys. -/
structure OrderedValues extends Values where
  ordered : toValues.toJson.Ordered

namespace OrderedValues

def empty : OrderedValues where
  toValues := .empty
  ordered := .noMembers

def ofDocument (doc : Document) {x : Json} (read : doc.value = .ok x) : OrderedValues where
  toValues := .ofJson x
  ordered := by
    cases Document.ordered_value read with
    | object ascending each => exact .object ascending each
    | null | bool | int | float | text | array => exact empty.ordered

def set (v : OrderedValues) (path : Path) {w : Json} (valueOrdered : w.Ordered) :
    OrderedValues where
  toValues := v.toValues.set path w
  ordered := by
    rw [Values.toJson_set]
    refine valueOrdered.write path.segments fun x same => ?_
    cases same
    exact v.ordered

/-- A removal, which may find nothing. -/
def remove (v : OrderedValues) (path : Path) : OrderedValues where
  toValues := (v.toValues.remove path).2
  ordered := by
    simp only [Values.remove]
    split
    · next removed members done => exact v.ordered.remove? done
    · exact v.ordered

end OrderedValues

end GatedForms

import GatedForms.Proofs.Paths
import GatedForms.Proofs.Values.Ordered

/-! # Reading after a write

A write may stand anywhere, also where nothing stood before. Some steps down it is a write into what
stands there, so what another way reads is decided at the step at which it leaves the written one:
by another key or index it reads what it read before, except for the nulls that pad an array, and by
a step of the other kind it reads nothing.
-/

namespace GatedForms

namespace Json

variable {w : Json}

theorem get?_append (p q : List Segment) (x : Json) :
    get? (p ++ q) x = (get? p x).bind (get? q) := by
  induction p generalizing x with
  | nil => rfl
  | cons s rest ih =>
      cases s with
      | key name =>
          simp only [List.cons_append, get?]
          cases x.member? name with
          | none => rfl
          | some c => exact ih c
      | index position =>
          simp only [List.cons_append, get?]
          cases x.item? position with
          | none => rfl
          | some c => exact ih c

theorem bind_get?_append (p q : List Segment) (old : Option Json) :
    old.bind (get? (p ++ q)) = (old.bind (get? p)).bind (get? q) := by
  rw [Option.bind_assoc]
  exact congrArg old.bind (funext (get?_append p q))

theorem bind_member? (old : Option Json) (name : String) :
    old.bind (member? name) = KeyMap.find? name (membersOrEmpty old) := by
  cases old with
  | none => rfl
  | some x => cases x <;> rfl

theorem bind_item? (old : Option Json) (position : Nat) :
    old.bind (item? position) = (itemsOrEmpty old)[position]? := by
  cases old with
  | none => rfl
  | some x => cases x <;> simp [item?, itemsOrEmpty]

theorem bind_get?_key (old : Option Json) (name : String) (rest : List Segment) :
    old.bind (get? (.key name :: rest)) =
      (KeyMap.find? name (membersOrEmpty old)).bind (get? rest) := by
  rw [← bind_member?, Option.bind_assoc]
  rfl

theorem bind_get?_index (old : Option Json) (position : Nat) (rest : List Segment) :
    old.bind (get? (.index position :: rest)) =
      (itemsOrEmpty old)[position]?.bind (get? rest) := by
  rw [← bind_item?, Option.bind_assoc]
  rfl

/-! ## Padded arrays -/

theorem padded_of_lt {items : List Json} {position : Nat} (inside : position < items.length) :
    padded items position = items := by
  simp [padded, Nat.sub_eq_zero_of_le (Nat.succ_le_of_lt inside)]

theorem length_padded (items : List Json) (position : Nat) :
    position < (padded items position).length := by
  simp only [padded, List.length_append, List.length_replicate]
  omega

theorem length_padded_set (items : List Json) (position : Nat) (x : Json) :
    ((padded items position).set position x).length = max items.length (position + 1) := by
  simp only [padded, List.length_set, List.length_append, List.length_replicate]
  omega

theorem lt_length_padded_set (items : List Json) (position : Nat) (x : Json) :
    position < ((padded items position).set position x).length := by
  rw [List.length_set]
  exact length_padded items position

theorem getElem?_padded_set {position other : Nat} (differ : position ≠ other) (items : List Json)
    (x : Json) :
    ((padded items position).set position x)[other]? =
      if items.length ≤ other ∧ other < position then some .null else items[other]? := by
  rw [List.getElem?_set_ne differ, padded, List.getElem?_append, List.getElem?_replicate]
  by_cases inside : other < items.length
  · rw [if_pos inside, if_neg (by omega)]
  · rw [if_neg inside, List.getElem?_eq_none (Nat.le_of_not_lt inside)]
    by_cases below : other < position
    · rw [if_pos (by omega), if_pos (by omega)]
    · rw [if_neg (by omega), if_neg (by omega)]

/-! ## Writes some steps down -/

theorem get?_write_key (name : String) (p q : List Segment) (old : Option Json) :
    (write w (.key name :: p) old).get? (.key name :: q) =
      (write w p (old.bind (member? name))).get? q := by
  simp only [write, get?, member?, KeyMap.find?_insert_self, bind_member?, Option.bind_some]

theorem get?_write_index (position : Nat) (p q : List Segment) (old : Option Json) :
    (write w (.index position :: p) old).get? (.index position :: q) =
      (write w p (old.bind (item? position))).get? q := by
  simp only [write, get?, item?, List.getElem?_set_self (length_padded _ position), bind_item?,
    Option.bind_some]

theorem get?_write_self (p : List Segment) (old : Option Json) :
    (write w p old).get? p = some w := by
  induction p generalizing old with
  | nil => rfl
  | cons s p ih =>
      cases s with
      | key name => rw [get?_write_key, ih]
      | index position => rw [get?_write_index, ih]

/-- A write some steps down writes what stands there, with the rest of the write made in it. -/
theorem write_append (p q : List Segment) (old : Option Json) :
    write w (p ++ q) old = write (write w q (old.bind (get? p))) p old := by
  induction p generalizing old with
  | nil =>
      cases old with
      | none | some => rfl
  | cons s p ih =>
      cases s with
      | key name => simp only [List.cons_append, write, ih, bind_get?_key]
      | index position => simp only [List.cons_append, write, ih, bind_get?_index]

theorem write_write (u : Json) (p : List Segment) (old : Option Json) :
    write w p (some (write u p old)) = write w p old := by
  induction p generalizing old with
  | nil => rfl
  | cons s p ih =>
      cases s with
      | key step =>
          simp only [write, membersOrEmpty, KeyMap.find?_insert_self, KeyMap.insert_insert, ih]
      | index position =>
          simp only [write, itemsOrEmpty, padded_of_lt (lt_length_padded_set _ _ _),
            List.getElem?_set_self (length_padded _ position), List.set_set, ih]

theorem get?_write_further (p rest : List Segment) (old : Option Json) :
    (write w p old).get? (p ++ rest) = w.get? rest := by
  rw [get?_append, get?_write_self, Option.bind_some]

/-- Where another way leaves a write, it goes on in what is written there. -/
theorem get?_write_beside (common p q : List Segment) (old : Option Json) :
    (write w (common ++ p) old).get? (common ++ q) =
      (write w p (old.bind (get? common))).get? q := by
  rw [write_append, get?_write_further]

/-! ## Ways that leave a write -/

theorem get?_write_of_other_key {name other : String} (differ : name ≠ other)
    (common p q : List Segment) (old : Option Json) :
    (write w (common ++ .key name :: p) old).get? (common ++ .key other :: q) =
      old.bind (get? (common ++ .key other :: q)) := by
  rw [get?_write_beside, bind_get?_append, bind_get?_key]
  simp only [write, get?, member?, KeyMap.find?_insert_ne _ _ differ]

/-- A way that leaves the written one at another index is read as before, unless it ends there at an
    element that pads the array. -/
theorem get?_write_of_other_index {position other : Nat} (differ : position ≠ other)
    (common p q : List Segment) (old : Option Json) :
    (write w (common ++ .index position :: p) old).get? (common ++ .index other :: q) =
      if q = [] ∧ (itemsOrEmpty (old.bind (get? common))).length ≤ other ∧ other < position then
        some .null
      else old.bind (get? (common ++ .index other :: q)) := by
  rw [get?_write_beside, bind_get?_append, bind_get?_index]
  simp only [write, get?, item?, getElem?_padded_set differ]
  generalize itemsOrEmpty (old.bind (get? common)) = items
  by_cases pads : items.length ≤ other ∧ other < position
  · rw [if_pos pads, Option.bind_some]
    cases q with
    | nil => rw [if_pos ⟨rfl, pads⟩, get?]
    | cons s q =>
        have absent : items[other]? = none := List.getElem?_eq_none pads.1
        rw [if_neg fun ends => List.cons_ne_nil s q ends.1, absent, Option.bind_none]
        cases s with
        | key | index => rfl
  · rw [if_neg pads, if_neg fun ends => pads ends.2]

theorem get?_write_of_other_kind {s t : Segment} (differ : Path.isIndex s ≠ Path.isIndex t)
    (common p q : List Segment) (old : Option Json) :
    (write w (common ++ s :: p) old).get? (common ++ t :: q) = none := by
  rw [get?_write_beside]
  cases s with
  | key name =>
      cases t with
      | key other => exact absurd rfl differ
      | index other => rfl
  | index position =>
      cases t with
      | key other => rfl
      | index other => exact absurd rfl differ

/-! ## Writes where something stands -/

theorem write_key {name : String} {rest : List Segment} {members : List (String × Json)} {c : Json}
    (found : KeyMap.find? name members = some c) :
    write w (.key name :: rest) (some (.object members)) =
      .object (KeyMap.insert name (write w rest (some c)) members) := by
  simp only [write, membersOrEmpty, found]

theorem write_index {position : Nat} {rest : List Segment} {items : List Json} {c : Json}
    (found : items[position]? = some c) :
    write w (.index position :: rest) (some (.array items)) =
      .array (items.set position (write w rest (some c))) := by
  obtain ⟨inside, _⟩ := List.getElem?_eq_some_iff.mp found
  simp only [write, itemsOrEmpty, found, padded_of_lt inside]

theorem write_of_get? {p : List Segment} {x y : Json} (ordered : x.Ordered)
    (found : x.get? p = some y) : write y p (some x) = x := by
  induction p generalizing x with
  | nil =>
      cases found
      rfl
  | cons s rest ih =>
      cases s with
      | key name =>
          obtain ⟨c, member, below⟩ := Option.bind_eq_some_iff.mp found
          obtain ⟨members, rfl, atKey⟩ := member?_eq_some.mp member
          cases ordered with
          | object ascending each =>
              rw [write_key atKey, ih (each _ (KeyMap.mem_of_find? atKey)) below,
                KeyMap.insert_of_find? ascending atKey]
      | index position =>
          obtain ⟨c, item, below⟩ := Option.bind_eq_some_iff.mp found
          obtain ⟨items, rfl, atPosition⟩ := item?_eq_some.mp item
          cases ordered with
          | array each =>
              obtain ⟨inside, rfl⟩ := List.getElem?_eq_some_iff.mp atPosition
              rw [write_index atPosition, ih (each _ (List.getElem_mem inside)) below,
                List.set_getElem_self]

theorem get?_of_other_kind {s t : Segment} (differ : Path.isIndex s ≠ Path.isIndex t)
    {p : List Segment} {x y : Json} (found : x.get? (s :: p) = some y) (q : List Segment) :
    x.get? (t :: q) = none := by
  cases s with
  | key name =>
      obtain ⟨c, member, -⟩ := Option.bind_eq_some_iff.mp found
      obtain ⟨members, rfl, -⟩ := member?_eq_some.mp member
      cases t with
      | key other => exact absurd rfl differ
      | index other => rfl
  | index position =>
      obtain ⟨c, item, -⟩ := Option.bind_eq_some_iff.mp found
      obtain ⟨items, rfl, -⟩ := item?_eq_some.mp item
      cases t with
      | key other => rfl
      | index other => exact absurd rfl differ

theorem get?_write_of_apart {p q : List Segment} {x : Json} (present : (x.get? p).isSome)
    (notBelow : ¬ p <+: q) (notAbove : ¬ q <+: p) :
    (write w p (some x)).get? q = x.get? q := by
  obtain ⟨common, s, t, p, q, rfl, rfl, differ⟩ := exists_first_difference notBelow notAbove
  obtain ⟨y, found⟩ := Option.isSome_iff_exists.mp present
  rw [get?_append] at found
  obtain ⟨box, atCommon, below⟩ := Option.bind_eq_some_iff.mp found
  by_cases sameKind : Path.isIndex s = Path.isIndex t
  · cases s with
    | key name =>
        cases t with
        | key other =>
            exact get?_write_of_other_key (fun same => differ (by rw [same])) common p q _
        | index other => cases sameKind
    | index position =>
        cases t with
        | key other => cases sameKind
        | index other =>
            -- The element is there already, so nothing is padded.
            obtain ⟨c, item, -⟩ := Option.bind_eq_some_iff.mp below
            obtain ⟨items, rfl, atPosition⟩ := item?_eq_some.mp item
            obtain ⟨inside, -⟩ := List.getElem?_eq_some_iff.mp atPosition
            rw [get?_write_of_other_index (fun same => differ (by rw [same])), if_neg]
            · rfl
            · rw [Option.bind_some, atCommon, itemsOrEmpty]
              omega
  · rw [get?_write_of_other_kind sameKind, get?_append, atCommon, Option.bind_some,
      get?_of_other_kind sameKind below]

theorem get?_write_append {p q : List Segment} {x y : Json} (found : x.get? p = some y) :
    (write w (p ++ q) (some x)).get? p = some (write w q (some y)) := by
  rw [write_append, get?_write_self, Option.bind_some, found]

end Json

end GatedForms

import GatedForms.Proofs.Values.Write

/-! # Writes beside each other

Two writes that part at a key or at an index can be made in either order, whatever stood there
before: each finds what it replaces as if the other had not been made, up to nulls that pad an
array.
-/

namespace GatedForms

namespace Json

variable {w : Json}

theorem write_null (p : List Segment) : write w p (some .null) = write w p none := by
  cases p with
  | nil => rfl
  | cons s p =>
      cases s with
      | key | index => rfl

/-- The second of two writes that part some steps down finds there what the first one wrote. -/
theorem write_beside (u : Json) (common p q : List Segment) (old : Option Json) :
    write w (common ++ p) (some (write u (common ++ q) old)) =
      write (write w p (some (write u q (old.bind (get? common))))) common old := by
  rw [write_append common p, write_append common q, Option.bind_some, get?_write_self, write_write]

/-- Writes commute if they do in what stands where they part. -/
theorem write_comm_below {u : Json} {p q : List Segment} (common : List Segment)
    (inside : ∀ box, write w p (some (write u q box)) = write u q (some (write w p box)))
    (old : Option Json) :
    write w (common ++ p) (some (write u (common ++ q) old)) =
      write u (common ++ q) (some (write w (common ++ p) old)) := by
  rw [write_beside, write_beside, inside]

theorem write_comm_of_other_key {name other : String} (differ : name ≠ other) (u : Json)
    (common p q : List Segment) (old : Option Json) :
    write w (common ++ .key name :: p) (some (write u (common ++ .key other :: q) old)) =
      write u (common ++ .key other :: q) (some (write w (common ++ .key name :: p) old)) := by
  refine write_comm_below common (fun box => ?_) old
  simp only [write, membersOrEmpty, KeyMap.find?_insert_ne _ _ differ,
    KeyMap.find?_insert_ne _ _ differ.symm]
  rw [KeyMap.insert_comm _ _ _ differ]

/-- A null that pads an array is written over like an element that is not there. -/
theorem write_padded {position other : Nat} (differ : position ≠ other) (items : List Json)
    (x : Json) (p : List Segment) :
    write w p ((padded items position).set position x)[other]? = write w p items[other]? := by
  rw [getElem?_padded_set differ]
  split
  · next pads => rw [List.getElem?_eq_none pads.1, write_null]
  · rfl

theorem padded_set_comm {position other : Nat} (differ : position ≠ other) (items : List Json)
    (x y : Json) :
    (padded ((padded items other).set other y) position).set position x =
      (padded ((padded items position).set position x) other).set other y := by
  apply List.ext_getElem?
  intro k
  by_cases atPosition : position = k
  · subst atPosition
    rw [List.getElem?_set_self (length_padded _ position), getElem?_padded_set differ.symm,
      List.getElem?_set_self (length_padded _ position), length_padded_set, if_neg (by omega)]
  · by_cases atOther : other = k
    · subst atOther
      rw [List.getElem?_set_self (length_padded _ other), getElem?_padded_set differ,
        List.getElem?_set_self (length_padded _ other), length_padded_set, if_neg (by omega)]
    · simp only [getElem?_padded_set atPosition, getElem?_padded_set atOther, length_padded_set]
      by_cases inside : k < items.length
      · rw [if_neg (by omega), if_neg (by omega), if_neg (by omega), if_neg (by omega)]
      · rw [List.getElem?_eq_none (Nat.le_of_not_lt inside)]
        grind

theorem write_comm_of_other_index {position other : Nat} (differ : position ≠ other) (u : Json)
    (common p q : List Segment) (old : Option Json) :
    write w (common ++ .index position :: p) (some (write u (common ++ .index other :: q) old)) =
      write u (common ++ .index other :: q)
        (some (write w (common ++ .index position :: p) old)) := by
  refine write_comm_below common (fun box => ?_) old
  simp only [write, itemsOrEmpty, write_padded differ, write_padded differ.symm]
  rw [padded_set_comm differ]

theorem write_comm_of_same_kind {s t : Segment} (differ : s ≠ t)
    (sameKind : Path.isIndex s = Path.isIndex t) (u : Json) (common p q : List Segment)
    (old : Option Json) :
    write w (common ++ s :: p) (some (write u (common ++ t :: q) old)) =
      write u (common ++ t :: q) (some (write w (common ++ s :: p) old)) := by
  cases s with
  | key name =>
      cases t with
      | key other =>
          exact write_comm_of_other_key (fun same => differ (by rw [same])) u common p q old
      | index other => cases sameKind
  | index position =>
      cases t with
      | key other => cases sameKind
      | index other =>
          exact write_comm_of_other_index (fun same => differ (by rw [same])) u common p q old

end Json

/-! ## Trees of form values -/

namespace Values

variable {v : Values} {p q : Path}

theorem toJson_injective {v v' : Values} (same : v.toJson = v'.toJson) : v = v' := by
  cases v
  cases v'
  cases same
  rfl

@[simp]
theorem get?_set_self (v : Values) (p : Path) (w : Json) : (v.set p w).get? p = some w :=
  Json.get?_write_self p.segments (some v.toJson)

theorem set_set (v : Values) (p : Path) (u w : Json) : (v.set p u).set p w = v.set p w :=
  toJson_injective (Json.write_write u p.segments (some v.toJson))

/-- What paths read in `after`, which is `before` after `w` was written at `p`. -/
structure Written (before : Values) (p : Path) (w : Json) (after : Values) : Prop where
  /-- The path, and those that go on from it, read in the written value. -/
  inside : ∀ q rest, q.segments = p.segments ++ rest → after.get? q = w.get? rest
  /-- By another key the same is read as before. -/
  otherKey : ∀ q common name other, p.PartsAt q common (.key name) (.key other) →
    after.get? q = before.get? q
  /-- By another index the same is read as before, except for the nulls up to the written index. -/
  otherIndex : ∀ q common position other, p.PartsAt q common (.index position) (.index other) →
    after.get? q =
      if q.segments = common ++ [.index other] ∧
          (Json.itemsOrEmpty (before.toJson.get? common)).length ≤ other ∧ other < position then
        some .null
      else before.get? q
  /-- By a step of the other kind nothing is read. -/
  otherKind : ∀ q common s t, p.PartsAt q common s t → Path.isIndex s ≠ Path.isIndex t →
    after.get? q = none

theorem written_set (v : Values) (p : Path) (w : Json) : v.Written p w (v.set p w) := by
  constructor
  · intro q rest further
    rw [get?_eq, toJson_set, further, Json.get?_write_further]
  · intro q common name other parts
    obtain ⟨below, below', first, second⟩ := parts.exists_segments
    have differ : name ≠ other := fun same => parts.differ (by rw [same])
    rw [get?_eq, get?_eq, toJson_set, first, second, Json.get?_write_of_other_key differ]
    rfl
  · intro q common position other parts
    obtain ⟨below, below', first, second⟩ := parts.exists_segments
    have differ : position ≠ other := fun same => parts.differ (by rw [same])
    rw [get?_eq, get?_eq, toJson_set, first, second, Json.get?_write_of_other_index differ]
    simp only [Option.bind_some, List.append_cancel_left_eq, List.cons.injEq, true_and]
  · intro q common s t parts differ
    obtain ⟨below, below', first, second⟩ := parts.exists_segments
    rw [get?_eq, toJson_set, first, second, Json.get?_write_of_other_kind differ]

theorem set_comm_of_partsAt {common : List Segment} {s t : Segment}
    (parts : p.PartsAt q common s t) (sameKind : Path.isIndex s = Path.isIndex t) (v : Values)
    (w u : Json) : (v.set p w).set q u = (v.set q u).set p w := by
  obtain ⟨below, below', first, second⟩ := parts.exists_segments
  apply toJson_injective
  rw [toJson_set, toJson_set, toJson_set, toJson_set, first, second]
  exact Json.write_comm_of_same_kind parts.differ.symm sameKind.symm w common below' below
    (some v.toJson)

/-! ## Names -/

theorem get?_set_of_apart_keys (keyOnly : p.isKeyOnly = true) (otherKeyOnly : q.isKeyOnly = true)
    (apart : p.Apart q) (w : Json) : (v.set p w).get? q = v.get? q := by
  obtain ⟨common, s, t, parts⟩ := apart.exists_partsAt
  obtain ⟨name, rfl⟩ := parts.exists_key keyOnly
  obtain ⟨other, rfl⟩ := parts.symm.exists_key otherKeyOnly
  exact (written_set v p w).otherKey q common name other parts

theorem get?_set_eq_none (keyOnly : p.isKeyOnly = true) (apart : p.Apart q)
    (absent : v.get? q = none) (w : Json) : (v.set p w).get? q = none := by
  obtain ⟨common, s, t, parts⟩ := apart.exists_partsAt
  obtain ⟨name, rfl⟩ := parts.exists_key keyOnly
  cases t with
  | key other => rw [(written_set v p w).otherKey q common name other parts, absent]
  | index position => exact (written_set v p w).otherKind q common _ _ parts nofun

theorem set_comm (keyOnly : p.isKeyOnly = true) (otherKeyOnly : q.isKeyOnly = true)
    (apart : p.Apart q) (v : Values) (w u : Json) :
    (v.set p w).set q u = (v.set q u).set p w := by
  obtain ⟨common, s, t, parts⟩ := apart.exists_partsAt
  obtain ⟨name, rfl⟩ := parts.exists_key keyOnly
  obtain ⟨other, rfl⟩ := parts.symm.exists_key otherKeyOnly
  exact set_comm_of_partsAt parts rfl v w u

theorem get?_repetition (v : Values) (group name : Path) (position : Nat) :
    v.get? ((group.index position).join name) =
      (Json.itemsOrEmpty (v.get? group))[position]?.bind (Json.get? name.segments) := by
  rw [get?_eq, get?_eq, Path.segments_repetition, Json.get?_append, Json.bind_get?_index]

/-! ## Many writes -/

def setAll (v : Values) (entries : List (Path × Json)) : Values :=
  entries.foldl (fun written entry => written.set entry.1 entry.2) v

theorem setAll_append (v : Values) (entries others : List (Path × Json)) :
    v.setAll (entries ++ others) = (v.setAll entries).setAll others :=
  List.foldl_append

theorem get?_setAll_eq_none {entries : List (Path × Json)}
    (keyOnly : ∀ entry ∈ entries, entry.1.isKeyOnly = true)
    (apart : ∀ entry ∈ entries, entry.1.Apart q) (absent : v.get? q = none) :
    (v.setAll entries).get? q = none := by
  induction entries generalizing v with
  | nil => exact absent
  | cons entry rest ih =>
      obtain ⟨entryKeyOnly, restKeyOnly⟩ := List.forall_mem_cons.mp keyOnly
      obtain ⟨entryApart, restApart⟩ := List.forall_mem_cons.mp apart
      exact ih restKeyOnly restApart (get?_set_eq_none entryKeyOnly entryApart absent _)

theorem get?_setAll_of_apart {entries : List (Path × Json)}
    (keyOnly : ∀ entry ∈ entries, entry.1.isKeyOnly = true) (otherKeyOnly : q.isKeyOnly = true)
    (apart : ∀ entry ∈ entries, entry.1.Apart q) : (v.setAll entries).get? q = v.get? q := by
  induction entries generalizing v with
  | nil => rfl
  | cons entry rest ih =>
      obtain ⟨entryKeyOnly, restKeyOnly⟩ := List.forall_mem_cons.mp keyOnly
      obtain ⟨entryApart, restApart⟩ := List.forall_mem_cons.mp apart
      exact (ih restKeyOnly restApart).trans
        (get?_set_of_apart_keys entryKeyOnly otherKeyOnly entryApart _)

theorem get?_setAll_of_mem {entries : List (Path × Json)}
    (keyOnly : ∀ entry ∈ entries, entry.1.isKeyOnly = true)
    (apart : entries.Pairwise fun a b => a.1.Apart b.1) {entry : Path × Json}
    (member : entry ∈ entries) : (v.setAll entries).get? entry.1 = some entry.2 := by
  induction entries generalizing v with
  | nil => cases member
  | cons first rest ih =>
      obtain ⟨firstKeyOnly, restKeyOnly⟩ := List.forall_mem_cons.mp keyOnly
      obtain ⟨firstApart, restApart⟩ := List.pairwise_cons.mp apart
      rcases List.mem_cons.mp member with rfl | inRest
      · have kept := get?_setAll_of_apart (v := v.set entry.1 entry.2) restKeyOnly firstKeyOnly
          fun other inRest => (firstApart other inRest).symm
        exact kept.trans (get?_set_self v entry.1 entry.2)
      · exact ih restKeyOnly restApart inRest

end Values

end GatedForms

import GatedForms.Proofs.Values.Removal
import GatedForms.Submission

/-! # Stripped records

Removing values from two records that differ in one place only keeps them that close, and removing
that place makes them equal. So a record without its locked values does not show what a locked value
was.
-/

namespace GatedForms

namespace Json

/-! ## What a removal leaves -/

/-- The value without what stands at the end of some keys, if anything does. -/
def without (keys : List String) (x : Json) : Json :=
  ((remove? (keys.map .key) x).map Prod.snd).getD x

def leftUnder (further : List String) (child : Option Json) : Option Json :=
  match further with
  | [] => none
  | next :: rest => child.map (without (next :: rest))

theorem exists_without_object (members : List (String × Json)) (key : String)
    (further : List String) :
    ∃ left, (object members).without (key :: further) = .object left ∧
      (KeyMap.Ascending members → KeyMap.Ascending left) ∧
      KeyMap.find? key left = leftUnder further (KeyMap.find? key members) ∧
      ∀ other, key ≠ other → KeyMap.find? other left = KeyMap.find? other members := by
  cases found : KeyMap.find? key members with
  | none =>
      refine ⟨members, ?_, id, ?_, fun _ _ => rfl⟩
      · cases further with
        | nil | cons => simp [without, remove?, found]
      · rw [found]
        cases further with
        | nil | cons => rfl
  | some child =>
      cases further with
      | nil =>
          refine ⟨KeyMap.erase key members, ?_, KeyMap.ascending_erase key,
            KeyMap.find?_erase_self key members, fun _ differ => KeyMap.find?_erase_ne _ differ⟩
          simp [without, remove?, found]
      | cons next rest =>
          cases removed : remove? (.key next :: rest.map .key) child with
          | none =>
              -- Nothing is removed further down, so nothing is written back.
              refine ⟨members, ?_, id, ?_, fun _ _ => rfl⟩
              · simp [without, remove?, found, removed]
              · simp [leftUnder, found, without, removed]
          | some parts =>
              refine ⟨KeyMap.insert key parts.2 members, ?_, KeyMap.ascending_insert key _, ?_,
                fun _ differ => KeyMap.find?_insert_ne _ _ differ⟩
              · simp [without, remove?, found, removed]
              · simp [leftUnder, without, removed]

theorem without_object {members : List (String × Json)} (ascending : KeyMap.Ascending members)
    (key : String) (further : List String) :
    ∃ left, (object members).without (key :: further) = .object left ∧ KeyMap.Ascending left ∧
      KeyMap.find? key left = leftUnder further (KeyMap.find? key members) ∧
      ∀ other, key ≠ other → KeyMap.find? other left = KeyMap.find? other members := by
  obtain ⟨left, isLeft, keepsOrder, atKey, others⟩ := exists_without_object members key further
  exact ⟨left, isLeft, keepsOrder ascending, atKey, others⟩

/-! ## Values that differ in one place -/

/-- Both values have something at the end of some keys, and differ nowhere else. -/
inductive AgreeOff : List String → Json → Json → Prop where
  | here (left right : Json) : AgreeOff [] left right
  | under {key : String} {rest : List String} {left right : List (String × Json)} {l r : Json}
      (leftAscending : KeyMap.Ascending left) (rightAscending : KeyMap.Ascending right)
      (others : ∀ other, key ≠ other → KeyMap.find? other left = KeyMap.find? other right)
      (onLeft : KeyMap.find? key left = some l) (onRight : KeyMap.find? key right = some r)
      (inside : AgreeOff rest l r) : AgreeOff (key :: rest) (.object left) (.object right)

namespace AgreeOff

theorem write {w x : Json} {keys : List String} (ordered : x.Ordered)
    (present : (x.get? (keys.map .key)).isSome) :
    AgreeOff keys (Json.write w (keys.map .key) (some x)) x := by
  induction keys generalizing x with
  | nil => exact .here _ _
  | cons key rest ih =>
      obtain ⟨y, found⟩ := Option.isSome_iff_exists.mp present
      obtain ⟨c, member, below⟩ := Option.bind_eq_some_iff.mp found
      obtain ⟨members, rfl, atKey⟩ := member?_eq_some.mp member
      rw [List.map_cons, write_key atKey]
      cases ordered with
      | object ascending each =>
          have inside := ih (each _ (KeyMap.mem_of_find? atKey)) (by rw [below]; rfl)
          exact .under (KeyMap.ascending_insert _ _ ascending) ascending
            (fun other differ => KeyMap.find?_insert_ne _ _ differ)
            (KeyMap.find?_insert_self _ _ _) atKey inside

theorem object_eq (key : String) {left right : List (String × Json)}
    (leftAscending : KeyMap.Ascending left) (rightAscending : KeyMap.Ascending right)
    (atKey : KeyMap.find? key left = KeyMap.find? key right)
    (others : ∀ other, key ≠ other → KeyMap.find? other left = KeyMap.find? other right) :
    object left = object right := by
  refine congrArg object (KeyMap.ext leftAscending rightAscending fun other => ?_)
  by_cases same : key = other
  · exact same ▸ atKey
  · exact others other same

theorem without_self {keys : List String} {x y : Json} (agree : AgreeOff keys x y)
    (somewhere : keys ≠ []) : x.without keys = y.without keys := by
  induction agree with
  | here => exact absurd rfl somewhere
  | @under key rest left right l r leftAscending rightAscending others onLeft onRight inside ih =>
      obtain ⟨left', leftIs, leftAscending', leftFirst, leftOthers⟩ :=
        without_object leftAscending key rest
      obtain ⟨right', rightIs, rightAscending', rightFirst, rightOthers⟩ :=
        without_object rightAscending key rest
      rw [leftIs, rightIs]
      refine object_eq key leftAscending' rightAscending' ?_ fun other differ => ?_
      · rw [leftFirst, rightFirst, onLeft, onRight]
        cases rest with
        | nil => rfl
        | cons next rest => exact congrArg some (ih nofun)
      · rw [leftOthers other differ, rightOthers other differ, others other differ]

theorem without {keys : List String} {x y : Json} (agree : AgreeOff keys x y)
    (removed : List String) :
    AgreeOff keys (x.without removed) (y.without removed) ∨
      x.without removed = y.without removed := by
  induction agree generalizing removed with
  | here => exact .inl (.here _ _)
  | @under key rest left right l r leftAscending rightAscending others onLeft onRight inside ih =>
      cases removed with
      | nil => exact .inl (.under leftAscending rightAscending others onLeft onRight inside)
      | cons first further =>
          obtain ⟨left', leftIs, leftAscending', leftFirst, leftOthers⟩ :=
            without_object leftAscending first further
          obtain ⟨right', rightIs, rightAscending', rightFirst, rightOthers⟩ :=
            without_object rightAscending first further
          rw [leftIs, rightIs]
          have others' : ∀ other, key ≠ other →
              KeyMap.find? other left' = KeyMap.find? other right' := fun other differ => by
            by_cases atFirst : first = other
            · subst atFirst
              rw [leftFirst, rightFirst, others first differ]
            · rw [leftOthers other atFirst, rightOthers other atFirst, others other differ]
          by_cases same : first = key
          · subst same
            rw [onLeft] at leftFirst
            rw [onRight] at rightFirst
            cases further with
            | nil =>
                exact .inr (object_eq _ leftAscending' rightAscending'
                  (leftFirst.trans rightFirst.symm) others')
            | cons next further =>
                rcases ih (next :: further) with closer | equal
                · exact .inl (.under leftAscending' rightAscending' others' leftFirst rightFirst
                    closer)
                · have atKey := leftFirst.trans ((congrArg some equal).trans rightFirst.symm)
                  exact .inr (object_eq _ leftAscending' rightAscending' atKey others')
          · exact .inl (.under leftAscending' rightAscending' others'
              ((leftOthers key same).trans onLeft) ((rightOthers key same).trans onRight) inside)

/-- Removing several places, among them the one in which two values differ, makes them equal. -/
theorem foldl_without {keys : List String} {x y : Json} (agree : AgreeOff keys x y)
    (somewhere : keys ≠ []) {removed : List (List String)} (member : keys ∈ removed) :
    removed.foldl (fun left each => left.without each) x =
      removed.foldl (fun left each => left.without each) y := by
  induction removed generalizing x y with
  | nil => cases member
  | cons first rest ih =>
      simp only [List.foldl_cons]
      rcases List.mem_cons.mp member with rfl | later
      · rw [agree.without_self somewhere]
      · rcases agree.without first with closer | equal
        · exact ih closer later
        · rw [equal]

end AgreeOff

end Json

/-! ## Records of groups -/

theorem Values.toJson_remove (values : Values) {path : Path} (keyOnly : path.isKeyOnly = true) :
    (values.remove path).2.toJson = values.toJson.without path.keys := by
  rw [Json.without, ← Path.segments_of_isKeyOnly keyOnly]
  rcases values.remove_cases path with ⟨nothing, unchanged⟩ | ⟨removed, left, found, done⟩
  · rw [nothing, unchanged]
    rfl
  · rw [found, done]
    rfl

namespace Json

theorem strip_object {locked : List Path} (keyOnly : ∀ path ∈ locked, path.isKeyOnly = true)
    (members : List (String × Json)) :
    strip locked (.object members) =
      (locked.map Path.keys).foldl (fun left each => left.without each) (.object members) := by
  suffices stripped : ∀ record : Values,
      (locked.foldl (fun left path => (left.remove path).2) record).toJson =
        (locked.map Path.keys).foldl (fun left each => left.without each) record.toJson from
    stripped ⟨members⟩
  induction locked with
  | nil => exact fun _ => rfl
  | cons path rest ih =>
      intro record
      obtain ⟨first, others⟩ := List.forall_mem_cons.mp keyOnly
      simp only [List.foldl_cons, List.map_cons]
      rw [ih others, Values.toJson_remove record first]

/-- A record without its locked values is the same whatever is written over one of them. -/
theorem strip_write {locked : List Path} (keyOnly : ∀ path ∈ locked, path.isKeyOnly = true)
    {name : Path} (member : name ∈ locked) {x : Json} (ordered : x.Ordered)
    (present : (x.get? name.segments).isSome) (w : Json) :
    strip locked (write w name.segments (some x)) = strip locked x := by
  obtain ⟨y, found⟩ := Option.isSome_iff_exists.mp present
  obtain ⟨c, atRoot, _⟩ := Option.bind_eq_some_iff.mp found
  obtain ⟨members, rfl, _⟩ := member?_eq_some.mp atRoot
  have agree : AgreeOff name.keys (write w name.segments (some (.object members)))
      (.object members) := by
    rw [Path.segments_of_isKeyOnly (keyOnly name member)] at present ⊢
    exact AgreeOff.write ordered present
  have equal := agree.foldl_without nofun (List.mem_map_of_mem member)
  rw [← strip_object keyOnly] at equal
  exact (strip_object keyOnly _).trans equal

theorem map_strip_write {locked : List Path} (keyOnly : ∀ path ∈ locked, path.isKeyOnly = true)
    {name : Path} (member : name ∈ locked) {group : List Segment} {position : Nat} {x : Json}
    (ordered : x.Ordered)
    (present : (x.get? (group ++ .index position :: name.segments)).isSome) (w : Json) :
    (itemsOrEmpty ((write w (group ++ .index position :: name.segments) (some x)).get? group)).map
        (strip locked) =
      (itemsOrEmpty (x.get? group)).map (strip locked) := by
  obtain ⟨z, found⟩ := Option.isSome_iff_exists.mp present
  rw [get?_append] at found
  obtain ⟨y, atGroup, found⟩ := Option.bind_eq_some_iff.mp found
  obtain ⟨record, item, inRecord⟩ := Option.bind_eq_some_iff.mp found
  obtain ⟨items, rfl, atPosition⟩ := item?_eq_some.mp item
  have recordOrdered : record.Ordered :=
    (ordered.get? atGroup).get? (p := [.index position]) (by simp [Json.get?, item?, atPosition])
  have stripped := strip_write keyOnly member recordOrdered (by rw [inRecord]; rfl) w
  rw [get?_write_append atGroup, atGroup, write_index atPosition]
  simp only [itemsOrEmpty]
  -- Only one record is another, and stripped it is the same.
  rw [List.map_set, stripped]
  refine List.ext_getElem? fun other => ?_
  by_cases same : position = other
  · subst same
    obtain ⟨inside, _⟩ := List.getElem?_eq_some_iff.mp atPosition
    rw [List.getElem?_set_self (by simpa using inside), List.getElem?_map, atPosition]
    rfl
  · rw [List.getElem?_set_ne same]

end Json

end GatedForms

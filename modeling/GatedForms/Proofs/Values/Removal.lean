import GatedForms.Proofs.Values.Frame

/-! # Removals

To remove a member or an element is to write what is left of the object or array that holds it. So
a removal answers what is read at its path, and what other paths read after it is known from writes:
nothing from a removed member on, the next element from a removed one on, and elsewhere what was
read before.
-/

namespace GatedForms

namespace Json

variable {x : Json}

theorem remove?_key (name : String) {rest : List Segment} (further : rest ≠ []) :
    remove? (.key name :: rest) x =
      (x.member? name).bind fun child => (remove? rest child).map fun parts =>
        (parts.1, .object (KeyMap.insert name parts.2 (membersOrEmpty (some x)))) := by
  obtain ⟨next, others, rfl⟩ := List.exists_cons_of_ne_nil further
  cases x with
  | object members =>
      simp only [remove?, member?, membersOrEmpty, Option.bind_eq_bind]
      cases KeyMap.find? name members with
      | none => rfl
      | some child =>
          simp only [Option.bind_some]
          cases remove? (next :: others) child with
          | none | some => rfl
  | null | bool | int | float | text | array => rfl

theorem remove?_index (position : Nat) {rest : List Segment} (further : rest ≠ []) :
    remove? (.index position :: rest) x =
      (x.item? position).bind fun child => (remove? rest child).map fun parts =>
        (parts.1, .array ((itemsOrEmpty (some x)).set position parts.2)) := by
  obtain ⟨next, others, rfl⟩ := List.exists_cons_of_ne_nil further
  cases x with
  | array items =>
      simp only [remove?, item?, itemsOrEmpty, Option.bind_eq_bind]
      cases items[position]? with
      | none => rfl
      | some child =>
          simp only [Option.bind_some]
          cases remove? (next :: others) child with
          | none | some => rfl
  | null | bool | int | float | text | object => rfl

/-- A removal some steps down writes back there what its last step leaves. -/
theorem remove?_concat (above : List Segment) (last : Segment) (x : Json) :
    remove? (above ++ [last]) x =
      (x.get? above).bind fun box => (remove? [last] box).map fun parts =>
        (parts.1, write parts.2 above (some x)) := by
  induction above generalizing x with
  | nil =>
      simp only [List.nil_append, get?, Option.bind_some, write]
      exact Option.map_id'.symm
  | cons s above ih =>
      have further : above ++ [last] ≠ [] :=
        List.append_ne_nil_of_right_ne_nil _ (List.cons_ne_nil _ _)
      cases s with
      | key name =>
          rw [List.cons_append, remove?_key name further, get?, Option.bind_assoc]
          cases member : x.member? name with
          | none => rfl
          | some child =>
              obtain ⟨members, rfl, atKey⟩ := member?_eq_some.mp member
              simp only [Option.bind_some, ih, Option.map_bind, Function.comp_def, Option.map_map,
                write_key atKey, membersOrEmpty]
      | index position =>
          rw [List.cons_append, remove?_index position further, get?, Option.bind_assoc]
          cases item : x.item? position with
          | none => rfl
          | some child =>
              obtain ⟨items, rfl, atPosition⟩ := item?_eq_some.mp item
              simp only [Option.bind_some, ih, Option.map_bind, Function.comp_def, Option.map_map,
                write_index atPosition, itemsOrEmpty]

theorem map_fst_remove? {steps : List Segment} (somewhere : steps ≠ []) (x : Json) :
    (remove? steps x).map Prod.fst = x.get? steps := by
  obtain ⟨above, last, rfl⟩ : ∃ above last, steps = above ++ [last] :=
    ⟨_, _, (List.dropLast_concat_getLast somewhere).symm⟩
  rw [remove?_concat, get?_append, Option.map_bind]
  refine congrArg (x.get? above).bind (funext fun box => ?_)
  simp only [Function.comp_apply, Option.map_map]
  cases last with
  | key name =>
      cases box with
      | object members =>
          simp only [remove?, get?, member?, Option.map_map]
          exact Option.map_id'.trans (Option.bind_fun_some _).symm
      | null | bool | int | float | text | array => rfl
  | index position =>
      cases box with
      | array items =>
          simp only [remove?, get?, item?, Option.map_map]
          exact Option.map_id'.trans (Option.bind_fun_some _).symm
      | null | bool | int | float | text | object => rfl

theorem remove?_object {steps : List Segment} {members : List (String × Json)}
    {removed left : Json} (found : remove? steps (.object members) = some (removed, left)) :
    ∃ rest, left = .object rest := by
  cases steps with
  | nil => cases found
  | cons s below =>
      cases s with
      | index position =>
          cases below with
          | nil | cons => simp [remove?] at found
      | key name =>
          cases below with
          | nil =>
              obtain ⟨_, _, same⟩ := Option.map_eq_some_iff.mp found
              cases same
              exact ⟨_, rfl⟩
          | cons next further =>
              rw [remove?_key name (List.cons_ne_nil next further)] at found
              obtain ⟨child, _, found⟩ := Option.bind_eq_some_iff.mp found
              obtain ⟨parts, _, same⟩ := Option.map_eq_some_iff.mp found
              cases same
              exact ⟨_, rfl⟩

end Json

/-! ## Trees of form values -/

namespace Values

variable {v : Values} {p : Path}

theorem remove_cases (v : Values) (p : Path) :
    (Json.remove? p.segments v.toJson = none ∧ v.remove p = (none, v)) ∨
      ∃ removed left, Json.remove? p.segments v.toJson = some (removed, toJson left) ∧
        v.remove p = (some removed, left) := by
  unfold remove
  cases found : Json.remove? p.segments v.toJson with
  | none => exact .inl ⟨rfl, rfl⟩
  | some parts =>
      obtain ⟨removed, left⟩ := parts
      obtain ⟨rest, rfl⟩ := Json.remove?_object found
      exact .inr ⟨removed, ⟨rest⟩, rfl, rfl⟩

theorem fst_remove (v : Values) (p : Path) : (v.remove p).1 = v.get? p := by
  rw [get?_eq, ← Json.map_fst_remove? p.segments_ne_nil]
  rcases remove_cases v p with ⟨nothing, unchanged⟩ | ⟨removed, left, found, done⟩
  · rw [nothing, unchanged]
    rfl
  · rw [found, done]
    rfl

theorem remove_of_absent (absent : v.get? p = none) : v.remove p = (none, v) := by
  rcases remove_cases v p with ⟨-, unchanged⟩ | ⟨removed, left, -, done⟩
  · exact unchanged
  · rw [← fst_remove, done] at absent
    cases absent

/-- The last step of a removal decides what is written back above it. -/
theorem remove_of_last {above : List Segment} {last : Segment} {box removed left : Json}
    (ends : p.segments = above ++ [last]) (holds : v.toJson.get? above = some box)
    (taken : Json.remove? [last] box = some (removed, left)) :
    (v.remove p).2.toJson = Json.write left above (some v.toJson) := by
  have whole : Json.remove? p.segments v.toJson =
      some (removed, Json.write left above (some v.toJson)) := by
    rw [ends, Json.remove?_concat, holds, Option.bind_some, taken]
    rfl
  rcases remove_cases v p with ⟨nothing, -⟩ | ⟨_, rest, found, done⟩
  · cases nothing.symm.trans whole
  · rw [done]
    exact congrArg Prod.snd (Option.some.inj (found.symm.trans whole))

theorem toJson_remove_member {above : List Segment} {name : String}
    {members : List (String × Json)} {removed : Json} (ends : p.segments = above ++ [.key name])
    (holds : v.toJson.get? above = some (.object members))
    (atKey : KeyMap.find? name members = some removed) :
    (v.remove p).2.toJson =
      Json.write (.object (KeyMap.erase name members)) above (some v.toJson) := by
  have taken : Json.remove? [.key name] (.object members) =
      some (removed, .object (KeyMap.erase name members)) := by
    simp only [Json.remove?, atKey, Option.map_some]
  exact remove_of_last ends holds taken

theorem toJson_remove_element {position : Nat} {items : List Json}
    (holds : v.get? p = some (.array items)) (inside : position < items.length) :
    (v.remove (p.index position)).2.toJson =
      Json.write (.array (items.eraseIdx position)) p.segments (some v.toJson) := by
  have taken : Json.remove? [.index position] (.array items) =
      some (items[position], .array (items.eraseIdx position)) := by
    simp only [Json.remove?, List.getElem?_eq_getElem inside, Option.map_some]
  exact remove_of_last (Path.segments_index p position) holds taken

/-! ## Reads after removals -/

theorem get?_eq_none_of_startsWith {q : Path} (absent : v.get? p = none)
    (further : q.startsWith p = true) : v.get? q = none := by
  obtain ⟨rest, same⟩ := List.isPrefixOf_iff_prefix.mp further
  rw [get?_eq, ← same, Json.get?_append, ← get?_eq, absent, Option.bind_none]

/-- What paths read in `after`, which is `before` without the member of an object at `p`. -/
structure LacksMember (before : Values) (p : Path) (after : Values) : Prop where
  /-- The path, and those that go on from it, read nothing. -/
  gone : ∀ q, q.startsWith p = true → after.get? q = none
  /-- Paths that stand apart from it read what they read before. -/
  kept : ∀ q, q.Apart p → after.get? q = before.get? q

theorem lacksMember_remove {above : List Segment} {name : String}
    (ends : p.segments = above ++ [.key name]) : v.LacksMember p (v.remove p).2 := by
  cases found : v.get? p with
  | none =>
      rw [remove_of_absent found]
      exact ⟨fun q further => get?_eq_none_of_startsWith found further, fun q _ => rfl⟩
  | some removed =>
      rw [get?_eq, ends, Json.get?_append] at found
      obtain ⟨box, holds, found⟩ := Option.bind_eq_some_iff.mp found
      obtain ⟨_, member, -⟩ := Option.bind_eq_some_iff.mp found
      obtain ⟨members, rfl, atKey⟩ := Json.member?_eq_some.mp member
      have left := toJson_remove_member ends holds atKey
      constructor
      · intro q further
        refine get?_eq_none_of_startsWith ?_ further
        rw [get?_eq, left, ends, Json.get?_write_further]
        simp only [Json.get?, Json.member?, KeyMap.find?_erase_self, Option.bind_none]
      · rintro q ⟨notBelow, notAbove⟩
        rw [Path.startsWith_eq_false, ends] at notBelow notAbove
        rw [get?_eq, get?_eq, left]
        by_cases beside : above <+: q.segments
        · -- The path goes on from the object by another step than the removed key.
          obtain ⟨rest, same⟩ := beside
          rw [← same] at notBelow notAbove ⊢
          rw [Json.get?_write_further, Json.get?_append, holds, Option.bind_some]
          cases rest with
          | nil => exact absurd (by simp) notAbove
          | cons next rest =>
              cases next with
              | index position => rfl
              | key other =>
                  have differ : name ≠ other := by
                    rintro rfl
                    exact notBelow ⟨rest, by simp⟩
                  simp only [Json.get?, Json.member?, KeyMap.find?_erase_ne _ differ]
        · refine Json.get?_write_of_apart (by rw [holds]; rfl) beside fun shorter => notAbove ?_
          exact shorter.trans (List.prefix_append above _)

end Values

namespace Path

def through (p : Path) (position : Nat) (rest : List Segment) : Path :=
  ⟨p.root, p.below ++ .index position :: rest⟩

theorem segments_through (p : Path) (position : Nat) (rest : List Segment) :
    (p.through position rest).segments = p.segments ++ .index position :: rest := rfl

end Path

namespace Values

variable {v : Values} {p : Path}

/-- What paths read in `after`, which is `before` without an element of the array at `p`. -/
structure LacksElement (before : Values) (p : Path) (position : Nat) (after : Values) : Prop where
  /-- The array is shorter by this one element. -/
  shorter : ∃ items, before.get? p = some (.array items) ∧
    after.get? p = some (.array (items.eraseIdx position)) ∧
    (items.eraseIdx position).length + 1 = items.length
  /-- From the removed element on, paths through an element read what was read through the next. -/
  later : ∀ other, position ≤ other → ∀ rest,
    after.get? (p.through other rest) = before.get? (p.through (other + 1) rest)
  /-- Before the removed element, paths through an element read what they read before. -/
  earlier : ∀ other, other < position → ∀ rest,
    after.get? (p.through other rest) = before.get? (p.through other rest)
  /-- So do paths through no element of the array, unless they lead to it. -/
  kept : ∀ q, p.startsWith q = false → (∀ other rest, q ≠ p.through other rest) →
    after.get? q = before.get? q

theorem lacksElement_remove {position : Nat} {items : List Json}
    (holds : v.get? p = some (.array items)) (inside : position < items.length) :
    v.LacksElement p position (v.remove (p.index position)).2 := by
  have left := toJson_remove_element holds inside
  have through (other : Nat) (rest : List Segment) :
      (v.remove (p.index position)).2.get? (p.through other rest) =
        (items.eraseIdx position)[other]?.bind (Json.get? rest) := by
    rw [get?_eq, left, Path.segments_through, Json.get?_write_further]
    rfl
  have throughBefore (other : Nat) (rest : List Segment) :
      v.get? (p.through other rest) = items[other]?.bind (Json.get? rest) := by
    rw [get?_eq, Path.segments_through, Json.get?_append, ← get?_eq, holds]
    rfl
  constructor
  · refine ⟨items, holds, ?_, ?_⟩
    · rw [get?_eq, left, Json.get?_write_self]
    · rw [List.length_eraseIdx_of_lt inside]
      omega
  · intro other behind rest
    rw [through, throughBefore, List.getElem?_eraseIdx_of_ge behind]
  · intro other before rest
    rw [through, throughBefore, List.getElem?_eraseIdx_of_lt before]
  · intro q notAbove outside
    rw [Path.startsWith_eq_false] at notAbove
    rw [get?_eq, get?_eq, left]
    by_cases beside : p.segments <+: q.segments
    · -- The path goes on from the array by a key, which leads nowhere.
      obtain ⟨rest, same⟩ := beside
      have atArray : v.toJson.get? p.segments = some (.array items) := holds
      rw [← same, Json.get?_write_further, Json.get?_append, atArray, Option.bind_some]
      match rest with
      | [] => exact absurd (by simp [← same]) notAbove
      | .key other :: rest => rfl
      | .index other :: rest =>
          exact absurd (Path.segments_injective same.symm) (outside other rest)
    · exact Json.get?_write_of_apart (by rw [← get?_eq, holds]; rfl) beside notAbove

/-- A removal answers what its path read and changes nothing if this is nothing. Without a member
    nothing is read from there on; without an element those behind it move up by one. All other
    paths, unless they lead to what has shrunk, read what they read before. -/
theorem removal_is_exact (v : Values) (p : Path) :
    (v.remove p).1 = v.get? p ∧
    (v.get? p = none → (v.remove p).2 = v) ∧
    (∀ above name, p.segments = above ++ [.key name] → v.LacksMember p (v.remove p).2) ∧
    ∀ array position items, p = array.index position → v.get? array = some (.array items) →
      position < items.length → v.LacksElement array position (v.remove p).2 := by
  refine ⟨fst_remove v p, ?_, ?_, ?_⟩
  · intro absent
    rw [remove_of_absent absent]
  · intro above name ends
    exact lacksMember_remove ends
  · rintro array position items rfl holds inside
    exact lacksElement_remove holds inside

end Values

end GatedForms

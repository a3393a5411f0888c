import GatedForms.Proofs.Values.Frame
import GatedForms.Rules

/-! # Numbers in place

A validator writes a number in the place of a value that denotes it. Nothing else changes, no rule
can tell the two trees apart, and the order of such writes does not matter.
-/

namespace GatedForms

namespace Json

/-- No rule can tell the values apart, nor count more elements in one of them. -/
structure Alike (a b : Option Json) : Prop where
  blank : isBlank a = isBlank b
  number : a.bind toInteger? = b.bind toInteger?
  length : (itemsOrEmpty a).length = (itemsOrEmpty b).length

theorem Alike.refl (a : Option Json) : Alike a a := ⟨rfl, rfl, rfl⟩

theorem Alike.trans {a b c : Option Json} (first : Alike a b) (second : Alike b c) : Alike a c :=
  ⟨first.blank.trans second.blank, first.number.trans second.number,
    first.length.trans second.length⟩

theorem get?_below_number {x : Json} {n : Int} (denotes : x.toInteger? = some n) (s : Segment)
    (rest : List Segment) : x.get? (s :: rest) = none := by
  cases x with
  | int | text => cases s <;> rfl
  | null | bool | float | array | object => cases denotes

theorem isInteger_of_toInteger? {x : Json} {n : Int} (denotes : x.toInteger? = some n) :
    Text.isInteger n = true := by
  cases x with
  | int m =>
      obtain ⟨fits, same⟩ := Option.ite_none_right_eq_some.mp denotes
      cases same
      exact fits
  | text s =>
      simp only [toInteger?, Text.integer?] at denotes
      exact (Option.filter_eq_some_iff.mp denotes).2
  | null | bool | float | array | object => cases denotes

theorem alike_number {x : Json} {n : Int} (denotes : x.toInteger? = some n) :
    Alike (some (.int n)) (some x) := by
  have same : toInteger? (.int n) = some n := if_pos (isInteger_of_toInteger? denotes)
  cases x with
  | int m => exact ⟨rfl, same.trans denotes.symm, rfl⟩
  | text s =>
      refine ⟨?_, same.trans denotes.symm, rfl⟩
      have notEmpty : (Text.trim s.toList).isEmpty = false := by
        cases trimmed : Text.trim s.toList with
        | nil =>
            simp [toInteger?, trimmed, Text.integer?, Text.dropPlus, Text.digits?] at denotes
        | cons => rfl
      exact notEmpty.symm
  | null | bool | float | array | object => cases denotes

/-- The value is as before, or a container of the same kind that reaches as far: an array of the
    same length, or an object with the same keys. -/
inductive Framed : Option Json → Option Json → Prop where
  | same (a : Option Json) : Framed a a
  | array {xs ys : List Json} (length : xs.length = ys.length) :
      Framed (some (.array xs)) (some (.array ys))
  | object {xs ys : List (String × Json)}
      (keys : ∀ key, (KeyMap.find? key xs).isSome = (KeyMap.find? key ys).isSome) :
      Framed (some (.object xs)) (some (.object ys))

theorem Framed.trans {a b c : Option Json} (first : Framed a b) (second : Framed b c) :
    Framed a c := by
  cases first with
  | same => exact second
  | array length =>
      cases second with
      | same => exact .array length
      | array further => exact .array (length.trans further)
  | object keys =>
      cases second with
      | same => exact .object keys
      | object further => exact .object fun key => (keys key).trans (further key)

theorem Framed.isSome_eq {a b : Option Json} (framed : Framed a b) : a.isSome = b.isSome := by
  cases framed with
  | same => rfl
  | array | object => rfl

theorem Framed.alike {a b : Option Json} (framed : Framed a b) : Alike a b := by
  cases framed with
  | same => exact .refl a
  | @array xs ys length =>
      refine ⟨?_, rfl, length⟩
      cases xs with
      | nil => rw [List.length_eq_zero_iff.mp length.symm]
      | cons =>
          cases ys with
          | nil => cases length
          | cons => rfl
  | object => exact ⟨rfl, rfl, rfl⟩

/-- A write further down, where something stands, changes only what is inside. -/
theorem framed_write_below {w y z : Json} {s : Segment} {rest : List Segment}
    (present : y.get? (s :: rest) = some z) :
    Framed (some (write w (s :: rest) (some y))) (some y) := by
  cases s with
  | key name =>
      obtain ⟨c, member, below⟩ := Option.bind_eq_some_iff.mp present
      obtain ⟨members, rfl, atKey⟩ := member?_eq_some.mp member
      rw [write_key atKey]
      apply Framed.object
      intro key
      by_cases same : name = key
      · subst same
        rw [KeyMap.find?_insert_self, atKey]
        rfl
      · rw [KeyMap.find?_insert_ne _ _ same]
  | index position =>
      obtain ⟨c, item, below⟩ := Option.bind_eq_some_iff.mp present
      obtain ⟨items, rfl, atPosition⟩ := item?_eq_some.mp item
      rw [write_index atPosition]
      exact .array List.length_set

theorem framed_get?_write {p q : List Segment} {x y : Json} {n : Int} (found : x.get? p = some y)
    (denotes : y.toInteger? = some n) (differ : q ≠ p) :
    Framed ((write (.int n) p (some x)).get? q) (x.get? q) := by
  by_cases below : p <+: q
  · obtain ⟨rest, rfl⟩ := below
    cases rest with
    | nil => exact absurd (List.append_nil p) differ
    | cons s rest =>
        have nothing : (Json.int n).get? (s :: rest) = none := by cases s <;> rfl
        rw [get?_write_further, nothing, get?_append, found, Option.bind_some,
          get?_below_number denotes]
        exact .same none
  · by_cases above : q <+: p
    · obtain ⟨rest, rfl⟩ := above
      rw [get?_append] at found
      obtain ⟨z, atQ, further⟩ := Option.bind_eq_some_iff.mp found
      rw [get?_write_append atQ, atQ]
      cases rest with
      | nil => exact absurd (List.append_nil q).symm differ
      | cons s rest => exact framed_write_below further
    · rw [get?_write_of_apart (by rw [found]; rfl) below above]
      exact .same _

/-- A number written in the place of a value that denotes it. -/
theorem alike_get?_write {p : List Segment} {x y : Json} {n : Int} (found : x.get? p = some y)
    (denotes : y.toInteger? = some n) (q : List Segment) :
    Alike ((write (.int n) p (some x)).get? q) (x.get? q) := by
  by_cases same : q = p
  · subst same
    have written := get?_write_further (w := .int n) q [] (some x)
    rw [List.append_nil] at written
    rw [written, found]
    exact alike_number denotes
  · exact (framed_get?_write found denotes same).alike

theorem write_comm_of_apart {p q : List Segment} {x w u : Json} (present : (x.get? p).isSome)
    (alsoPresent : (x.get? q).isSome) (notBelow : ¬ p <+: q) (notAbove : ¬ q <+: p) :
    write w p (some (write u q (some x))) = write u q (some (write w p (some x))) := by
  obtain ⟨common, s, t, p, q, rfl, rfl, differ⟩ := exists_first_difference notBelow notAbove
  obtain ⟨y, found⟩ := Option.isSome_iff_exists.mp present
  rw [get?_append] at found alsoPresent
  obtain ⟨box, atCommon, below⟩ := Option.bind_eq_some_iff.mp found
  rw [atCommon, Option.bind_some] at alsoPresent
  by_cases sameKind : Path.isIndex s = Path.isIndex t
  · exact write_comm_of_same_kind differ sameKind u common p q (some x)
  · rw [get?_of_other_kind sameKind below] at alsoPresent
    cases alsoPresent

end Json

/-! ## Trees of form values -/

namespace Values

/-- No rule can tell the trees apart at any path. -/
def Alike (v v' : Values) : Prop := ∀ p, Json.Alike (v.get? p) (v'.get? p)

/-- The entry writes the number that the value at its path denotes. -/
def Denotes (v : Values) (entry : Path × Json) : Prop :=
  ∃ n, (v.get? entry.1).bind Json.toInteger? = some n ∧ entry.2 = .int n

variable {v v' : Values}

theorem Alike.trans {v'' : Values} (first : v.Alike v') (second : v'.Alike v'') : v.Alike v'' :=
  fun p => (first p).trans (second p)

theorem Alike.denotes (alike : v.Alike v') {entry : Path × Json} (denoted : v'.Denotes entry) :
    v.Denotes entry := by
  obtain ⟨n, number, isInt⟩ := denoted
  exact ⟨n, (alike entry.1).number.trans number, isInt⟩

theorem Denotes.alike_set {entry : Path × Json} (denoted : v.Denotes entry) :
    (v.set entry.1 entry.2).Alike v := by
  obtain ⟨n, number, isInt⟩ := denoted
  obtain ⟨x, found, denotes⟩ := Option.bind_eq_some_iff.mp number
  intro q
  rw [get?_eq] at found
  rw [isInt, get?_eq, get?_eq, toJson_set]
  exact Json.alike_get?_write found denotes q.segments

theorem Denotes.denotes_set {entry : Path × Json} (denoted : v.Denotes entry)
    {others : List (Path × Json)} (othersDenoted : ∀ other ∈ others, v.Denotes other) :
    ∀ other ∈ others, (v.set entry.1 entry.2).Denotes other := by
  intro other member
  exact denoted.alike_set.denotes (othersDenoted other member)

theorem alike_setAll {entries : List (Path × Json)} (denoted : ∀ entry ∈ entries, v.Denotes entry) :
    (v.setAll entries).Alike v := by
  induction entries generalizing v with
  | nil => exact fun p => .refl _
  | cons entry rest ih =>
      obtain ⟨first, restDenoted⟩ := List.forall_mem_cons.mp denoted
      exact (ih (first.denotes_set restDenoted)).trans first.alike_set

theorem Denotes.framed_get?_set {entry : Path × Json} (denoted : v.Denotes entry) {q : Path}
    (differ : q ≠ entry.1) : Json.Framed ((v.set entry.1 entry.2).get? q) (v.get? q) := by
  obtain ⟨n, number, isInt⟩ := denoted
  obtain ⟨x, found, denotes⟩ := Option.bind_eq_some_iff.mp number
  rw [get?_eq] at found
  rw [isInt, get?_eq, get?_eq, toJson_set]
  exact Json.framed_get?_write found denotes fun same => differ (Path.segments_injective same)

theorem framed_get?_setAll {entries : List (Path × Json)}
    (denoted : ∀ entry ∈ entries, v.Denotes entry) {q : Path}
    (untouched : ∀ entry ∈ entries, q ≠ entry.1) :
    Json.Framed ((v.setAll entries).get? q) (v.get? q) := by
  induction entries generalizing v with
  | nil => exact .same _
  | cons entry rest ih =>
      obtain ⟨first, restDenoted⟩ := List.forall_mem_cons.mp denoted
      obtain ⟨differ, restUntouched⟩ := List.forall_mem_cons.mp untouched
      exact (ih (first.denotes_set restDenoted) restUntouched).trans (first.framed_get?_set differ)

theorem Denotes.set_comm {entry other : Path × Json} (denoted : v.Denotes entry)
    (otherDenoted : v.Denotes other) :
    (v.set entry.1 entry.2).set other.1 other.2 = (v.set other.1 other.2).set entry.1 entry.2 := by
  obtain ⟨p, written⟩ := entry
  obtain ⟨q, otherWritten⟩ := other
  obtain ⟨n, number, rfl⟩ := denoted
  obtain ⟨m, otherNumber, rfl⟩ := otherDenoted
  obtain ⟨x, found, denotes⟩ := Option.bind_eq_some_iff.mp number
  obtain ⟨y, otherFound, otherDenotes⟩ := Option.bind_eq_some_iff.mp otherNumber
  by_cases same : p = q
  · subst same
    cases number.symm.trans otherNumber
    rfl
  · -- Nothing stands below a number, so neither path leads on from the other.
    have apart {a b : Path} {z u : Json} {k : Int} (atA : v.get? a = some z)
        (isNumber : z.toInteger? = some k) (atB : v.get? b = some u) (differ : a ≠ b) :
        ¬ a.segments <+: b.segments := by
      rintro ⟨rest, further⟩
      rw [get?_eq, ← further, Json.get?_append, ← get?_eq, atA] at atB
      cases rest with
      | nil =>
          rw [List.append_nil] at further
          exact differ (Path.segments_injective further)
      | cons s rest =>
          rw [Option.bind_some, Json.get?_below_number isNumber] at atB
          cases atB
    apply toJson_injective
    simp only [toJson_set]
    exact Json.write_comm_of_apart (by rw [← get?_eq, otherFound]; rfl)
      (by rw [← get?_eq, found]; rfl) (apart otherFound otherDenotes found (Ne.symm same))
      (apart found denotes otherFound same)

/-- The order in which such numbers are written does not matter. -/
theorem setAll_perm_of_denotes {entries others : List (Path × Json)} (same : entries.Perm others)
    (denoted : ∀ entry ∈ entries, v.Denotes entry) : v.setAll entries = v.setAll others := by
  induction same generalizing v with
  | nil => rfl
  | cons entry _ ih =>
      obtain ⟨first, restDenoted⟩ := List.forall_mem_cons.mp denoted
      exact ih (first.denotes_set restDenoted)
  | swap entry other rest =>
      obtain ⟨first, restDenoted⟩ := List.forall_mem_cons.mp denoted
      obtain ⟨second, -⟩ := List.forall_mem_cons.mp restDenoted
      exact congrArg (fun written => setAll written rest) (first.set_comm second)
  | trans firstSame _ ih ihBehind =>
      exact (ih denoted).trans
        (ihBehind fun entry member => denoted entry (firstSame.mem_iff.mpr member))

theorem exists_setAll_eq_set {entries : List (Path × Json)}
    (denoted : ∀ entry ∈ entries, v.Denotes entry) {entry : Path × Json}
    (member : entry ∈ entries) :
    ∃ before : Values, v.setAll entries = before.set entry.1 entry.2 := by
  obtain ⟨early, late, rfl⟩ := List.append_of_mem member
  refine ⟨v.setAll (early ++ late), ?_⟩
  have last : (early ++ entry :: late).Perm ((early ++ late) ++ [entry]) :=
    List.perm_middle.trans (List.perm_append_singleton _ _).symm
  rw [setAll_perm_of_denotes last denoted, setAll_append]
  rfl

theorem get?_setAll_of_denotes {entries : List (Path × Json)}
    (denoted : ∀ entry ∈ entries, v.Denotes entry) {entry : Path × Json}
    (member : entry ∈ entries) : (v.setAll entries).get? entry.1 = some entry.2 := by
  obtain ⟨before, last⟩ := exists_setAll_eq_set denoted member
  rw [last, get?_set_self]

theorem setAll_setAll_of_denotes {entries : List (Path × Json)}
    (denoted : ∀ entry ∈ entries, v.Denotes entry) :
    (v.setAll entries).setAll entries = v.setAll entries := by
  have again : ∀ entry ∈ entries, (v.setAll entries).set entry.1 entry.2 = v.setAll entries := by
    intro entry member
    obtain ⟨before, last⟩ := exists_setAll_eq_set denoted member
    rw [last, set_set]
  -- No entry changes the written tree, whichever come before it.
  generalize v.setAll entries = written at again
  induction entries with
  | nil => rfl
  | cons entry rest ih =>
      obtain ⟨first, others⟩ := List.forall_mem_cons.mp again
      have restDenoted := (List.forall_mem_cons.mp denoted).2
      exact (congrArg (fun tree => setAll tree rest) first).trans (ih restDenoted others)

end Values

end GatedForms

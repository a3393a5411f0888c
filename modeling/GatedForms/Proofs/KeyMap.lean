import GatedForms.KeyMap

/-! # Ordered key maps

A map whose keys ascend is determined by its look-ups. Writing and dropping entries keep the order,
so the objects of a value tree and the slots of a machine can be compared entry by entry.
-/

namespace GatedForms.KeyMap

variable {β : Type}

/-- Every key is smaller than all keys behind it. -/
def Ascending (entries : List (String × β)) : Prop := entries.Pairwise fun a b => a.1 < b.1

theorem ascending_nil : Ascending ([] : List (String × β)) := List.Pairwise.nil

theorem mem_insert {key : String} {value : β} {entry : String × β} {entries : List (String × β)}
    (member : entry ∈ insert key value entries) : entry = (key, value) ∨ entry ∈ entries := by
  induction entries with
  | nil => exact .inl (List.mem_singleton.mp member)
  | cons head rest ih =>
      obtain ⟨k, v⟩ := head
      simp only [insert] at member
      split at member
      · exact (List.mem_cons.mp member)
      · split at member
        · exact (List.mem_cons.mp member).imp_right (List.mem_cons_of_mem _)
        · rcases List.mem_cons.mp member with rfl | inRest
          · exact .inr List.mem_cons_self
          · exact (ih inRest).imp_right (List.mem_cons_of_mem _)

theorem ascending_insert {entries : List (String × β)} (key : String) (value : β)
    (ascending : Ascending entries) : Ascending (insert key value entries) := by
  induction entries with
  | nil => exact List.pairwise_singleton _ _
  | cons head rest ih =>
      obtain ⟨k, v⟩ := head
      obtain ⟨below, restAscending⟩ := List.pairwise_cons.mp ascending
      simp only [insert]
      split
      · next lt =>
        refine List.pairwise_cons.mpr ⟨?_, ascending⟩
        intro entry member
        rcases List.mem_cons.mp member with rfl | inRest
        · exact lt
        · exact String.lt_trans lt (below entry inRest)
      · next notLt =>
        split
        · next same =>
          subst same
          exact List.pairwise_cons.mpr ⟨below, restAscending⟩
        · next differ =>
          refine List.pairwise_cons.mpr ⟨?_, ih restAscending⟩
          intro entry member
          rcases mem_insert member with rfl | inRest
          · exact Decidable.byContradiction fun notBelow =>
              differ (String.le_antisymm notLt notBelow)
          · exact below entry inRest

theorem ascending_ofList (entries : List (String × β)) : Ascending (ofList entries) := by
  suffices ∀ written : List (String × β), Ascending written →
      Ascending (entries.foldl (fun written entry => insert entry.1 entry.2 written) written) from
    this [] ascending_nil
  induction entries with
  | nil => exact fun written ascending => ascending
  | cons entry rest ih =>
      exact fun written ascending => ih _ (ascending_insert entry.1 entry.2 ascending)

theorem mem_of_mem_ofList {entry : String × β} {entries : List (String × β)}
    (member : entry ∈ ofList entries) : entry ∈ entries := by
  suffices ∀ written : List (String × β),
      entry ∈ entries.foldl (fun written e => insert e.1 e.2 written) written →
        entry ∈ entries ∨ entry ∈ written from
    (this [] member).resolve_right List.not_mem_nil
  clear member
  induction entries with
  | nil => exact fun written => .inr
  | cons first rest ih =>
      intro written member
      rcases ih _ member with inRest | inWritten
      · exact .inl (List.mem_cons_of_mem _ inRest)
      · rcases mem_insert inWritten with rfl | before
        · exact .inl List.mem_cons_self
        · exact .inr before

theorem ascending_erase {entries : List (String × β)} (key : String)
    (ascending : Ascending entries) : Ascending (erase key entries) :=
  List.Pairwise.filter _ ascending

theorem mem_of_find? {key : String} {value : β} {entries : List (String × β)}
    (found : find? key entries = some value) : (key, value) ∈ entries := by
  induction entries with
  | nil => cases found
  | cons head rest ih =>
      obtain ⟨k, v⟩ := head
      simp only [find?] at found
      split at found
      · next same =>
        cases same
        cases found
        exact List.mem_cons_self
      · exact List.mem_cons_of_mem _ (ih found)

theorem find?_eq_none_of_below {key : String} {entries : List (String × β)}
    (below : ∀ entry ∈ entries, key < entry.1) : find? key entries = none := by
  cases found : find? key entries with
  | none => rfl
  | some value => exact absurd (below _ (mem_of_find? found)) (String.lt_irrefl key)

theorem find?_eq_none_of_lt_head {key k : String} {v : β} {rest : List (String × β)}
    (ascending : Ascending ((k, v) :: rest)) (lt : key < k) :
    find? key ((k, v) :: rest) = none := by
  obtain ⟨below, _⟩ := List.pairwise_cons.mp ascending
  refine find?_eq_none_of_below fun entry member => ?_
  rcases List.mem_cons.mp member with rfl | inRest
  · exact lt
  · exact String.lt_trans lt (below entry inRest)

theorem find?_of_mem {key : String} {value : β} {entries : List (String × β)}
    (ascending : Ascending entries) (member : (key, value) ∈ entries) :
    find? key entries = some value := by
  induction entries with
  | nil => cases member
  | cons head rest ih =>
      obtain ⟨k, v⟩ := head
      obtain ⟨below, restAscending⟩ := List.pairwise_cons.mp ascending
      simp only [find?]
      rcases List.mem_cons.mp member with same | inRest
      · cases same
        rw [if_pos rfl]
      · have differ : k ≠ key := String.ne_of_lt (below _ inRest)
        rw [if_neg differ, ih restAscending inRest]

/-- Two ordered maps with the same look-ups are the same list. -/
theorem ext {left right : List (String × β)} (leftAscending : Ascending left)
    (rightAscending : Ascending right) (same : ∀ key, find? key left = find? key right) :
    left = right := by
  induction left generalizing right with
  | nil =>
      cases right with
      | nil => rfl
      | cons head rest =>
          have found := same head.1
          simp [find?] at found
  | cons head rest ih =>
      obtain ⟨k, v⟩ := head
      obtain ⟨below, restAscending⟩ := List.pairwise_cons.mp leftAscending
      cases right with
      | nil =>
          have found := same k
          simp [find?] at found
      | cons other others =>
          obtain ⟨l, w⟩ := other
          obtain ⟨otherBelow, othersAscending⟩ := List.pairwise_cons.mp rightAscending
          -- The first keys agree, because the smaller one would be missing on the other side.
          have notLt : ¬ k < l := by
            intro lt
            have found := same k
            rw [find?_eq_none_of_lt_head rightAscending lt] at found
            simp [find?] at found
          have notGt : ¬ l < k := by
            intro lt
            have found := same l
            rw [find?_eq_none_of_lt_head leftAscending lt] at found
            simp [find?] at found
          have keys : k = l := String.le_antisymm notGt notLt
          subst keys
          have values : v = w := by simpa [find?] using same k
          subst values
          have rests : rest = others := by
            refine ih restAscending othersAscending fun key => ?_
            by_cases atHead : k = key
            · subst atHead
              rw [find?_eq_none_of_below below, find?_eq_none_of_below otherBelow]
            · simpa [find?, atHead] using same key
          rw [rests]

theorem insert_of_find? {key : String} {value : β} {entries : List (String × β)}
    (ascending : Ascending entries) (found : find? key entries = some value) :
    insert key value entries = entries := by
  refine ext (ascending_insert key value ascending) ascending fun other => ?_
  by_cases same : key = other
  · subst same
    rw [find?_insert_self, found]
  · exact find?_insert_ne value entries same

theorem insert_insert (key : String) (first last : β) (entries : List (String × β)) :
    insert key last (insert key first entries) = insert key last entries := by
  induction entries with
  | nil => simp [insert]
  | cons head rest ih =>
      obtain ⟨k, v⟩ := head
      by_cases lt : key < k
      · simp [insert, lt]
      · by_cases same : k = key
        · simp [insert, same]
        · simp [insert, lt, same, ih]

theorem insert_comm_of_lt {key other : String} (value w : β) (entries : List (String × β))
    (lt : key < other) :
    insert key value (insert other w entries) = insert other w (insert key value entries) := by
  have differ : key ≠ other := String.ne_of_lt lt
  have notLt : ¬ other < key := String.lt_asymm lt
  induction entries with
  | nil => simp [insert, lt, notLt, differ]
  | cons head rest ih =>
      obtain ⟨k, v⟩ := head
      by_cases before : key < k
      · by_cases otherBefore : other < k
        · simp [insert, before, otherBefore, lt, notLt, differ]
        · by_cases same : k = other
          · subst same
            simp [insert, before, notLt, differ]
          · simp [insert, before, otherBefore, notLt, differ, same]
      · -- The greater key is written further behind.
        have behind : k < other := by
          refine Decidable.byContradiction fun notBehind => ?_
          have le := String.le_trans (String.not_lt.mp notBehind) (String.not_lt.mp before)
          exact String.not_lt.mpr le lt
        have otherBehind : ¬ other < k := String.lt_asymm behind
        have otherDiffer : k ≠ other := String.ne_of_lt behind
        by_cases same : k = key
        · subst same
          simp [insert, otherBehind, otherDiffer]
        · simp [insert, before, otherBehind, otherDiffer, same, ih]

theorem insert_comm {key other : String} (value w : β) (entries : List (String × β))
    (differ : key ≠ other) :
    insert key value (insert other w entries) = insert other w (insert key value entries) := by
  by_cases lt : key < other
  · exact insert_comm_of_lt value w entries lt
  · by_cases gt : other < key
    · exact (insert_comm_of_lt w value entries gt).symm
    · exact absurd (String.le_antisymm gt lt) differ

/-! ## Many writes -/

section Order

variable {key k : String}

@[simp]
theorem insert_nil (key : String) (value : β) : insert key value [] = [(key, value)] := rfl

theorem insert_before (before : key < k) (value v : β) (rest : List (String × β)) :
    insert key value ((k, v) :: rest) = (key, value) :: (k, v) :: rest := if_pos before

theorem insert_behind (behind : k < key) (value v : β) (rest : List (String × β)) :
    insert key value ((k, v) :: rest) = (k, v) :: insert key value rest := by
  rw [insert, if_neg (String.lt_asymm behind), if_neg (String.ne_of_lt behind)]

end Order

theorem insert_of_above {key : String} (value : β) {entries : List (String × β)}
    (above : ∀ entry ∈ entries, entry.1 < key) :
    insert key value entries = entries ++ [(key, value)] := by
  induction entries with
  | nil => rfl
  | cons head rest ih =>
      obtain ⟨lt, restAbove⟩ := List.forall_mem_cons.mp above
      rw [insert_behind lt, ih restAbove, List.cons_append]

theorem ofList_of_ascending {entries : List (String × β)} (ascending : Ascending entries) :
    ofList entries = entries := by
  suffices ∀ written : List (String × β), Ascending (written ++ entries) →
      entries.foldl (fun written entry => insert entry.1 entry.2 written) written =
        written ++ entries from this [] ascending
  clear ascending
  induction entries with
  | nil => exact fun written _ => (List.append_nil written).symm
  | cons entry rest ih =>
      intro written ascending
      have above : ∀ before ∈ written, before.1 < entry.1 := fun before member =>
        (List.pairwise_append.mp ascending).2.2 before member entry List.mem_cons_self
      rw [List.append_cons] at ascending
      rw [List.foldl_cons, insert_of_above entry.2 above, ih _ ascending, ← List.append_cons]

variable (keep : String → Bool)

theorem find?_filter (key : String) (entries : List (String × β)) :
    find? key (entries.filter fun entry => keep entry.1) =
      if keep key then find? key entries else none := by
  induction entries with
  | nil => simp
  | cons head rest ih =>
      obtain ⟨k, v⟩ := head
      by_cases kept : keep k = true
      · by_cases same : k = key
        · subst same
          simp [kept, find?]
        · simp [kept, find?, same, ih]
      · by_cases same : k = key
        · subst same
          simp [kept, ih]
        · simp [kept, find?, same, ih]

theorem filter_insert (key : String) (value : β) {entries : List (String × β)}
    (ascending : Ascending entries) :
    (insert key value entries).filter (fun entry => keep entry.1) =
      if keep key then insert key value (entries.filter fun entry => keep entry.1)
      else entries.filter fun entry => keep entry.1 := by
  have filtered := List.Pairwise.filter (fun entry => keep entry.1) ascending
  have inserted := List.Pairwise.filter (fun entry => keep entry.1)
    (ascending_insert key value ascending)
  split
  · next kept =>
    refine ext inserted (ascending_insert key value filtered) fun other => ?_
    by_cases same : key = other
    · subst same
      simp [find?_filter, kept]
    · simp only [find?_filter, find?_insert_ne _ _ same]
  · next dropped =>
    refine ext inserted filtered fun other => ?_
    by_cases same : key = other
    · subst same
      simp [find?_filter, dropped]
    · simp only [find?_filter, find?_insert_ne _ _ same]

/-- Some keys of a map are written by the entries of these keys. -/
theorem filter_ofList (entries : List (String × β)) :
    (ofList entries).filter (fun entry => keep entry.1) =
      ofList (entries.filter fun entry => keep entry.1) := by
  suffices ∀ written : List (String × β), Ascending written →
      (entries.foldl (fun written entry => insert entry.1 entry.2 written) written).filter
          (fun entry => keep entry.1) =
        (entries.filter fun entry => keep entry.1).foldl
          (fun written entry => insert entry.1 entry.2 written)
          (written.filter fun entry => keep entry.1) from this [] ascending_nil
  induction entries with
  | nil => exact fun written _ => rfl
  | cons entry rest ih =>
      intro written ascending
      rw [List.foldl_cons, ih _ (ascending_insert entry.1 entry.2 ascending),
        filter_insert keep entry.1 entry.2 ascending]
      by_cases kept : keep entry.1 = true
      · simp [kept]
      · simp [kept]

end GatedForms.KeyMap

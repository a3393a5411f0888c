/-! # Lists sorted by key

Objects, field messages and button slots are all maps from text to something, shown in the order
of their keys. They are plain lists of entries; `insert` keeps a sorted list sorted, and reading
back what was written holds for every list, sorted or not.
-/

namespace GatedForms.KeyMap

variable {β : Type}

/-- The value of the first entry with this key. -/
def find? (key : String) : List (String × β) → Option β
  | [] => none
  | (k, v) :: rest => if k = key then some v else find? key rest

/-- Write one entry: replace the entry of that key, or place it before the first greater key. -/
def insert (key : String) (value : β) : List (String × β) → List (String × β)
  | [] => [(key, value)]
  | (k, v) :: rest =>
      if key < k then (key, value) :: (k, v) :: rest
      else if k = key then (key, value) :: rest
      else (k, v) :: insert key value rest

/-- Drop every entry of this key. -/
def erase (key : String) (entries : List (String × β)) : List (String × β) :=
  entries.filter fun entry => entry.1 ≠ key

/-- Write entries one after the other; of equal keys the last one stays. -/
def ofList (entries : List (String × β)) : List (String × β) :=
  entries.foldl (fun written entry => insert entry.1 entry.2 written) []

@[simp]
theorem find?_nil (key : String) : find? key ([] : List (String × β)) = none := rfl

@[simp]
theorem find?_insert_self (key : String) (value : β) (entries : List (String × β)) :
    find? key (insert key value entries) = some value := by
  induction entries with
  | nil => simp [insert, find?]
  | cons entry rest ih =>
      obtain ⟨k, v⟩ := entry
      simp only [insert]
      split
      · simp [find?]
      · split
        · simp [find?]
        · next hne => simp [find?, hne, ih]

theorem find?_insert_ne {key other : String} (value : β) (entries : List (String × β))
    (hne : key ≠ other) : find? other (insert key value entries) = find? other entries := by
  induction entries with
  | nil => simp [insert, find?, hne]
  | cons entry rest ih =>
      obtain ⟨k, v⟩ := entry
      simp only [insert]
      split
      · simp [find?, hne]
      · split
        · next heq => subst heq; simp [find?, hne]
        · simp only [find?, ih]

@[simp]
theorem find?_erase_self (key : String) (entries : List (String × β)) :
    find? key (erase key entries) = none := by
  induction entries with
  | nil => rfl
  | cons entry rest ih =>
      obtain ⟨k, v⟩ := entry
      by_cases h : k = key
      · simpa [erase, h] using ih
      · simpa [erase, find?, h] using ih

theorem find?_erase_ne {key other : String} (entries : List (String × β)) (hne : key ≠ other) :
    find? other (erase key entries) = find? other entries := by
  induction entries with
  | nil => rfl
  | cons entry rest ih =>
      obtain ⟨k, v⟩ := entry
      by_cases h : k = key
      · subst h
        simpa [erase, find?, hne] using ih
      · have step : erase key ((k, v) :: rest) = (k, v) :: erase key rest := by simp [erase, h]
        rw [step, find?, find?, ih]

end GatedForms.KeyMap

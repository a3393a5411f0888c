import Mathlib.Data.List.Forall2

/-! # Chained results

What is known of the steps of a chain whose end was reached: each of them succeeded. If the end was
not reached, the first step that failed says why.
-/

namespace GatedForms

variable {ε α β : Type}

@[simp]
theorem ok_bind (between : α) (next : α → Except ε β) :
    (Except.ok between >>= next) = next between := rfl

theorem ok_of_bind {first : Except ε α} {next : α → Except ε β} {result : β}
    (done : first >>= next = .ok result) :
    ∃ between, first = .ok between ∧ next between = .ok result := by
  cases first with
  | error cause => cases done
  | ok between => exact ⟨between, rfl, done⟩

theorem bind_eq_ok {first : Except ε α} {next : α → Except ε β} {result : β} :
    first >>= next = .ok result ↔ ∃ between, first = .ok between ∧ next between = .ok result := by
  refine ⟨ok_of_bind, ?_⟩
  rintro ⟨between, rfl, rest⟩
  exact rest

theorem bind_eq_error {first : Except ε α} {next : α → Except ε β} {cause : ε} :
    first >>= next = .error cause ↔
      first = .error cause ∨ ∃ between, first = .ok between ∧ next between = .error cause := by
  cases first with
  | error other =>
      constructor
      · intro failed
        cases failed
        exact .inl rfl
      · rintro (failed | ⟨_, done, -⟩)
        · cases failed
          rfl
        · cases done
  | ok between => simp

theorem map_eq_ok {first : Except ε α} {f : α → β} {result : β} :
    first.map f = .ok result ↔ ∃ before, first = .ok before ∧ f before = result := by
  cases first with
  | error cause => exact ⟨nofun, nofun⟩
  | ok before => simp [Except.map]

theorem map_eq_error {first : Except ε α} {f : α → β} {cause : ε} :
    first.map f = .error cause ↔ first = .error cause := by
  cases first with
  | error other => simp [Except.map]
  | ok before => exact ⟨nofun, nofun⟩

theorem mapError_eq_error {δ : Type} {first : Except ε α} {f : ε → δ} {cause : δ} :
    first.mapError f = .error cause ↔ ∃ before, first = .error before ∧ cause = f before := by
  cases first with
  | error before =>
      constructor
      · intro failed
        cases failed
        exact ⟨before, rfl, rfl⟩
      · rintro ⟨_, same, rfl⟩
        cases same
        rfl
  | ok result =>
      constructor
      · intro failed
        cases failed
      · rintro ⟨_, same, -⟩
        cases same

theorem mapM_eq_ok {f : α → Except ε β} {list : List α} {results : List β} :
    list.mapM f = .ok results ↔ List.Forall₂ (fun a b => f a = .ok b) list results := by
  induction list generalizing results with
  | nil =>
      rw [List.forall₂_nil_left_iff]
      exact ⟨fun done => by cases done; rfl, fun same => by rw [same]; rfl⟩
  | cons a rest ih =>
      rw [List.mapM_cons, List.forall₂_cons_left_iff, bind_eq_ok]
      constructor
      · rintro ⟨b, here, behind⟩
        obtain ⟨bs, rest, same⟩ := bind_eq_ok.mp behind
        cases same
        exact ⟨b, bs, here, ih.mp rest, rfl⟩
      · rintro ⟨b, bs, here, behind, rfl⟩
        exact ⟨b, here, bind_eq_ok.mpr ⟨bs, ih.mpr behind, rfl⟩⟩

theorem exists_of_mapM_eq_ok {f : α → Except ε β} {list : List α} {results : List β}
    (done : list.mapM f = .ok results) {a : α} (member : a ∈ list) :
    ∃ b ∈ results, f a = .ok b := by
  have each := mapM_eq_ok.mp done
  obtain ⟨i, inside, rfl⟩ := List.mem_iff_getElem.mp member
  have insideResults : i < results.length := each.length_eq ▸ inside
  exact ⟨results[i], List.getElem_mem insideResults, each.get inside insideResults⟩

/-- The first step that fails decides. -/
theorem mapM_eq_error {f : α → Except ε β} {list : List α} {cause : ε} :
    list.mapM f = .error cause ↔
      ∃ before bad behind, list = before ++ bad :: behind ∧
        (∀ a ∈ before, ∃ b, f a = .ok b) ∧ f bad = .error cause := by
  induction list with
  | nil =>
      refine ⟨nofun, ?_⟩
      rintro ⟨before, bad, behind, same, -⟩
      simp at same
  | cons first rest ih =>
      rw [List.mapM_cons]
      constructor
      · intro failed
        cases firstDone : f first with
        | error other =>
            rw [firstDone] at failed
            cases failed
            exact ⟨[], first, rest, rfl, nofun, firstDone⟩
        | ok b =>
            rw [firstDone, ok_bind] at failed
            cases restDone : rest.mapM f with
            | ok bs =>
                rw [restDone] at failed
                cases failed
            | error other =>
                rw [restDone] at failed
                cases failed
                obtain ⟨before, bad, behind, rfl, fine, badDone⟩ := ih.mp restDone
                exact ⟨first :: before, bad, behind, rfl,
                  List.forall_mem_cons.mpr ⟨⟨b, firstDone⟩, fine⟩, badDone⟩
      · rintro ⟨before, bad, behind, same, fine, badDone⟩
        cases before with
        | nil =>
            cases same
            rw [badDone]
            rfl
        | cons one before =>
            cases same
            obtain ⟨⟨b, firstDone⟩, fine⟩ := List.forall_mem_cons.mp fine
            rw [firstDone, ok_bind, ih.mpr ⟨before, bad, behind, rfl, fine, badDone⟩]
            rfl

theorem check_bind_eq_ok {first : Except ε Unit} {next : Unit → Except ε β} {result : β} :
    first >>= next = .ok result ↔ first = .ok () ∧ next () = .ok result := by
  cases first with
  | error cause => exact ⟨nofun, nofun⟩
  | ok => exact ⟨fun done => ⟨rfl, done⟩, fun both => both.2⟩

theorem check_bind_eq_error {first : Except ε Unit} {next : Unit → Except ε β} {cause : ε} :
    first >>= next = .error cause ↔
      first = .error cause ∨ first = .ok () ∧ next () = .error cause := by
  rw [bind_eq_error]
  exact or_congr_right ⟨fun ⟨_, both⟩ => both, fun both => ⟨(), both⟩⟩

end GatedForms

import GatedForms.Proofs.Paths.Display
import GatedForms.Proofs.Values.TwoPaths

/-! # Arrays that are padded

A write pads the arrays on its way with nulls, up to the index that comes next. One more than an
index has to fit 64 bits for that, and memory has to hold the array. Paths are read and extended
with any index of 64 bits, so the length overflows at the last of them, and at no other.
-/

namespace GatedForms

/-! ## Padded arrays -/

/-- What becomes of an array when an element of it is written. -/
structure Json.PaddedTo (old items : List Json) (position : Nat) : Prop where
  length : items.length = max old.length (position + 1)
  /-- The element that is written is there. -/
  inside : position < items.length
  kept : ∀ other x, other ≠ position → old[other]? = some x → items[other]? = some x
  nulls : ∀ other, old.length ≤ other → other < position → items[other]? = some .null

theorem Json.paddedTo_padded_set (items : List Json) (position : Nat) (x : Json) :
    PaddedTo items ((padded items position).set position x) position where
  length := length_padded_set items position x
  inside := lt_length_padded_set items position x
  kept other y differ found := by
    obtain ⟨inside, -⟩ := List.getElem?_eq_some_iff.mp found
    rw [getElem?_padded_set differ.symm, if_neg (by omega), found]
  nulls other absent below := by
    rw [getElem?_padded_set (by omega), if_pos ⟨absent, below⟩]

namespace Path

variable {p : Path} {i : Nat}

/-- The first index on the path that needs an array longer than any memory holds. -/
def FirstTooLong (p : Path) (i : Nat) : Prop :=
  ∃ common rest, p.segments = common ++ .index i :: rest ∧ Values.lengthBound ≤ i + 1 ∧
    ∀ j, .index j ∈ common → j + 1 < Values.lengthBound

theorem Obtained.index_fits (obtained : p.Obtained) (member : .index i ∈ p.segments) :
    i < Text.naturalBound :=
  obtained.printable _ member

theorem FirstTooLong.mem (first : p.FirstTooLong i) : .index i ∈ p.segments := by
  obtain ⟨common, rest, split, -⟩ := first
  rw [split]
  exact List.mem_append_right common List.mem_cons_self

end Path

namespace Values

variable {v : Values} {p : Path} {w : Json}

/-! ## Outcomes of a write -/

/-- A write fails at the first index that needs too long an array. -/
theorem trySet_eq_error {fault : PaddingFault} :
    v.trySet p w = .error fault ↔ ∃ i, p.FirstTooLong i ∧
      fault = if i + 1 < Text.naturalBound then .tooLong i else .lengthOverflow i := by
  have stops : v.trySet p w = .error fault ↔ paddingFault? p.segments = some fault := by
    rw [trySet, Path.segments, paddingFault?]
    cases paddingFault? p.below <;> simp
  rw [stops, paddingFault?_eq_some]
  simp only [paddedLength_eq_error]
  constructor
  · rintro ⟨common, i, rest, split, short, long, isFault⟩
    exact ⟨i, ⟨common, rest, split, long, short⟩, isFault⟩
  · rintro ⟨i, ⟨common, rest, split, long, short⟩, isFault⟩
    exact ⟨common, i, rest, split, short, long, isFault⟩

theorem trySet_eq_ok_set :
    v.trySet p w = .ok (v.set p w) ↔ ∀ i, .index i ∈ p.segments → i + 1 < lengthBound := by
  rw [trySet_eq_ok, paddingFault?_eq_none]
  simp [Path.segments]

theorem paddedTo_set (v : Values) (w : Json) {common rest : List Segment} {i : Nat}
    (split : p.segments = common ++ .index i :: rest) :
    ∃ items, (v.set p w).toJson.get? common = some (.array items) ∧
      Json.PaddedTo (Json.itemsOrEmpty (v.toJson.get? common)) items i := by
  have written : (v.set p w).toJson.get? common =
      some (Json.write w (.index i :: rest) (v.toJson.get? common)) := by
    rw [toJson_set, split, Json.write_append, Json.get?_write_self, Option.bind_some]
  exact ⟨_, written, Json.paddedTo_padded_set _ _ _⟩

/-- The length of an array overflows only for the last index of 64 bits, and there it does unless an
    earlier index stopped the write. For any other index a write can fail only where no memory holds
    the array. It is made if memory holds all arrays; in each of them the element that comes next is
    there and all other elements are kept. -/
theorem length_overflows_at_last_index (obtained : p.Obtained) (v : Values) (w : Json) :
    (∀ i, v.trySet p w = .error (.lengthOverflow i) ↔
      i + 1 = Text.naturalBound ∧ p.FirstTooLong i) ∧
    (∀ i, v.trySet p w = .error (.tooLong i) ↔
      i + 1 < Text.naturalBound ∧ p.FirstTooLong i) ∧
    (v.trySet p w = .ok (v.set p w) ↔ ∀ i, .index i ∈ p.segments → i + 1 < lengthBound) ∧
    ∀ common i rest, p.segments = common ++ .index i :: rest →
      ∃ items, (v.set p w).toJson.get? common = some (.array items) ∧
        Json.PaddedTo (Json.itemsOrEmpty (v.toJson.get? common)) items i := by
  refine ⟨fun i => ?_, fun i => ?_, trySet_eq_ok_set, fun common i rest => paddedTo_set v w⟩
  · rw [trySet_eq_error]
    constructor
    · rintro ⟨j, first, isFault⟩
      split at isFault
      · cases isFault
      · next overflows =>
        cases isFault
        have fits := obtained.index_fits first.mem
        exact ⟨by omega, first⟩
    · rintro ⟨last, first⟩
      exact ⟨i, first, by rw [if_neg (by omega)]⟩
  · rw [trySet_eq_error]
    constructor
    · rintro ⟨j, first, isFault⟩
      split at isFault
      · next counted =>
        cases isFault
        exact ⟨counted, first⟩
      · cases isFault
    · rintro ⟨counted, first⟩
      exact ⟨i, first, by rw [if_pos counted]⟩

/-- The gap of a third step is written and the first step is kept. A write to the last index behind
    a second step overflows. -/
theorem third_step_fits :
    let third : Path := ⟨"a", [.key "steps", .index 2, .key "gap"]⟩
    let last : Path := ⟨"a", [.key "steps", .index 1, .index 18446744073709551615]⟩
    (third.Obtained ∧ started.trySet third (.int 15) = .ok (started.set third (.int 15)) ∧
      ∃ items, (started.set third (.int 15)).toJson.get? [.key "a", .key "steps"] =
          some (.array items) ∧
        items.length = 3 ∧ items[0]? = some (.object [("gap", .int 0)])) ∧
    last.Obtained ∧
      started.trySet last .null = .error (.lengthOverflow 18446744073709551615) := by
  intro third last
  have thirdRead : third.Obtained := .parsed (show Path.parse "a.steps[2].gap" = _ from rfl)
  have second : Path.Obtained ⟨"a", [.key "steps", .index 1]⟩ :=
    .parsed (show Path.parse "a.steps[1]" = _ from rfl)
  have lastRead : last.Obtained := second.index (by decide)
  obtain ⟨-, -, made, padded⟩ := length_overflows_at_last_index thirdRead started (.int 15)
  obtain ⟨overflows, -⟩ := length_overflows_at_last_index lastRead started .null
  obtain ⟨items, found, paddedTo⟩ := padded [.key "a", .key "steps"] 2 [.key "gap"] rfl
  refine ⟨⟨thirdRead, made.mpr fun i member => ?_, items, found, paddedTo.length, ?_⟩, lastRead,
    (overflows _).mpr ⟨by decide, [.key "a", .key "steps", .index 1], [], rfl, by decide, ?_⟩⟩
  · have isThird : i = 2 := by simpa [third, Path.segments] using member
    subst isThird
    decide
  · exact paddedTo.kept 0 _ (by decide) rfl
  · intro j member
    have isSecond : j = 1 := by simpa using member
    subst isSecond
    decide

/-- The last index of 64 bits is read, but nothing can be written there, whatever the values are. -/
theorem last_index_is_read_but_overflows :
    let last : Path := ⟨"a", [.index 18446744073709551615]⟩
    Path.parse "a[18446744073709551615]" = .ok last ∧
      ∀ v w, trySet v last w = .error (.lengthOverflow 18446744073709551615) :=
  ⟨rfl, fun _ _ => rfl⟩

end Values

end GatedForms

import GatedForms.Proofs.Values.Frame

/-! # Reads and writes at two paths

What one path reads after a write at another is decided where the two part, and so is whether two
writes can be made in either order. No length of an array overflows on the way to an index below
`2 ^ 64 - 1`, so such a write can fail for want of memory only.
-/

namespace GatedForms

namespace Values

variable {v : Values} {p q : Path}

/-! ## Writes that can be made -/

theorem paddedLength_eq_ok {position n : Nat} :
    paddedLength position = .ok n ↔ position + 1 < lengthBound ∧ n = position + 1 := by
  have boundsOrdered : lengthBound < Text.naturalBound := by decide
  unfold paddedLength
  split
  · next overflows => exact ⟨nofun, fun short => by omega⟩
  · split
    · next long => exact ⟨nofun, fun short => by omega⟩
    · next short => simp [Nat.lt_of_not_le short, eq_comm]

theorem paddedLength_eq_error {position : Nat} {fault : PaddingFault} :
    paddedLength position = .error fault ↔ lengthBound ≤ position + 1 ∧
      fault = if position + 1 < Text.naturalBound then .tooLong position
        else .lengthOverflow position := by
  have boundsOrdered : lengthBound < Text.naturalBound := by decide
  unfold paddedLength
  split
  · next overflows =>
    have long : lengthBound ≤ position + 1 := by omega
    simp [Nat.not_lt_of_le overflows, long, eq_comm]
  · next counted =>
    split
    · next long => simp [Nat.lt_of_not_le counted, long, eq_comm]
    · next short => simp [short]

theorem paddingFault?_eq_none {steps : List Segment} :
    paddingFault? steps = none ↔ ∀ i, .index i ∈ steps → i + 1 < lengthBound := by
  induction steps with
  | nil => simp [paddingFault?]
  | cons s rest ih =>
      cases s with
      | key name => simp [paddingFault?, ih]
      | index position =>
          rw [paddingFault?]
          cases length : paddedLength position with
          | ok n => simp [ih, (paddedLength_eq_ok.mp length).1]
          | error fault =>
              have long := (paddedLength_eq_error.mp length).1
              exact ⟨nofun, fun short => absurd (short position List.mem_cons_self) (by omega)⟩

/-- The first index of a path to which no array can be padded is at fault. -/
theorem paddingFault?_eq_some {steps : List Segment} {fault : PaddingFault} :
    paddingFault? steps = some fault ↔ ∃ common i rest, steps = common ++ .index i :: rest ∧
      (∀ j, .index j ∈ common → j + 1 < lengthBound) ∧ paddedLength i = .error fault := by
  induction steps with
  | nil => simp [paddingFault?]
  | cons s steps ih =>
      -- Behind a step that is not at fault the first fault is the one of the steps that follow.
      have further (fits : ∀ j, s = .index j → j + 1 < lengthBound) :
          paddingFault? steps = some fault ↔ ∃ common i rest,
            s :: steps = common ++ .index i :: rest ∧
              (∀ j, .index j ∈ common → j + 1 < lengthBound) ∧ paddedLength i = .error fault := by
        rw [ih]
        constructor
        · rintro ⟨common, i, rest, rfl, short, faulty⟩
          refine ⟨s :: common, i, rest, rfl, fun j member => ?_, faulty⟩
          exact (List.mem_cons.mp member).elim (fun same => fits j same.symm) (short j)
        · rintro ⟨common, i, rest, same, short, faulty⟩
          cases common with
          | nil =>
              have long := (paddedLength_eq_error.mp faulty).1
              exact absurd (fits i (List.cons.inj same).1) (by omega)
          | cons _ common =>
              obtain ⟨rfl, rfl⟩ := List.cons.inj same
              exact ⟨common, i, rest, rfl,
                fun j member => short j (List.mem_cons_of_mem _ member), faulty⟩
      cases s with
      | key name => exact further nofun
      | index position =>
          rw [paddingFault?]
          cases length : paddedLength position with
          | ok n =>
              refine further fun j same => ?_
              cases same
              exact (paddedLength_eq_ok.mp length).1
          | error found =>
              have long := (paddedLength_eq_error.mp length).1
              constructor
              · rintro ⟨⟩
                exact ⟨[], position, steps, rfl, nofun, length⟩
              · rintro ⟨common, i, rest, same, short, faulty⟩
                cases common with
                | nil =>
                    cases same
                    cases length.symm.trans faulty
                    rfl
                | cons _ common =>
                    obtain ⟨rfl, -⟩ := List.cons.inj same
                    exact absurd (short position List.mem_cons_self) (by omega)

theorem paddingFault?_cases (steps : List Segment) :
    paddingFault? steps = none ∨
      ∃ i fault, .index i ∈ steps ∧ paddedLength i = .error fault ∧
        paddingFault? steps = some fault := by
  cases found : paddingFault? steps with
  | none => exact .inl rfl
  | some fault =>
      obtain ⟨common, i, rest, rfl, -, faulty⟩ := paddingFault?_eq_some.mp found
      exact .inr ⟨i, fault, List.mem_append_right common List.mem_cons_self, faulty, rfl⟩

theorem fault_of_counted {position : Nat} (counted : position + 1 < Text.naturalBound)
    {fault : PaddingFault} (faulty : paddedLength position = .error fault) :
    lengthBound ≤ position + 1 ∧ fault = .tooLong position := by
  simpa only [if_pos counted] using paddedLength_eq_error.mp faulty

theorem trySet_eq_ok {w : Json} {tree : Values} :
    v.trySet p w = .ok tree ↔ paddingFault? p.below = none ∧ v.set p w = tree := by
  unfold trySet
  split
  · next fault found => simp [found]
  · next nothing => simp [nothing]

/-! ## Reads and writes -/

/-- After a write every path reads what its way past the written one tells, and the root is an
    object, whatever it was. Only memory can be missing for a write whose indices, counted from one,
    fit 64 bits. -/
theorem reads_after_set (v : Values) {p : Path}
    (counted : ∀ i, .index i ∈ p.segments → i + 1 < Text.naturalBound) (w : Json) :
    (v.trySet p w = .ok (v.set p w) ∨
      ∃ i, .index i ∈ p.segments ∧ lengthBound ≤ i + 1 ∧ v.trySet p w = .error (.tooLong i)) ∧
    v.Written p w (v.set p w) ∧
    (v.set p w).toJson = Json.write w p.segments (some v.toJson) ∧
    ∀ root, ∃ members, Json.write w p.segments (some root) = .object members := by
  refine ⟨?_, written_set v p w, toJson_set v p w, fun root => ⟨_, rfl⟩⟩
  unfold trySet
  rcases paddingFault?_cases p.below with nothing | ⟨i, fault, member, faulty, first⟩
  · rw [nothing]
    exact .inl rfl
  · have inPath : .index i ∈ p.segments := List.mem_cons_of_mem _ member
    obtain ⟨long, rfl⟩ := fault_of_counted (counted i inPath) faulty
    rw [first]
    exact .inr ⟨i, inPath, long, rfl⟩

def started : Values :=
  ⟨[("a", .object [("on", .bool true), ("steps", .array [.object [("gap", .int 0)]])])]⟩

/-- The gap of a third step is written: a second step that holds nothing comes with it, and all else
    is read as before. -/
theorem third_step_pads_second :
    let p : Path := ⟨"a", [.key "steps", .index 2, .key "gap"]⟩
    let after := started.set p (.int 15)
    (∀ i, .index i ∈ p.segments → i + 1 < Text.naturalBound) ∧
      after.get? p = some (.int 15) ∧
      after.get? ⟨"a", [.key "steps", .index 1]⟩ = some .null ∧
      after.get? ⟨"a", [.key "steps", .index 1, .key "gap"]⟩ = none ∧
      after.get? ⟨"a", [.key "steps", .index 0, .key "gap"]⟩ = some (.int 0) ∧
      after.get? ⟨"a", [.key "on"]⟩ = some (.bool true) ∧
      after.get? ⟨"a", [.key "steps", .key "gap"]⟩ = none := by
  intro p after
  have counted : ∀ i, .index i ∈ p.segments → i + 1 < Text.naturalBound := by
    intro i member
    have isThird : i = 2 := by simpa [p, Path.segments] using member
    subst isThird
    decide
  obtain ⟨-, written, -, -⟩ := reads_after_set started counted (.int 15)
  refine ⟨counted, written.inside p [] (List.append_nil _).symm, ?_, ?_, ?_, ?_, ?_⟩
  · exact written.otherIndex _ [.key "a", .key "steps"] 2 1 ⟨by decide, ⟨_, rfl⟩, ⟨_, rfl⟩⟩
  · exact written.otherIndex _ [.key "a", .key "steps"] 2 1 ⟨by decide, ⟨_, rfl⟩, ⟨_, rfl⟩⟩
  · exact written.otherIndex _ [.key "a", .key "steps"] 2 0 ⟨by decide, ⟨_, rfl⟩, ⟨_, rfl⟩⟩
  · exact written.otherKey _ [.key "a"] "steps" "on" ⟨by decide, ⟨_, rfl⟩, ⟨_, rfl⟩⟩
  · exact written.otherKind _ [.key "a", .key "steps"] (.index 2) (.key "gap")
      ⟨by decide, ⟨_, rfl⟩, ⟨_, rfl⟩⟩ (by decide)

/-- Writes whose paths part at two keys or at two indices give the same tree in either order, and
    either order is possible if the other one is. -/
theorem parting_writes_commute {common : List Segment} {s t : Segment}
    (parts : p.PartsAt q common s t) (sameKind : Path.isIndex s = Path.isIndex t) (v : Values)
    (w u : Json) :
    (v.set p w).set q u = (v.set q u).set p w ∧
      ∀ tree, (v.trySet p w >>= fun left => left.trySet q u) = .ok tree ↔
        (v.trySet q u >>= fun left => left.trySet p w) = .ok tree := by
  have commute := set_comm_of_partsAt parts sameKind v w u
  refine ⟨commute, fun tree => ?_⟩
  simp only [bind_eq_ok, trySet_eq_ok]
  constructor
  · rintro ⟨_, ⟨firstFits, rfl⟩, secondFits, rfl⟩
    exact ⟨_, ⟨secondFits, rfl⟩, firstFits, commute.symm⟩
  · rintro ⟨_, ⟨secondFits, rfl⟩, firstFits, rfl⟩
    exact ⟨_, ⟨firstFits, rfl⟩, secondFits, commute⟩

/-- A third step and the gap of the first one are written where nothing stands: whichever comes
    first, the array is padded once. -/
theorem steps_written_in_either_order :
    let third : Path := ⟨"a", [.key "steps", .index 2]⟩
    let gap : Path := ⟨"a", [.key "steps", .index 0, .key "gap"]⟩
    third.PartsAt gap [.key "a", .key "steps"] (.index 2) (.index 0) ∧
      (empty.set third (.bool true)).set gap (.int 1) =
        (empty.set gap (.int 1)).set third (.bool true) ∧
      (empty.set gap (.int 1)).set third (.bool true) = ⟨[("a", .object [("steps",
        .array [.object [("gap", .int 1)], .null, .bool true])])]⟩ := by
  intro third gap
  have parts : third.PartsAt gap [.key "a", .key "steps"] (.index 2) (.index 0) :=
    ⟨by decide, ⟨_, rfl⟩, ⟨_, rfl⟩⟩
  exact ⟨parts, (parting_writes_commute parts rfl empty (.bool true) (.int 1)).1, by cbv⟩

end Values

end GatedForms

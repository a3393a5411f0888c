import GatedForms.Path
import GatedForms.Proofs.Results
import GatedForms.Proofs.Text

/-! # The grammar of paths

A path is written in parts with single dots between them. A part is a key, none of whose characters
is special in paths, and any number of indices in brackets. What is written so is read, and nothing
else: the first part that is not written so decides what is wrong.
-/

namespace GatedForms

/-! ## Plain keys -/

/-- A step whose text can be told apart from what follows: a key has some characters, none of them
    special in paths. -/
def Segment.Plain : Segment → Prop
  | .key name => name ≠ "" ∧ ∀ c ∈ name.toList, c ≠ '.' ∧ c ≠ '[' ∧ c ≠ ']'
  | .index _ => True

/-- A step whose text can be read back: an index fits 64 bits. -/
def Segment.Printable : Segment → Prop
  | .key name => (Segment.key name).Plain
  | .index position => position < Text.naturalBound

theorem Segment.Printable.plain {s : Segment} (printable : s.Printable) : s.Plain := by
  cases s with
  | key name => exact printable
  | index position => trivial

theorem Text.Natural.not_mem {cs : List Char} {n : Nat} (natural : Natural cs n) {c : Char}
    (noDigit : c.isDigit = false) (noSign : c ≠ '+') : c ∉ cs := by
  intro member
  cases natural with
  | unsigned digits =>
      rw [digits.each c member] at noDigit
      cases noDigit
  | plus digits =>
      rcases List.mem_cons.mp member with sign | inDigits
      · exact noSign sign
      · rw [digits.each c inDigits] at noDigit
        cases noDigit

namespace Path

/-! ## Keys in front of brackets -/

def NoKey (cs : List Char) : Prop := cs = [] ∨ ∃ rest, cs = '[' :: rest

theorem takeWhile_eq_nil_iff {cs : List Char} : cs.takeWhile (· ≠ '[') = [] ↔ NoKey cs := by
  cases cs with
  | nil => simp [NoKey]
  | cons c cs => by_cases opening : c = '[' <;> simp [NoKey, opening]

instance (cs : List Char) : Decidable (NoKey cs) := decidable_of_iff _ takeWhile_eq_nil_iff

theorem key_and_rest {key rest : List Char} (noOpening : '[' ∉ key) (opening : NoKey rest) :
    (key ++ rest).takeWhile (· ≠ '[') = key ∧ (key ++ rest).dropWhile (· ≠ '[') = rest := by
  have inKey : ∀ c ∈ key, decide (c ≠ '[') = true := fun c member => by
    rw [decide_eq_true_iff]
    rintro rfl
    exact noOpening member
  have first : (key ++ rest).takeWhile (· ≠ '[') = key := by
    rw [List.takeWhile_append_of_pos inKey, takeWhile_eq_nil_iff.mpr opening, List.append_nil]
  have whole := List.takeWhile_append_dropWhile (p := fun c => decide (c ≠ '['))
    (l := key ++ rest)
  rw [first] at whole
  exact ⟨first, List.append_cancel_left whole⟩

theorem exists_key (cs : List Char) :
    ∃ key rest, cs = key ++ rest ∧ '[' ∉ key ∧ NoKey rest := by
  by_cases opened : '[' ∈ cs
  · obtain ⟨key, rest, rfl, noOpening⟩ := List.eq_append_cons_of_mem opened
    exact ⟨key, '[' :: rest, rfl, noOpening, .inr ⟨rest, rfl⟩⟩
  · exact ⟨cs, [], (List.append_nil cs).symm, opened, .inl rfl⟩

/-! ## Indices in brackets -/

/-- Indices in brackets, and the steps that they stand for. -/
inductive Brackets : List Char → List Segment → Prop where
  | none : Brackets [] []
  | more {inside rest : List Char} {position : Nat} {others : List Segment}
      (index : Text.Natural inside position) (behind : Brackets rest others) :
      Brackets ('[' :: (inside ++ ']' :: rest)) (.index position :: others)

namespace Brackets

theorem append {cs ds : List Char} {segments others : List Segment} (front : Brackets cs segments)
    (back : Brackets ds others) : Brackets (cs ++ ds) (segments ++ others) := by
  induction front with
  | none => exact back
  | more index _ ih => simpa using Brackets.more index ih

theorem printable {cs : List Char} {segments : List Segment} (brackets : Brackets cs segments) :
    ∀ s ∈ segments, s.Printable := by
  induction brackets with
  | none => exact nofun
  | more index _ ih => exact List.forall_mem_cons.mpr ⟨index.fits, ih⟩

theorem not_mem {cs : List Char} {segments : List Segment} (brackets : Brackets cs segments)
    {c : Char} (noDigit : c.isDigit = false) (noSign : c ≠ '+') (noOpening : c ≠ '[')
    (noClosing : c ≠ ']') : c ∉ cs := by
  induction brackets with
  | none => exact List.not_mem_nil
  | more index _ ih =>
      simp only [List.mem_cons, List.mem_append, not_or]
      exact ⟨noOpening, index.not_mem noDigit noSign, noClosing, ih⟩

theorem noKey {cs : List Char} {segments : List Segment} (brackets : Brackets cs segments) :
    NoKey cs := by
  cases brackets with
  | none => exact .inl rfl
  | more index behind => exact .inr ⟨_, rfl⟩

end Brackets

theorem indices?_inside {done ds : List Char} (inside : ']' ∉ ds) (rest : List Char) :
    indices? (some done) (ds ++ ']' :: rest) =
      (Text.natural? (done.reverse ++ ds)).bind fun position =>
        (indices? none rest).map (.index position :: ·) := by
  induction ds generalizing done with
  | nil =>
      rw [List.nil_append, indices?, List.append_nil]
      simp only [if_true]
      cases Text.natural? done.reverse with
      | none => rfl
      | some position => cases indices? none rest <;> rfl
  | cons d ds ih =>
      obtain ⟨differ, inRest⟩ := List.ne_and_not_mem_of_not_mem_cons inside
      rw [List.cons_append, indices?]
      simp only [if_neg (Ne.symm differ)]
      rw [ih inRest, List.reverse_cons, List.append_assoc, List.singleton_append]

theorem indices?_unclosed {done ds : List Char} (inside : ']' ∉ ds) :
    indices? (some done) ds = none := by
  induction ds generalizing done with
  | nil => rfl
  | cons d ds ih =>
      obtain ⟨differ, inRest⟩ := List.ne_and_not_mem_of_not_mem_cons inside
      rw [indices?]
      simp only [if_neg (Ne.symm differ)]
      exact ih inRest

theorem indices?_opening {ds : List Char} (inside : ']' ∉ ds) (rest : List Char) :
    indices? none ('[' :: (ds ++ ']' :: rest)) =
      (Text.natural? ds).bind fun position => (indices? none rest).map (.index position :: ·) := by
  rw [indices?]
  simp only [if_true]
  rw [indices?_inside inside, List.reverse_nil, List.nil_append]

theorem brackets_of_indices? (cs : List Char) {segments : List Segment}
    (read : indices? none cs = some segments) : Brackets cs segments := by
  match cs with
  | [] =>
      cases read
      exact .none
  | c :: cs =>
      by_cases opening : c = '['
      · subst opening
        by_cases closed : ']' ∈ cs
        · obtain ⟨inside, rest, split, noBracket⟩ := List.eq_append_cons_of_mem closed
          have shorter : rest.length < cs.length := by
            rw [split, List.length_append, List.length_cons]
            omega
          rw [split, indices?_opening noBracket] at read
          rw [split]
          obtain ⟨position, number, read⟩ := Option.bind_eq_some_iff.mp read
          obtain ⟨others, restRead, rfl⟩ := Option.map_eq_some_iff.mp read
          exact .more (Text.natural?_eq_some.mp number) (brackets_of_indices? rest restRead)
        · rw [indices?] at read
          simp only [if_true, indices?_unclosed closed] at read
          cases read
      · rw [indices?] at read
        simp only [if_neg opening] at read
        cases read
termination_by cs.length
decreasing_by
  rw [List.length_cons]
  omega

theorem indices?_eq_some {cs : List Char} {segments : List Segment} :
    indices? none cs = some segments ↔ Brackets cs segments := by
  refine ⟨brackets_of_indices? cs, fun brackets => ?_⟩
  induction brackets with
  | none => rfl
  | more index _ ih =>
      rw [indices?_opening (index.not_mem rfl (by decide)), Text.natural?_eq_some.mpr index, ih]
      rfl

/-! ## Parts -/

/-- One part: a plain key and indices in brackets. -/
inductive Part : List Char → List Segment → Prop where
  | mk {name : String} {rest : List Char} {indices : List Segment}
      (plain : (Segment.key name).Plain) (behind : Brackets rest indices) :
      Part (name.toList ++ rest) (.key name :: indices)

theorem Part.not_mem_dot {cs : List Char} {segments : List Segment} (part : Part cs segments) :
    '.' ∉ cs := by
  cases part with
  | mk plain behind =>
      rw [List.mem_append]
      rintro (inName | inBrackets)
      · exact (plain.2 '.' inName).1 rfl
      · exact behind.not_mem rfl (by decide) (by decide) (by decide) inBrackets

theorem Part.printable {cs : List Char} {segments : List Segment} (part : Part cs segments) :
    ∀ s ∈ segments, s.Printable := by
  cases part with
  | mk plain behind => exact List.forall_mem_cons.mpr ⟨plain, behind.printable⟩

theorem part_append {key rest : List Char} (noOpening : '[' ∉ key) (opening : NoKey rest) :
    part (key ++ rest) =
      if key = [] then .error .noKey
      else if ']' ∈ key then .error .badBrackets
      else match indices? none rest with
        | some indices => .ok (.key (String.ofList key) :: indices)
        | none => .error .badBrackets := by
  obtain ⟨first, behind⟩ := key_and_rest noOpening opening
  simp only [part, first, behind]
  cases key with
  | nil => rfl
  | cons c cs => rfl

theorem part_eq_ok {cs : List Char} (noDot : '.' ∉ cs) {segments : List Segment} :
    part cs = .ok segments ↔ Part cs segments := by
  constructor
  · obtain ⟨key, rest, rfl, noOpening, opening⟩ := exists_key cs
    rw [part_append noOpening opening]
    intro read
    split at read
    · cases read
    · next someKey =>
      split at read
      · cases read
      · next noBracket =>
        split at read
        · next indices indicesRead =>
          cases read
          have plain : (Segment.key (String.ofList key)).Plain := by
            refine ⟨by simpa using someKey, fun c member => ⟨?_, ?_, ?_⟩⟩ <;>
              rw [String.toList_ofList] at member <;> rintro rfl
            · exact noDot (List.mem_append_left rest member)
            · exact noOpening member
            · exact noBracket member
          have written := Part.mk plain (indices?_eq_some.mp indicesRead)
          rwa [String.toList_ofList] at written
        · cases read
  · intro written
    cases written with
    | @mk name rest indices plain behind =>
        have noOpening : '[' ∉ name.toList := fun member => (plain.2 '[' member).2.1 rfl
        have noBracket : ']' ∉ name.toList := fun member => (plain.2 ']' member).2.2 rfl
        rw [part_append noOpening behind.noKey, indices?_eq_some.mpr behind, if_neg noBracket,
          String.ofList_toList]
        exact if_neg (by simpa using plain.1)

theorem part_eq_noKey {cs : List Char} : part cs = .error .noKey ↔ NoKey cs := by
  rw [← takeWhile_eq_nil_iff, ← List.isEmpty_iff]
  simp only [part]
  split
  · next empty => exact ⟨fun _ => empty, fun _ => rfl⟩
  · next someKey =>
    refine ⟨fun refused => ?_, fun empty => absurd empty someKey⟩
    split at refused
    · cases refused
    · split at refused <;> cases refused

theorem part_eq_error {cs : List Char} (noDot : '.' ∉ cs) {fault : PartFault} :
    part cs = .error fault ↔ (∀ segments, ¬ Part cs segments) ∧
      (NoKey cs ∧ fault = .noKey ∨ ¬ NoKey cs ∧ fault = .badBrackets) := by
  rw [← part_eq_noKey]
  simp only [← part_eq_ok noDot]
  cases part cs with
  | ok segments => simp
  | error cause => cases cause <;> cases fault <;> simp

/-! ## Texts of paths -/

/-- Parts with single dots between them, and the steps that they stand for. -/
inductive Written : List Char → List Segment → Prop where
  | last {cs : List Char} {segments : List Segment} (part : Part cs segments) :
      Written cs segments
  | more {first rest : List Char} {segments others : List Segment} (part : Part first segments)
      (behind : Written rest others) : Written (first ++ '.' :: rest) (segments ++ others)

theorem Written.printable {cs : List Char} {segments : List Segment}
    (written : Written cs segments) : ∀ s ∈ segments, s.Printable := by
  induction written with
  | last part => exact part.printable
  | more part _ ih => exact List.forall_mem_append.mpr ⟨part.printable, ih⟩

theorem Written.exists_path {cs : List Char} {segments : List Segment}
    (written : Written cs segments) : ∃ p : Path, p.segments = segments := by
  cases written with
  | last part | more part behind =>
      cases part with
      | @mk name _ _ _ _ => exact ⟨⟨name, _⟩, rfl⟩

theorem Written.ne_nil {cs : List Char} {segments : List Segment} (written : Written cs segments) :
    cs ≠ [] := by
  cases written with
  | last part =>
      cases part with
      | mk plain behind => simp [plain.1]
  | more part behind => simp

theorem parts_of_written {cs : List Char} {segments : List Segment}
    (written : Written cs segments) : parts (Text.splitOn '.' cs) = .ok segments := by
  induction written with
  | last part =>
      rw [Text.splitOn_of_not_mem part.not_mem_dot, parts, (part_eq_ok part.not_mem_dot).mpr part]
      exact congrArg Except.ok (List.append_nil _)
  | more part _ ih =>
      rw [Text.splitOn_append part.not_mem_dot, parts, (part_eq_ok part.not_mem_dot).mpr part, ih]
      rfl

theorem written_of_parts {first : List Char} {rest : List (List Char)} {segments : List Segment}
    (noDot : ∀ cs ∈ first :: rest, '.' ∉ cs) (read : parts (first :: rest) = .ok segments) :
    Written (['.'].intercalate (first :: rest)) segments := by
  induction rest generalizing first segments with
  | nil =>
      obtain ⟨found, firstRead, read⟩ := ok_of_bind read
      cases read
      rw [List.intercalate_singleton, List.append_nil]
      exact .last ((part_eq_ok (noDot first List.mem_cons_self)).mp firstRead)
  | cons next rest ih =>
      obtain ⟨firstNoDot, restNoDot⟩ := List.forall_mem_cons.mp noDot
      obtain ⟨found, firstRead, read⟩ := ok_of_bind read
      obtain ⟨others, restRead, read⟩ := ok_of_bind read
      cases read
      rw [List.intercalate_cons_cons, List.append_assoc, List.singleton_append]
      exact .more ((part_eq_ok firstNoDot).mp firstRead) (ih restNoDot restRead)

theorem parts_eq_ok {cs : List Char} {segments : List Segment} :
    parts (Text.splitOn '.' cs) = .ok segments ↔ Written cs segments := by
  refine ⟨fun read => ?_, parts_of_written⟩
  obtain ⟨first, rest, split, joined⟩ := Text.splitOn_joined '.' cs
  have noDot : ∀ part ∈ first :: rest, '.' ∉ part := fun part member =>
    Text.not_mem_of_mem_splitOn (split ▸ member)
  rw [split] at read
  rw [joined]
  exact written_of_parts noDot read

/-- A path is read from what is written as its steps, and from nothing else. -/
theorem parse_eq_ok {raw : String} {p : Path} :
    parse raw = .ok p ↔ Written raw.toList p.segments := by
  rw [← parts_eq_ok]
  constructor
  · intro read
    unfold parse at read
    split at read
    · cases read
    · split at read
      · cases read
      · cases read
      · next segments segmentsRead =>
        obtain ⟨path, rfl⟩ := (parts_eq_ok.mp segmentsRead).exists_path
        cases read
        exact segmentsRead
  · intro read
    have notEmpty : raw.isEmpty = false := by
      simpa using (parts_eq_ok.mp read).ne_nil
    rw [parse, notEmpty, read]
    rfl

/-! ## Texts that are no paths -/

theorem parts_eq_mapM (list : List (List Char)) :
    parts list = (list.mapM part).map List.flatten := by
  induction list with
  | nil => rfl
  | cons first rest ih =>
      rw [parts, List.mapM_cons, ih]
      cases part first with
      | error fault => rfl
      | ok segments => cases rest.mapM part <;> rfl

theorem parts_eq_error {list : List (List Char)} {fault : PartFault} :
    parts list = .error fault ↔
      ∃ before bad behind, list = before ++ bad :: behind ∧
        (∀ cs ∈ before, ∃ segments, part cs = .ok segments) ∧ part bad = .error fault := by
  rw [parts_eq_mapM, map_eq_error, mapM_eq_error]

/-- The first of the parts between the dots of a text that is no part. -/
def FirstBad (cs bad : List Char) : Prop :=
  ∃ before behind, cs = ['.'].intercalate (before ++ bad :: behind) ∧
    (∀ part ∈ before ++ bad :: behind, '.' ∉ part) ∧
    (∀ part ∈ before, ∃ segments, Part part segments) ∧ ∀ segments, ¬ Part bad segments

theorem parts_splitOn_eq_error {cs : List Char} {fault : PartFault} :
    parts (Text.splitOn '.' cs) = .error fault ↔
      ∃ bad, FirstBad cs bad ∧
        (NoKey bad ∧ fault = .noKey ∨ ¬ NoKey bad ∧ fault = .badBrackets) := by
  rw [parts_eq_error]
  constructor
  · rintro ⟨before, bad, behind, split, fine, badRead⟩
    have noDot : ∀ part ∈ before ++ bad :: behind, '.' ∉ part := fun part member =>
      Text.not_mem_of_mem_splitOn (split ▸ member)
    have badNoDot := noDot bad (List.mem_append_right before List.mem_cons_self)
    obtain ⟨notPart, reason⟩ := (part_eq_error badNoDot).mp badRead
    refine ⟨bad, ⟨before, behind, ?_, noDot, fun part member => ?_, notPart⟩, reason⟩
    · rw [← split, Text.intercalate_splitOn]
    · obtain ⟨segments, read⟩ := fine part member
      exact ⟨segments, (part_eq_ok (noDot part (List.mem_append_left _ member))).mp read⟩
  · rintro ⟨bad, ⟨before, behind, rfl, noDot, fine, notPart⟩, reason⟩
    have badNoDot := noDot bad (List.mem_append_right before List.mem_cons_self)
    refine ⟨before, bad, behind, Text.splitOn_intercalate (by simp) noDot,
      fun part member => ?_, (part_eq_error badNoDot).mpr ⟨notPart, reason⟩⟩
    obtain ⟨segments, written⟩ := fine part member
    exact ⟨segments, (part_eq_ok (noDot part (List.mem_append_left _ member))).mpr written⟩

def PartFault.cause (raw : String) : PartFault → PathError
  | .noKey => .emptySegment raw
  | .badBrackets => .badIndex raw

theorem map_segments_parse {raw : String} (notEmpty : raw ≠ "") :
    (parse raw).map segments =
      (parts (Text.splitOn '.' raw.toList)).mapError fun fault => fault.cause raw := by
  have somewhat : raw.isEmpty = false := by simpa using notEmpty
  simp only [parse, somewhat]
  cases partsRead : parts (Text.splitOn '.' raw.toList) with
  | ok segments =>
      obtain ⟨path, rfl⟩ := (parts_eq_ok.mp partsRead).exists_path
      rfl
  | error fault => cases fault <;> rfl

theorem parse_eq_error_iff_parts {raw : String} {cause : PathError} :
    parse raw = .error cause ↔
      raw = "" ∧ cause = .empty ∨
      raw ≠ "" ∧ ∃ fault, parts (Text.splitOn '.' raw.toList) = .error fault ∧
        cause = fault.cause raw := by
  by_cases empty : raw = ""
  · subst empty
    have refused : parse "" = .error .empty := rfl
    simp [refused, eq_comm]
  · rw [or_iff_right fun none => empty none.1, and_iff_right empty, ← map_eq_error (f := segments),
      map_segments_parse empty, mapError_eq_error]

/-- What is not written as a path is refused for its first bad part: for want of a key, or for its
    brackets. -/
theorem parse_eq_error {raw : String} {cause : PathError} :
    parse raw = .error cause ↔
      raw = "" ∧ cause = .empty ∨
      raw ≠ "" ∧ ∃ bad, FirstBad raw.toList bad ∧
        (NoKey bad ∧ cause = .emptySegment raw ∨ ¬ NoKey bad ∧ cause = .badIndex raw) := by
  rw [parse_eq_error_iff_parts]
  refine or_congr_right (and_congr_right fun _ => ?_)
  simp only [parts_splitOn_eq_error]
  constructor
  · rintro ⟨fault, ⟨bad, firstBad, reason⟩, rfl⟩
    refine ⟨bad, firstBad, reason.imp ?_ ?_⟩
    · rintro ⟨noKey, rfl⟩
      exact ⟨noKey, rfl⟩
    · rintro ⟨someKey, rfl⟩
      exact ⟨someKey, rfl⟩
  · rintro ⟨bad, firstBad, ⟨noKey, rfl⟩ | ⟨someKey, rfl⟩⟩
    · exact ⟨.noKey, ⟨bad, firstBad, .inl ⟨noKey, rfl⟩⟩, rfl⟩
    · exact ⟨.badBrackets, ⟨bad, firstBad, .inr ⟨someKey, rfl⟩⟩, rfl⟩

end Path

end GatedForms

import GatedForms.Proofs.Paths.Grammar

/-! # Paths read by byte positions

A path can be read without taking its text apart into characters: the first bracket is searched
for, its position counted in bytes, and what stands in front of it and behind it is cut out of the
text. A cut needs two positions in order, inside of the text and between characters. All cuts that
are made have such positions, and what is read is the same.
-/

namespace GatedForms

namespace Text

/-! ## Byte positions -/

/-- What stands between two byte positions of a text. There is nothing to cut out if the positions
    are out of order, behind the end of the text or inside of a character. -/
def slice? (s : String) (start stop : Nat) : Option String :=
  if between : (String.Pos.Raw.mk start).IsValid s ∧ (String.Pos.Raw.mk stop).IsValid s ∧
      start ≤ stop then
    some (String.extract (s.pos ⟨start⟩ between.1) (s.pos ⟨stop⟩ between.2.1))
  else none

/-- The byte position of the first such character. -/
def offset? (c : Char) (s : String) : Option Nat :=
  if c ∈ s.toList then some (String.ofList (s.toList.takeWhile (· ≠ c))).utf8ByteSize else none

theorem utf8ByteSize_of_slice? {s piece : String} {start stop : Nat}
    (cut : slice? s start stop = some piece) :
    stop ≤ s.utf8ByteSize ∧ piece.utf8ByteSize = stop - start := by
  obtain ⟨⟨_, inside, _⟩, same⟩ := Option.dite_none_right_eq_some.mp cut
  cases same
  have last : stop ≤ s.utf8ByteSize := inside.le_utf8ByteSize
  refine ⟨last, ?_⟩
  rw [← String.size_toByteArray, String.toByteArray_extract, ByteArray.size_extract,
    String.size_toByteArray]
  simp only [String.offset_pos]
  omega

theorem slice?_append (front piece behind : String) :
    slice? (front ++ (piece ++ behind)) front.utf8ByteSize (front ++ piece).utf8ByteSize =
      some piece := by
  have start : (String.Pos.Raw.mk front.utf8ByteSize).IsValid (front ++ (piece ++ behind)) :=
    String.Pos.Raw.isValid_rawEndPos.append_right _
  have stop : (String.Pos.Raw.mk (front ++ piece).utf8ByteSize).IsValid
      (front ++ (piece ++ behind)) := by
    rw [← String.append_assoc]
    exact String.Pos.Raw.isValid_rawEndPos.append_right behind
  have ordered : front.utf8ByteSize ≤ (front ++ piece).utf8ByteSize := by
    rw [String.utf8ByteSize_append]
    exact Nat.le_add_right _ _
  rw [slice?, dif_pos ⟨start, stop, ordered⟩]
  refine congrArg some (String.toByteArray_inj.mp ?_)
  rw [String.toByteArray_extract, String.toByteArray_append, String.toByteArray_append]
  simp only [String.offset_pos]
  rw [String.utf8ByteSize_append]
  exact (ByteArray.extract_append_size_add (i := 0)).trans (ByteArray.extract_append_eq_left rfl)

theorem slice?_ofList (front piece behind : List Char) :
    slice? (String.ofList (front ++ (piece ++ behind))) (String.ofList front).utf8ByteSize
      (String.ofList (front ++ piece)).utf8ByteSize = some (String.ofList piece) := by
  simp only [String.ofList_append]
  exact slice?_append _ _ _

theorem offset?_append {c : Char} {front : List Char} (before : c ∉ front) (behind : List Char) :
    offset? c (String.ofList (front ++ c :: behind)) = some (String.ofList front).utf8ByteSize := by
  have kept : ∀ d ∈ front, decide (d ≠ c) = true := fun d member => by
    rw [decide_eq_true_iff]
    rintro rfl
    exact before member
  have first : (front ++ c :: behind).takeWhile (· ≠ c) = front := by
    rw [List.takeWhile_append_of_pos kept, List.takeWhile_cons_of_neg (by simp), List.append_nil]
  rw [offset?, String.toList_ofList, if_pos (List.mem_append_right front List.mem_cons_self),
    first]

theorem offset?_of_not_mem {c : Char} {cs : List Char} (nowhere : c ∉ cs) :
    offset? c (String.ofList cs) = none := by
  rw [offset?, String.toList_ofList, if_neg nowhere]

end Text

namespace Path

open Text (slice? offset?)

/-! ## Reading by byte positions -/

/-- Bracket groups up to the end of a part. There is no result at all if a cut fails, and no steps
    if the brackets are malformed. -/
def indicesBySlices (rest : String) : Option (Option (List Segment)) :=
  if rest = "" then some (some [])
  else match offset? ']' rest with
    | none => some none
    | some close => do
        let inside ← slice? rest 1 close
        match Text.natural? inside.toList with
        | none => some none
        | some position =>
            match _ : slice? rest (close + 1) rest.utf8ByteSize with
            | none => none
            | some behind =>
                if behind ≠ "" ∧ behind.toList.head? ≠ some '[' then some none
                else (indicesBySlices behind).map (·.map (.index position :: ·))
termination_by rest.utf8ByteSize
decreasing_by
  obtain ⟨_, size⟩ := Text.utf8ByteSize_of_slice? ‹slice? rest _ _ = some _›
  have notEmpty : rest.utf8ByteSize ≠ 0 := by simpa
  omega

def splitBySlices (text : String) : Option (String × String) :=
  match offset? '[' text with
  | none => some (text, "")
  | some opening => do
      let key ← slice? text 0 opening
      let rest ← slice? text opening text.utf8ByteSize
      return (key, rest)

def partBySlices (text : String) : Option (Except PartFault (List Segment)) := do
  let (key, rest) ← splitBySlices text
  if key = "" then return .error .noKey
  else if ']' ∈ key.toList then return .error .badBrackets
  else match ← indicesBySlices rest with
    | none => return .error .badBrackets
    | some indices => return .ok (.key key :: indices)

def partsBySlices : List String → Option (Except PartFault (List Segment))
  | [] => some (.ok [])
  | first :: rest => do
      match ← partBySlices first with
      | .error fault => return .error fault
      | .ok segments => (partsBySlices rest).map (·.map (segments ++ ·))

/-- The steps of a path. There is no result at all if a cut fails. -/
def parseBySlices (raw : String) : Option (Except PathError (List Segment)) :=
  if raw = "" then some (.error .empty)
  else (partsBySlices (Text.split '.' raw)).map (·.mapError (·.cause raw))

/-! ## No cut fails -/

theorem indices?_of_not_noKey {cs : List Char} (other : ¬ NoKey cs) : indices? none cs = none := by
  cases cs with
  | nil => exact absurd (.inl rfl) other
  | cons c cs =>
      have noOpening : c ≠ '[' := by
        rintro rfl
        exact other (.inr ⟨cs, rfl⟩)
      rw [indices?]
      exact if_neg noOpening

theorem noKey_iff {cs : List Char} :
    NoKey cs ↔ ¬ (String.ofList cs ≠ "" ∧ (String.ofList cs).toList.head? ≠ some '[') := by
  cases cs with
  | nil => simp [NoKey]
  | cons c cs => simp [NoKey]

/-- Between an opening bracket and the first closing one, and behind it, both cuts are made. -/
theorem indicesBySlices_opening {inside : List Char} (noBracket : ']' ∉ inside)
    (rest : List Char) :
    indicesBySlices (String.ofList ('[' :: (inside ++ ']' :: rest))) =
      match Text.natural? inside with
      | none => some none
      | some position =>
          if NoKey rest then
            (indicesBySlices (String.ofList rest)).map (·.map (.index position :: ·))
          else some none := by
  have before : ']' ∉ '[' :: inside := by simpa using noBracket
  have close := Text.offset?_append before rest
  have insideCut := Text.slice?_ofList ['['] inside (']' :: rest)
  have restCut := Text.slice?_ofList ('[' :: inside ++ [']']) rest []
  have further : (String.ofList ('[' :: inside ++ [']'])).utf8ByteSize =
      (String.ofList ('[' :: inside)).utf8ByteSize + 1 := by
    rw [String.ofList_append, String.utf8ByteSize_append]
    rfl
  rw [further] at restCut
  rw [show (String.ofList ['[']).utf8ByteSize = 1 from rfl] at insideCut
  simp only [List.cons_append, List.nil_append, List.append_assoc, List.append_nil]
    at close insideCut restCut
  rw [indicesBySlices, if_neg (by simp), close]
  simp only [insideCut, Option.bind_eq_bind, Option.bind_some, String.toList_ofList]
  cases Text.natural? inside with
  | none => rfl
  | some position =>
      simp only
      split
      · next cut =>
        rw [restCut] at cut
        cases cut
      · next behind cut =>
        rw [restCut] at cut
        cases cut
        by_cases next : NoKey rest
        · rw [if_pos next, if_neg (noKey_iff.mp next)]
        · rw [if_neg next, if_pos (Decidable.not_not.mp (mt noKey_iff.mpr next))]

/-- Behind a key, and behind a closed bracket that is not the last, there is an opening bracket. -/
theorem indicesBySlices_eq {cs : List Char} (opening : NoKey cs) :
    indicesBySlices (String.ofList cs) = some (indices? none cs) := by
  obtain rfl | ⟨ds, rfl⟩ := opening
  · rw [indicesBySlices]
    rfl
  · by_cases closed : ']' ∈ ds
    · obtain ⟨inside, rest, rfl, noBracket⟩ := List.eq_append_cons_of_mem closed
      rw [indicesBySlices_opening noBracket, indices?_opening noBracket]
      cases Text.natural? inside with
      | none => rfl
      | some position =>
          by_cases next : NoKey rest
          · simp only [if_pos next, indicesBySlices_eq next]
            rfl
          · simp only [if_neg next, indices?_of_not_noKey next]
            rfl
    · have nowhere : ']' ∉ '[' :: ds := by simpa using closed
      rw [indicesBySlices, if_neg (by simp), Text.offset?_of_not_mem nowhere, indices?]
      simp only [if_true, indices?_unclosed closed]
termination_by cs.length
decreasing_by
  subst_vars
  simp only [List.length_append, List.length_cons]
  omega

theorem splitBySlices_eq {key rest : List Char} (noOpening : '[' ∉ key) (opening : NoKey rest) :
    splitBySlices (String.ofList (key ++ rest)) = some (String.ofList key, String.ofList rest) := by
  rcases opening with rfl | ⟨ds, rfl⟩
  · rw [List.append_nil, splitBySlices, Text.offset?_of_not_mem noOpening]
  · have keyCut := Text.slice?_ofList [] key ('[' :: ds)
    have restCut := Text.slice?_ofList key ('[' :: ds) []
    simp only [List.nil_append, List.append_nil] at keyCut restCut
    rw [show (String.ofList []).utf8ByteSize = 0 from rfl] at keyCut
    rw [splitBySlices, Text.offset?_append noOpening]
    simp only [keyCut, restCut, Option.bind_eq_bind, Option.bind_some]
    rfl

theorem partBySlices_eq (cs : List Char) : partBySlices (String.ofList cs) = some (part cs) := by
  obtain ⟨key, rest, rfl, noOpening, opening⟩ := exists_key cs
  rw [partBySlices, splitBySlices_eq noOpening opening, part_append noOpening opening]
  simp only [Option.bind_eq_bind, Option.bind_some, indicesBySlices_eq opening,
    String.toList_ofList, String.ofList_eq_empty_iff]
  split
  · rfl
  · split
    · rfl
    · cases indices? none rest <;> rfl

theorem partsBySlices_eq (list : List (List Char)) :
    partsBySlices (list.map String.ofList) = some (parts list) := by
  induction list with
  | nil => rfl
  | cons first rest ih =>
      rw [List.map_cons, partsBySlices, partBySlices_eq, parts]
      cases part first with
      | error fault => rfl
      | ok segments =>
          simp only [Option.bind_eq_bind, Option.bind_some, ih]
          cases parts rest <;> rfl

/-- No cut fails, and the steps are those that are read character by character. -/
theorem parseBySlices_eq (raw : String) :
    parseBySlices raw = some ((parse raw).map segments) := by
  by_cases empty : raw = ""
  · subst empty
    rfl
  · rw [parseBySlices, if_neg empty, Text.split, partsBySlices_eq, map_segments_parse empty]
    rfl

/-! ## The texts of paths -/

/-- A text is read as a path if and only if it is written as one, and its steps are those that are
    written. Otherwise its first bad part decides: it lacks a key in front of its first opening
    bracket, or its brackets are malformed. When it is read by byte positions, no cut fails. -/
theorem parse_follows_grammar (raw : String) :
    ((∃ p, parse raw = .ok p) ↔ ∃ segments, Written raw.toList segments) ∧
    (∀ p, parse raw = .ok p ↔ Written raw.toList p.segments) ∧
    (∀ cause, parse raw = .error cause ↔
      raw = "" ∧ cause = .empty ∨
      raw ≠ "" ∧ ∃ bad, FirstBad raw.toList bad ∧
        (NoKey bad ∧ cause = .emptySegment raw ∨ ¬ NoKey bad ∧ cause = .badIndex raw)) ∧
    parseBySlices raw = some ((parse raw).map segments) := by
  refine ⟨⟨?_, ?_⟩, fun p => parse_eq_ok, fun cause => parse_eq_error, parseBySlices_eq raw⟩
  · rintro ⟨p, read⟩
    exact ⟨p.segments, parse_eq_ok.mp read⟩
  · rintro ⟨segments, written⟩
    obtain ⟨p, rfl⟩ := written.exists_path
    exact ⟨p, parse_eq_ok.mpr written⟩

/-- A closing bracket alone is a part without text in front of its first bracket of either kind. It
    is refused for its brackets, and not for want of a key. -/
theorem closing_bracket_alone :
    FirstBad "]".toList [']'] ∧
    [']'].takeWhile (fun c => c ≠ '[' ∧ c ≠ ']') = [] ∧
    parse "]" = .error (.badIndex "]") ∧ parse "]" ≠ .error (.emptySegment "]") := by
  have noDot : '.' ∉ [']'] := by decide
  have refused : part [']'] = .error .badBrackets := rfl
  have read : parse "]" = .error (.badIndex "]") := rfl
  have notPart := ((part_eq_error noDot).mp refused).1
  refine ⟨⟨[], [], rfl, ?_, nofun, notPart⟩, rfl, read, fun other => ?_⟩
  · rw [List.nil_append, List.forall_mem_singleton]
    exact noDot
  · rw [read] at other
    cases other

end Path

end GatedForms

import GatedForms.Messages
import GatedForms.Proofs.Paths
import GatedForms.Proofs.Paths.Grammar

/-! # Paths as text

The text of a path can be read back, provided that its keys hold no character that is special in
paths and its indices fit 64 bits. Every path that was read is such a path, and so is every path put
together from such paths. Different paths have different texts, whatever their indices. A text that
was read is the text of its path if its indices are written as they are printed.
-/

namespace GatedForms

namespace Path

def Plain (p : Path) : Prop := ∀ s ∈ p.segments, s.Plain

/-- The text of the path can be read back. -/
def Printable (p : Path) : Prop := ∀ s ∈ p.segments, s.Printable

theorem Printable.plain {p : Path} (printable : p.Printable) : p.Plain :=
  fun s member => (printable s member).plain

/-! ## Different texts -/

theorem takeWhile_flatMap_segmentChars (below : List Segment) :
    (below.flatMap segmentChars).takeWhile (fun c => c ≠ '.' ∧ c ≠ '[') = [] := by
  cases below with
  | nil => rfl
  | cons s rest => cases s <;> simp [segmentChars]

theorem key_of_append {name : String} (plain : (Segment.key name).Plain) (below : List Segment) :
    (name.toList ++ below.flatMap segmentChars).takeWhile (fun c => c ≠ '.' ∧ c ≠ '[') =
      name.toList := by
  rw [List.takeWhile_append_of_pos, takeWhile_flatMap_segmentChars, List.append_nil]
  intro c member
  simpa using ⟨(plain.2 c member).1, (plain.2 c member).2.1⟩

theorem key_append_inj {name other : String} {below further : List Segment}
    (plain : (Segment.key name).Plain) (otherPlain : (Segment.key other).Plain)
    (same : name.toList ++ below.flatMap segmentChars =
      other.toList ++ further.flatMap segmentChars) :
    name = other ∧ below.flatMap segmentChars = further.flatMap segmentChars := by
  have keys : name.toList = other.toList := by
    rw [← key_of_append plain below, same, key_of_append otherPlain]
  rw [keys] at same
  exact ⟨String.toList_injective keys, List.append_cancel_left same⟩

theorem flatMap_segmentChars_inj {below further : List Segment} (plain : ∀ s ∈ below, s.Plain)
    (otherPlain : ∀ s ∈ further, s.Plain)
    (same : below.flatMap segmentChars = further.flatMap segmentChars) : below = further := by
  induction below generalizing further with
  | nil =>
      cases further with
      | nil => rfl
      | cons s rest => cases s <;> simp [segmentChars] at same
  | cons s rest ih =>
      cases further with
      | nil => cases s <;> simp [segmentChars] at same
      | cons t others =>
          obtain ⟨sPlain, restPlain⟩ := List.forall_mem_cons.mp plain
          obtain ⟨tPlain, othersPlain⟩ := List.forall_mem_cons.mp otherPlain
          rw [List.flatMap_cons, List.flatMap_cons] at same
          cases s with
          | key name =>
              cases t with
              | key other =>
                  obtain ⟨rfl, rests⟩ := key_append_inj sPlain tPlain (List.cons.inj same).2
                  rw [ih restPlain othersPlain rests]
              | index position => exact absurd (List.cons.inj same).1 (by decide)
          | index position =>
              cases t with
              | key other => exact absurd (List.cons.inj same).1 (by decide)
              | index other =>
                  simp only [segmentChars, List.cons_append, List.append_assoc,
                    List.nil_append] at same
                  obtain ⟨rfl, rests⟩ := Text.toDigits_append_inj rfl (List.cons.inj same).2
                  rw [ih restPlain othersPlain rests]

theorem display_injective {p q : Path} (plain : p.Plain) (otherPlain : q.Plain)
    (same : p.display = q.display) : p = q := by
  obtain ⟨rootPlain, belowPlain⟩ := List.forall_mem_cons.mp plain
  obtain ⟨otherRootPlain, otherBelowPlain⟩ := List.forall_mem_cons.mp otherPlain
  obtain ⟨root, below⟩ := p
  obtain ⟨otherRoot, otherBelow⟩ := q
  obtain ⟨rfl, rests⟩ := key_append_inj rootPlain otherRootPlain (String.ofList_injective same)
  have belowSame : below = otherBelow := flatMap_segmentChars_inj belowPlain otherBelowPlain rests
  rw [belowSame]

/-! ## Reading a text back -/

theorem brackets_index {position : Nat} (fits : position < Text.naturalBound) :
    Brackets (segmentChars (.index position)) [.index position] :=
  .more (.unsigned (Text.digits_toDigits position) fits) .none

theorem Part.index {cs : List Char} {segments : List Segment} (part : Part cs segments)
    {position : Nat} (fits : position < Text.naturalBound) :
    Part (cs ++ segmentChars (.index position)) (segments ++ [.index position]) := by
  cases part with
  | mk plain behind =>
      rw [List.append_assoc]
      exact .mk plain (behind.append (brackets_index fits))

theorem part_key {name : String} (plain : (Segment.key name).Plain) :
    Part name.toList [.key name] := by
  have alone := Part.mk plain .none
  rwa [List.append_nil] at alone

theorem written_segmentChars {cs : List Char} {segments below : List Segment}
    (part : Part cs segments) (printable : ∀ s ∈ below, s.Printable) :
    Written (cs ++ below.flatMap segmentChars) (segments ++ below) := by
  -- Indices belong to the part of the key before them, so they pile up until the next key.
  induction below generalizing cs segments with
  | nil =>
      rw [List.flatMap_nil, List.append_nil, List.append_nil]
      exact .last part
  | cons s rest ih =>
      obtain ⟨first, restPrintable⟩ := List.forall_mem_cons.mp printable
      rw [List.flatMap_cons]
      cases s with
      | key next => exact .more part (ih (part_key first) restPrintable)
      | index position =>
          rw [← List.append_assoc, List.append_cons]
          exact ih (part.index first) restPrintable

/-- The text of a path is read as this path. -/
theorem parse_display {p : Path} (printable : p.Printable) : parse p.display = .ok p := by
  obtain ⟨rootPlain, belowPrintable⟩ := List.forall_mem_cons.mp printable
  rw [parse_eq_ok, display, String.toList_ofList]
  exact written_segmentChars (part_key rootPlain) belowPrintable

/-! ## Paths that were read -/

theorem printable_of_parse {raw : String} {p : Path} (read : parse raw = .ok p) : p.Printable :=
  (parse_eq_ok.mp read).printable

theorem Printable.index {p : Path} (printable : p.Printable) {position : Nat}
    (fits : position < Text.naturalBound) : (p.index position).Printable := by
  rw [Printable, segments_index]
  exact List.forall_mem_append.mpr ⟨printable, List.forall_mem_singleton.mpr fits⟩

theorem Printable.join {p q : Path} (printable : p.Printable) (otherPrintable : q.Printable) :
    (p.join q).Printable := by
  rw [Printable, segments_join]
  exact List.forall_mem_append.mpr ⟨printable, otherPrintable⟩

theorem Plain.repetition {p q : Path} (plain : p.Plain) (otherPlain : q.Plain) (position : Nat) :
    ((p.index position).join q).Plain := by
  rw [Plain, segments_repetition]
  exact List.forall_mem_append.mpr ⟨plain, List.forall_mem_cons.mpr ⟨trivial, otherPlain⟩⟩

/-! ## Indices as they are printed -/

/-- Everything between brackets is written without a sign and without zeros in front. -/
def IndicesAsPrinted (cs : List Char) : Prop :=
  ∀ before inside behind, cs = before ++ '[' :: (inside ++ ']' :: behind) → ']' ∉ inside →
    inside.head? ≠ some '+' ∧ Text.NoLeadingZero inside

theorem IndicesAsPrinted.of_infix {cs ds : List Char} (asPrinted : IndicesAsPrinted cs)
    (within : ds <:+: cs) : IndicesAsPrinted ds := by
  obtain ⟨front, back, rfl⟩ := within
  rintro before inside behind rfl
  exact asPrinted (front ++ before) inside (behind ++ back) (by simp)

theorem eq_toDigits_of_natural {inside : List Char} {position : Nat}
    (index : Text.Natural inside position) (noSign : inside.head? ≠ some '+')
    (noZero : Text.NoLeadingZero inside) : inside = Nat.toDigits 10 position := by
  cases index with
  | unsigned digits => exact digits.eq_toDigits noZero
  | plus digits => exact absurd rfl noSign

theorem Brackets.eq_flatMap {cs : List Char} {segments : List Segment}
    (brackets : Brackets cs segments) (asPrinted : IndicesAsPrinted cs) :
    cs = segments.flatMap segmentChars := by
  induction brackets with
  | none => rfl
  | @more inside rest position others index behind ih =>
      obtain ⟨noSign, noZero⟩ :=
        asPrinted [] inside rest rfl (index.not_mem rfl (by decide))
      have restAsPrinted : IndicesAsPrinted rest :=
        asPrinted.of_infix ⟨'[' :: (inside ++ [']']), [], by simp⟩
      rw [List.flatMap_cons, ← ih restAsPrinted, eq_toDigits_of_natural index noSign noZero]
      simp [segmentChars]

theorem Part.eq_flatMap {cs : List Char} {segments : List Segment} (part : Part cs segments)
    (asPrinted : IndicesAsPrinted cs) : '.' :: cs = segments.flatMap segmentChars := by
  cases part with
  | mk plain behind =>
      have behindAsPrinted := asPrinted.of_infix (List.suffix_append _ _).isInfix
      rw [List.flatMap_cons, ← behind.eq_flatMap behindAsPrinted]
      rfl

theorem Written.eq_flatMap {cs : List Char} {segments : List Segment}
    (written : Written cs segments) (asPrinted : IndicesAsPrinted cs) :
    '.' :: cs = segments.flatMap segmentChars := by
  induction written with
  | last part => exact part.eq_flatMap asPrinted
  | @more first rest segments others part behind ih =>
      have firstAsPrinted := asPrinted.of_infix (List.prefix_append first ('.' :: rest)).isInfix
      have restAsPrinted : IndicesAsPrinted rest :=
        asPrinted.of_infix ⟨first ++ ['.'], [], by simp⟩
      rw [List.flatMap_append, ← part.eq_flatMap firstAsPrinted, ← ih restAsPrinted]
      rfl

theorem exists_append_of_not_mem {α : Type} {front rest before behind : List α} {c : α}
    (same : front ++ rest = before ++ c :: behind) (notInFront : c ∉ front) :
    ∃ middle, rest = middle ++ c :: behind := by
  rcases List.append_eq_append_iff.mp same with ⟨middle, -, later⟩ | ⟨middle, inFront, later⟩
  · exact ⟨middle, later⟩
  · cases middle with
    | nil => exact ⟨[], later.symm⟩
    | cons d middle =>
        obtain ⟨rfl, -⟩ := List.cons.inj later
        exact absurd (inFront ▸ List.mem_append_right before List.mem_cons_self) notInFront

theorem inside_of_flatMap {steps : List Segment} (plain : ∀ s ∈ steps, s.Plain)
    {before inside behind : List Char} (noBracket : ']' ∉ inside)
    (same : steps.flatMap segmentChars = before ++ '[' :: (inside ++ ']' :: behind)) :
    ∃ position, inside = Nat.toDigits 10 position := by
  induction steps generalizing before with
  | nil => simp at same
  | cons s rest ih =>
      obtain ⟨first, restPlain⟩ := List.forall_mem_cons.mp plain
      rw [List.flatMap_cons] at same
      cases s with
      | key name =>
          have noOpening : '[' ∉ segmentChars (.key name) := by
            rw [segmentChars, List.mem_cons, not_or]
            exact ⟨by decide, fun member => (first.2 '[' member).2.1 rfl⟩
          obtain ⟨middle, later⟩ := exists_append_of_not_mem same noOpening
          exact ih restPlain later
      | index position =>
          simp only [segmentChars, List.cons_append] at same
          cases before with
          | nil =>
              have ends := (List.cons.inj same).2
              rw [List.append_assoc, List.singleton_append] at ends
              obtain ⟨sameDigits, -⟩ := Text.append_inj_of_not_mem
                (Text.not_mem_toDigits rfl position) noBracket ends
              exact ⟨position, sameDigits.symm⟩
          | cons c before =>
              have noOpening : '[' ∉ Nat.toDigits 10 position ++ [']'] := by
                rw [List.mem_append, not_or]
                exact ⟨Text.not_mem_toDigits rfl position, by decide⟩
              obtain ⟨middle, later⟩ :=
                exists_append_of_not_mem (List.cons.inj same).2 noOpening
              exact ih restPlain later

theorem flatMap_segments (p : Path) : p.segments.flatMap segmentChars = '.' :: p.toChars := rfl

theorem indicesAsPrinted_toChars {p : Path} (plain : p.Plain) : IndicesAsPrinted p.toChars := by
  intro before inside behind same noBracket
  have whole : p.segments.flatMap segmentChars =
      ('.' :: before) ++ '[' :: (inside ++ ']' :: behind) := by
    rw [flatMap_segments, same, List.cons_append]
  obtain ⟨position, rfl⟩ := inside_of_flatMap plain noBracket whole
  refine ⟨fun sign => ?_, Text.noLeadingZero_toDigits position⟩
  exact Text.not_mem_toDigits rfl position (List.mem_of_head? sign)

/-- A text that was read is the text of its path if its indices are written as they are printed. -/
theorem display_eq_iff {raw : String} {p : Path} (read : parse raw = .ok p) :
    p.display = raw ↔ IndicesAsPrinted raw.toList := by
  constructor
  · rintro rfl
    rw [display, String.toList_ofList]
    exact indicesAsPrinted_toChars (printable_of_parse read).plain
  · intro asPrinted
    have text := (parse_eq_ok.mp read).eq_flatMap asPrinted
    rw [flatMap_segments] at text
    rw [display, ← (List.cons.inj text).2, String.ofList_toList]

/-! ## Names that were read -/

theorem Part.not_mem_opening {cs : List Char} {segments : List Segment} (part : Part cs segments)
    (keyOnly : ∀ s ∈ segments, isIndex s = false) : '[' ∉ cs := by
  cases part with
  | mk plain behind =>
      cases behind with
      | none =>
          rw [List.append_nil]
          exact fun member => (plain.2 '[' member).2.1 rfl
      | more index behind =>
          have isKey := keyOnly _ (List.mem_cons_of_mem _ List.mem_cons_self)
          cases isKey

theorem Written.not_mem_opening {cs : List Char} {segments : List Segment}
    (written : Written cs segments) (keyOnly : ∀ s ∈ segments, isIndex s = false) : '[' ∉ cs := by
  induction written with
  | last part => exact part.not_mem_opening keyOnly
  | more part behind ih =>
      obtain ⟨firstKeys, othersKeys⟩ := List.forall_mem_append.mp keyOnly
      rw [List.mem_append, List.mem_cons, not_or, not_or]
      exact ⟨part.not_mem_opening firstKeys, by decide, ih othersKeys⟩

theorem parse_of_parseName {raw : String} {p : Path} (read : parseName raw = .ok p) :
    parse raw = .ok p ∧ p.isKeyOnly = true := by
  obtain ⟨path, pathRead, read⟩ := ok_of_bind read
  obtain ⟨_, checked, read⟩ := ok_of_bind read
  cases read
  refine ⟨pathRead, ?_⟩
  unfold checkKeyOnly at checked
  split at checked
  · assumption
  · cases checked

theorem display_of_parseName {raw : String} {p : Path} (read : parseName raw = .ok p) :
    p.display = raw := by
  obtain ⟨pathRead, keyOnly⟩ := parse_of_parseName read
  have noBrackets := (parse_eq_ok.mp pathRead).not_mem_opening fun s => isIndex_eq_false keyOnly
  rw [display_eq_iff pathRead]
  intro before inside behind same
  rw [same] at noBrackets
  exact absurd (List.mem_append_right before List.mem_cons_self) noBrackets

theorem eq_of_parseName {p q : Path} (printable : p.Printable)
    (read : parseName p.display = .ok q) : q = p := by
  have again := (parse_display printable).symm.trans (parse_of_parseName read).1
  exact (Except.ok.inj again).symm

theorem parseName_display {p : Path} (printable : p.Printable) (keyOnly : p.isKeyOnly = true) :
    parseName p.display = .ok p := by
  rw [parseName, parse_display printable, ok_bind, checkKeyOnly, if_pos keyOnly]
  rfl

/-! ## Paths that are put together -/

/-- The paths that texts are read as, and those that lead on from them. -/
inductive Obtained : Path → Prop where
  | parsed {raw : String} {p : Path} (read : parse raw = .ok p) : Obtained p
  | index {p : Path} {position : Nat} (obtained : Obtained p)
      (fits : position < Text.naturalBound) : Obtained (p.index position)
  | join {p q : Path} (obtained : Obtained p) (behind : Obtained q) : Obtained (p.join q)

theorem Obtained.printable {p : Path} (obtained : p.Obtained) : p.Printable := by
  induction obtained with
  | parsed read => exact printable_of_parse read
  | index _ fits ih => exact ih.index fits
  | join _ _ ih behindIh => exact ih.join behindIh

theorem Printable.obtained {p : Path} (printable : p.Printable) : p.Obtained :=
  .parsed (parse_display printable)

/-- Paths are printed one to one. The text of a path is read as this path, and different paths have
    different texts, so that a message about the one is no message about the other. The text of a
    joined path is read as the steps of the first path and those of the second behind them. A text
    that was read is printed again as long as its indices are written as they are printed. -/
theorem printed_and_read_back :
    (∀ p : Path, p.Obtained → parse p.display = .ok p) ∧
    (∀ p q : Path, p.Obtained → q.Obtained → p ≠ q → p.display ≠ q.display ∧
      ∀ (messages : Messages) (text : String),
        (messages.insert p.display text).get? q.display = messages.get? q.display) ∧
    (∀ p q : Path, p.Obtained → q.Obtained →
      ∃ r, parse (p.join q).display = .ok r ∧ r.segments = p.segments ++ q.segments) ∧
    ∀ (raw : String) (p : Path), parse raw = .ok p →
      (p.display = raw ↔ IndicesAsPrinted raw.toList) := by
  have differ (p q : Path) (obtained : p.Obtained) (other : q.Obtained) (different : p ≠ q) :
      p.display ≠ q.display := fun same =>
    different (display_injective obtained.printable.plain other.printable.plain same)
  refine ⟨fun p obtained => parse_display obtained.printable,
    fun p q obtained other different => ?_, fun p q obtained behind => ?_,
    fun raw p read => display_eq_iff read⟩
  · have apart := differ p q obtained other different
    exact ⟨apart, fun messages text => KeyMap.find?_insert_ne text messages.fields apart⟩
  · exact ⟨p.join q, parse_display (obtained.join behind).printable, segments_join p q⟩

/-- Elements of a list, a member of one, and an index that is not written as it is printed. -/
theorem steps_printed_and_read_back :
    parse (index ⟨"steps", []⟩ 2).display = .ok ⟨"steps", [.index 2]⟩ ∧
    (index ⟨"steps", []⟩ 2).display ≠ (index ⟨"steps", []⟩ 3).display ∧
    (∃ r, parse (join ⟨"steps", [.index 2]⟩ ⟨"gap", []⟩).display = .ok r ∧
      r.segments = [.key "steps", .index 2, .key "gap"]) ∧
    parse "steps[+02].gap" = .ok ⟨"steps", [.index 2, .key "gap"]⟩ ∧
    ¬ IndicesAsPrinted "steps[+02].gap".toList := by
  have steps : Obtained ⟨"steps", []⟩ := .parsed (show parse "steps" = _ from rfl)
  have gap : Obtained ⟨"gap", []⟩ := .parsed (show parse "gap" = _ from rfl)
  have third : Obtained (index ⟨"steps", []⟩ 2) := steps.index (by decide)
  have fourth : Obtained (index ⟨"steps", []⟩ 3) := steps.index (by decide)
  have signed : parse "steps[+02].gap" = .ok ⟨"steps", [.index 2, .key "gap"]⟩ := rfl
  obtain ⟨readBack, differ, joined, asPrinted⟩ := printed_and_read_back
  refine ⟨readBack _ third, (differ _ _ third fourth (by decide)).1, joined _ _ third gap, signed,
    fun writtenSo => ?_⟩
  have same := (asPrinted _ _ signed).mpr writtenSo
  revert same
  decide

end Path

end GatedForms

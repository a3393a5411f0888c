import GatedForms.Proofs.Places
import GatedForms.Rules

/-! # Located fields

Fields are in document order by the positions that lead to them: a radio stands before what its
options reveal, and that before the next field. A name is located at the first field that has it.
-/

namespace GatedForms

/-! ## Document order -/

/-- Positions are ordered by the first that differ, and come before those that lead on from them. -/
abbrev Positions.Before : List Nat → List Nat → Prop := List.Lex (· < ·)

theorem Positions.before_trichotomy (p q : List Nat) : Before p q ∨ p = q ∨ Before q p := by
  induction p generalizing q with
  | nil =>
      cases q with
      | nil => exact .inr (.inl rfl)
      | cons b q => exact .inl .nil
  | cons a p ih =>
      cases q with
      | nil => exact .inr (.inr .nil)
      | cons b q =>
          rcases Nat.lt_trichotomy a b with less | rfl | more
          · exact .inl (.rel less)
          · rcases ih q with before | rfl | behind
            · exact .inl (.cons before)
            · exact .inr (.inl rfl)
            · exact .inr (.inr (.cons behind))
          · exact .inr (.inr (.rel more))

namespace Field

theorem exists_name_of_hasName {f : Field} {text : String} (named : f.hasName text = true) :
    ∃ name, f.name = some name ∧ name.display = text := by
  unfold hasName at named
  cases isName : f.name with
  | none => simp [isName] at named
  | some name => exact ⟨name, rfl, by simpa [isName] using named⟩

def Nowhere (reach : List Nat → Option Field) (name : String) : Prop :=
  ∀ positions f, reach positions = some f → f.hasName name = false

/-- The positions lead to the first field of the name. -/
structure FirstAt (reach : List Nat → Option Field) (name : String) (positions : List Nat)
    (f : Field) : Prop where
  reached : reach positions = some f
  named : f.hasName name = true
  first : ∀ earlier g, Positions.Before earlier positions → reach earlier = some g →
    g.hasName name = false

/-- What a search finds is the first field of the name; where it finds none, there is none. -/
inductive Finds (reach : List Nat → Option Field) (name : String) : Option Field → Prop where
  | nothing (nowhere : Nowhere reach name) : Finds reach name none
  | first {positions : List Nat} {f : Field} (firstAt : FirstAt reach name positions f) :
      Finds reach name (some f)

/-- What is reached from an element of a list, by its position and those that lead on from it. -/
def reachInside {α : Type} (reach : α → List Nat → Option Field) (list : List α) :
    List Nat → Option Field
  | [] => none
  | position :: rest => list[position]?.bind fun a => reach a rest

variable {α : Type} {reach : α → List Nat → Option Field} {name : String} {a : α} {list : List α}

theorem nowhere_none : Nowhere (fun _ => none) name := by
  intro positions f reached
  cases reached

theorem Nowhere.cons (here : Nowhere (reach a) name)
    (behind : Nowhere (reachInside reach list) name) :
    Nowhere (reachInside reach (a :: list)) name := by
  intro positions f reached
  match positions with
  | [] => cases reached
  | 0 :: rest => exact here rest f reached
  | (position + 1) :: rest => exact behind (position :: rest) f reached

theorem FirstAt.here {rest : List Nat} {f : Field} (firstAt : FirstAt (reach a) name rest f) :
    FirstAt (reachInside reach (a :: list)) name (0 :: rest) f where
  reached := firstAt.reached
  named := firstAt.named
  first := by
    intro earlier g before reached
    cases before with
    | nil => cases reached
    | rel less => exact absurd less (Nat.not_lt_zero _)
    | cons before => exact firstAt.first _ g before reached

theorem FirstAt.behind {position : Nat} {rest : List Nat} {f : Field}
    (notHere : Nowhere (reach a) name)
    (firstAt : FirstAt (reachInside reach list) name (position :: rest) f) :
    FirstAt (reachInside reach (a :: list)) name ((position + 1) :: rest) f where
  reached := firstAt.reached
  named := firstAt.named
  first := by
    intro earlier g before reached
    match earlier with
    | [] => cases reached
    | 0 :: others => exact notHere others g reached
    | (other + 1) :: others =>
        refine firstAt.first (other :: others) g ?_ reached
        cases before with
        | rel less => exact .rel (Nat.lt_of_succ_lt_succ less)
        | cons before => exact .cons before

/-- A search that goes through a list. -/
theorem finds_findSome? {find : α → Option Field}
    (each : ∀ a ∈ list, Finds (reach a) name (find a)) :
    Finds (reachInside reach list) name (list.findSome? find) := by
  induction list with
  | nil =>
      refine .nothing fun positions f reached => ?_
      cases positions <;> cases reached
  | cons a rest ih =>
      obtain ⟨here, behind⟩ := List.forall_mem_cons.mp each
      have others := ih behind
      rw [List.findSome?_cons]
      generalize find a = found at here
      generalize rest.findSome? find = foundBehind at others
      cases here with
      | first firstAt => exact .first firstAt.here
      | nothing notHere =>
          cases others with
          | nothing notBehind => exact .nothing (notHere.cons notBehind)
          | @first positions f firstAt =>
              cases positions with
              | nil => cases firstAt.reached
              | cons position others => exact .first (firstAt.behind notHere)

/-! ## Fields in fields -/

theorem findRevealed?_eq_findSome? (name : String) (options : List FieldOption) :
    FieldOption.findRevealed? name options =
      options.findSome? fun option => option.reveals.bind (Field.find? name) := by
  induction options with
  | nil => rfl
  | cons option rest ih =>
      obtain ⟨label, value, reveals⟩ := option
      rw [List.findSome?_cons]
      cases reveals with
      | none => exact ih
      | some f =>
          rw [FieldOption.findRevealed?, ih, Option.bind_some]
          cases f.find? name <;> rfl

theorem Finds.below {reach inner : List Nat → Option Field} {f : Field} {found : Option Field}
    (itself : reach [] = some f) (unnamed : f.hasName name = false)
    (further : ∀ position rest, reach (position :: rest) = inner (position :: rest))
    (nothingElse : inner [] = none) (finds : Finds inner name found) : Finds reach name found := by
  cases finds with
  | nothing nowhere =>
      refine .nothing fun positions g reached => ?_
      cases positions with
      | nil =>
          cases itself.symm.trans reached
          exact unnamed
      | cons position rest => exact nowhere _ g ((further position rest).symm.trans reached)
  | @first positions g firstAt =>
      cases positions with
      | nil => cases nothingElse.symm.trans firstAt.reached
      | cons position rest =>
          refine .first ⟨(further position rest).trans firstAt.reached, firstAt.named, ?_⟩
          intro earlier h before reached
          cases earlier with
          | nil =>
              cases itself.symm.trans reached
              exact unnamed
          | cons other others =>
              exact firstAt.first _ h before ((further other others).symm.trans reached)

/-- The search of a field goes through it and all fields that its options reveal. -/
theorem finds_find? (name : String) (f : Field) :
    Finds (fun positions => f.revealed? positions) name (f.find? name) := by
  cases f with
  | mk own label tooltip adminOnly kind =>
      simp only [find?]
      split
      · next named =>
        have itself : FirstAt (fun positions => revealed? positions _) name [] _ :=
          ⟨rfl, named, fun _ _ before => absurd before List.not_lex_nil⟩
        exact .first itself
      · next unnamed =>
        have unnamed := Bool.eq_false_iff.mpr unnamed
        cases kind with
        | radio options =>
            have inOptions : Finds (reachInside (fun (option : FieldOption) positions =>
                option.reveals.bind (revealed? positions)) options) name
                (FieldOption.findRevealed? name options) := by
              rw [findRevealed?_eq_findSome?]
              refine finds_findSome? fun option member => ?_
              cases reveals : option.reveals with
              | none => exact .nothing nowhere_none
              | some inner => exact finds_find? name inner
            refine inOptions.below rfl unnamed (fun position rest => ?_) rfl
            simp only [revealed?, reachInside, Option.bind_assoc]
        | text | checkbox | toggle | dynamic | button | static =>
            have nothingElse : Finds (fun _ => none) name none := .nothing nowhere_none
            exact nothingElse.below rfl unnamed (fun _ _ => rfl) rfl
termination_by sizeOf f
decreasing_by
  have inOptions := List.sizeOf_lt_of_mem member
  obtain ⟨_, _, _⟩ := option
  cases reveals
  simp only [FieldOption.mk.sizeOf_spec, Option.some.sizeOf_spec, Field.mk.sizeOf_spec,
    FieldKind.radio.sizeOf_spec] at inOptions ⊢
  omega

end Field

/-! ## Fields of a schema -/

def FieldPlace.positions (place : FieldPlace) : List Nat :=
  place.sectionIndex :: place.fieldIndex :: place.descent.options

theorem FieldPlace.eq_of_positions {place other : FieldPlace}
    (isDirect : place.descent.nested = none) (otherDirect : other.descent.nested = none)
    (same : place.positions = other.positions) : place = other := by
  obtain ⟨sectionIndex, fieldIndex, options, nested⟩ := place
  obtain ⟨otherSection, otherField, otherOptions, otherNested⟩ := other
  cases isDirect
  cases otherDirect
  cases same
  rfl

namespace Schema

variable {s : Schema} {name : String} {place other : FieldPlace} {f g : Field}

/-- The field at a place is the first of the name in document order, fields of templates aside. -/
structure IsFirst (s : Schema) (name : String) (place : FieldPlace) (f : Field) : Prop where
  isDirect : place.descent.nested = none
  found : s.at? place = some f
  named : f.hasName name = true
  first : ∀ earlier g, earlier.descent.nested = none → s.at? earlier = some g →
    Positions.Before earlier.positions place.positions → g.hasName name = false

theorem IsFirst.unique (first : s.IsFirst name place f) (alsoFirst : s.IsFirst name other g) :
    place = other ∧ f = g := by
  have same : place.positions = other.positions := by
    rcases Positions.before_trichotomy place.positions other.positions with
      before | same | behind
    · have unnamed := alsoFirst.first place f first.isDirect first.found before
      rw [first.named] at unnamed
      cases unnamed
    · exact same
    · have unnamed := first.first other g alsoFirst.isDirect alsoFirst.found behind
      rw [alsoFirst.named] at unnamed
      cases unnamed
  obtain rfl := FieldPlace.eq_of_positions first.isDirect alsoFirst.isDirect same
  exact ⟨rfl, Option.some.inj (first.found.symm.trans alsoFirst.found)⟩

/-- The fields of a section, by their positions. -/
def reachFields (part : FormSection) : List Nat → Option Field :=
  Field.reachInside (fun f positions => f.revealed? positions) part.fields

theorem at?_eq_reach (place : FieldPlace) (isDirect : place.descent.nested = none) :
    s.at? place = Field.reachInside reachFields s.sections place.positions := by
  obtain ⟨sectionIndex, fieldIndex, options, nested⟩ := place
  cases isDirect
  rfl

theorem exists_place_of_reach {positions : List Nat}
    (reached : Field.reachInside reachFields s.sections positions = some f) :
    ∃ place : FieldPlace, place.descent.nested = none ∧ place.positions = positions := by
  match positions with
  | [] => cases reached
  | [sectionIndex] =>
      obtain ⟨part, -, reached⟩ := Option.bind_eq_some_iff.mp reached
      cases reached
  | sectionIndex :: fieldIndex :: options =>
      exact ⟨⟨sectionIndex, fieldIndex, ⟨options, none⟩⟩, rfl, rfl⟩

theorem locateFrom_finds (name : String) (index : Nat) (sections : List FormSection) :
    (locateFrom name index sections = none →
      Field.Nowhere (Field.reachInside reachFields sections) name) ∧
    ∀ i f, locateFrom name index sections = some (i, f) → ∃ position rest, i = index + position ∧
      Field.FirstAt (Field.reachInside reachFields sections) name (position :: rest) f := by
  induction sections generalizing index with
  | nil =>
      refine ⟨fun _ positions f reached => ?_, nofun⟩
      cases positions <;> cases reached
  | cons part rest ih =>
      have inPart : Field.Finds (reachFields part) name
          (part.fields.findSome? (Field.find? name)) :=
        Field.finds_findSome? fun f _ => Field.finds_find? name f
      rw [locateFrom]
      generalize part.fields.findSome? (Field.find? name) = found at inPart
      cases inPart with
      | first firstAt =>
          refine ⟨nofun, fun i f located => ?_⟩
          cases located
          exact ⟨0, _, rfl, firstAt.here⟩
      | nothing notHere =>
          obtain ⟨nowhere, somewhere⟩ := ih (index + 1)
          refine ⟨fun unlocated => notHere.cons (nowhere unlocated), fun i f located => ?_⟩
          obtain ⟨position, others, rfl, firstAt⟩ := somewhere i f located
          exact ⟨position + 1, others, by omega, firstAt.behind notHere⟩

theorem isFirst_of_firstAt {i : Nat} {rest : List Nat}
    (firstAt : Field.FirstAt (Field.reachInside reachFields s.sections) name (i :: rest) f) :
    ∃ place, place.sectionIndex = i ∧ s.IsFirst name place f := by
  obtain ⟨place, isDirect, same⟩ := exists_place_of_reach firstAt.reached
  refine ⟨place, (List.cons.inj same).1, isDirect, ?_, firstAt.named, ?_⟩
  · rw [at?_eq_reach place isDirect, same]
    exact firstAt.reached
  · intro earlier g earlierDirect found before
    rw [same] at before
    exact firstAt.first _ g before ((at?_eq_reach earlier earlierDirect).symm.trans found)

theorem isFirst_of_locate? {i : Nat} (located : s.locate? name = some (i, f)) :
    ∃ place, place.sectionIndex = i ∧ s.IsFirst name place f := by
  obtain ⟨position, rest, rfl, firstAt⟩ := (locateFrom_finds name 0 s.sections).2 i f located
  rw [Nat.zero_add]
  exact isFirst_of_firstAt firstAt

theorem locate?_eq_none : s.locate? name = none ↔
    ∀ place f, place.descent.nested = none → s.at? place = some f → f.hasName name = false := by
  constructor
  · intro unlocated place f isDirect found
    have nowhere := (locateFrom_finds name 0 s.sections).1 unlocated
    exact nowhere place.positions f ((at?_eq_reach place isDirect).symm.trans found)
  · intro nowhere
    refine Option.eq_none_iff_forall_not_mem.mpr fun ⟨i, f⟩ located => ?_
    obtain ⟨place, -, first⟩ := isFirst_of_locate? located
    have unnamed := nowhere place f first.isDirect first.found
    rw [first.named] at unnamed
    cases unnamed

/-- A name is located at the first field that has it, in the section of this field. -/
theorem locate?_eq_some_iff {i : Nat} :
    s.locate? name = some (i, f) ↔ ∃ place, place.sectionIndex = i ∧ s.IsFirst name place f := by
  refine ⟨isFirst_of_locate?, ?_⟩
  rintro ⟨place, rfl, first⟩
  cases located : s.locate? name with
  | none =>
      have unnamed := locate?_eq_none.mp located place f first.isDirect first.found
      rw [first.named] at unnamed
      cases unnamed
  | some entry =>
      obtain ⟨i, g⟩ := entry
      obtain ⟨other, rfl, alsoFirst⟩ := isFirst_of_locate? located
      obtain ⟨rfl, rfl⟩ := first.unique alsoFirst
      rfl

theorem exists_place_of_locate? {sectionIndex : Nat}
    (located : s.locate? name = some (sectionIndex, f)) :
    ∃ fieldIndex options, s.at? ⟨sectionIndex, fieldIndex, ⟨options, none⟩⟩ = some f ∧
      f.hasName name = true := by
  obtain ⟨⟨_, fieldIndex, options, nested⟩, rfl, first⟩ := isFirst_of_locate? located
  cases first.isDirect
  exact ⟨fieldIndex, options, first.found, first.named⟩

theorem exists_isFirst {place : FieldPlace} (isDirect : place.descent.nested = none)
    (found : s.at? place = some f) (named : f.hasName name = true) :
    ∃ first g, s.IsFirst name first g := by
  cases located : s.locate? name with
  | none =>
      have unnamed := locate?_eq_none.mp located place f isDirect found
      rw [named] at unnamed
      cases unnamed
  | some entry =>
      obtain ⟨first, -, isFirst⟩ := isFirst_of_locate? located
      exact ⟨first, entry.2, isFirst⟩

end Schema

end GatedForms

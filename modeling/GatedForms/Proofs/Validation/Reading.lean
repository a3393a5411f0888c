import Mathlib.Data.List.TakeWhile
import GatedForms.Proofs.Paths.Display
import GatedForms.Rules

/-! # How rules read values

A rule takes a value for blank, or for a whole number, or for neither, and refuses some of them. A
number may stand in a text, with a sign in front and blanks around it; it has to fit 64 bits.
-/

namespace GatedForms

/-! ## Texts -/

namespace Text

theorem trim_eq_nil_iff {cs : List Char} :
    trim cs = [] ↔ ∀ c ∈ cs, isBlank c = true := by
  simp only [trim, List.reverse_eq_nil_iff, List.dropWhile_eq_nil_iff, List.mem_reverse]
  constructor
  · intro blankBehind c member
    rw [← List.takeWhile_append_dropWhile (p := isBlank) (l := cs)] at member
    rcases List.mem_append.mp member with front | behind
    · exact List.mem_takeWhile_imp front
    · exact blankBehind c behind
  · exact fun blank c member => blank c ((List.dropWhile_sublist _).mem member)

/-- A text is blanks, what trimming leaves of it, and blanks. -/
theorem exists_blanks_around_trim (cs : List Char) :
    ∃ before behind, cs = before ++ trim cs ++ behind ∧
      (∀ c ∈ before, isBlank c = true) ∧ ∀ c ∈ behind, isBlank c = true := by
  let rest := cs.dropWhile isBlank
  refine ⟨cs.takeWhile isBlank, (rest.reverse.takeWhile isBlank).reverse, ?_, ?_, ?_⟩
  · have back : trim cs ++ (rest.reverse.takeWhile isBlank).reverse = rest := by
      rw [trim, ← List.reverse_append, List.takeWhile_append_dropWhile, List.reverse_reverse]
    rw [List.append_assoc, back, List.takeWhile_append_dropWhile]
  · intro c member
    exact List.mem_takeWhile_imp member
  · intro c member
    exact List.mem_takeWhile_imp (List.mem_reverse.mp member)

theorem trim_of_blanks_around {before core behind : List Char} (somewhat : core ≠ [])
    (solid : ∀ c ∈ core, isBlank c = false) (blankBefore : ∀ c ∈ before, isBlank c = true)
    (blankBehind : ∀ c ∈ behind, isBlank c = true) : trim (before ++ core ++ behind) = core := by
  have stops : ∀ cs rest : List Char, cs ≠ [] → (∀ c ∈ cs, isBlank c = false) →
      (cs ++ rest).dropWhile isBlank = cs ++ rest := by
    intro cs rest nonempty solid
    cases cs with
    | nil => exact absurd rfl nonempty
    | cons c cs => simp [solid c List.mem_cons_self]
  have front : (before ++ core ++ behind).dropWhile isBlank = core ++ behind := by
    rw [List.append_assoc, List.dropWhile_append_of_pos blankBefore,
      stops core behind somewhat solid]
  have back : (behind.reverse ++ core.reverse).dropWhile isBlank = core.reverse := by
    have reversed := stops core.reverse [] (mt List.reverse_eq_nil_iff.mp somewhat)
      fun c member => solid c (List.mem_reverse.mp member)
    rw [List.append_nil] at reversed
    rw [List.dropWhile_append_of_pos, reversed]
    intro c member
    exact blankBehind c (List.mem_reverse.mp member)
  rw [trim, front, List.reverse_append, back, List.reverse_reverse]

/-- An optional sign in front of decimal digits, and the number that they denote. -/
inductive Numeral : List Char → Int → Prop where
  | unsigned {cs : List Char} {n : Nat} (digits : Digits cs n) : Numeral cs n
  | plus {cs : List Char} {n : Nat} (digits : Digits cs n) : Numeral ('+' :: cs) n
  | minus {cs : List Char} {n : Nat} (digits : Digits cs n) : Numeral ('-' :: cs) (-(n : Int))

/-- A number is read from an optional sign and digits, and from nothing else. -/
theorem integer?_eq_some {cs : List Char} {n : Int} :
    integer? cs = some n ↔ Numeral cs n ∧ isInteger n = true := by
  unfold integer?
  simp only [Option.filter_eq_some_iff]
  apply and_congr_left
  intro _
  constructor
  · intro read
    split at read
    · obtain ⟨_, found, negated⟩ := Option.map_eq_some_iff.mp read
      obtain ⟨m, digits, cast⟩ := Option.bind_eq_some_iff.mp found
      cases cast
      cases negated
      exact .minus (digits?_eq_some.mp digits)
    · obtain ⟨_, found, same⟩ := Option.map_eq_some_iff.mp read
      obtain ⟨m, digits, cast⟩ := Option.bind_eq_some_iff.mp found
      cases cast
      cases same
      unfold dropPlus at digits
      split at digits
      · exact .plus (digits?_eq_some.mp digits)
      · exact .unsigned (digits?_eq_some.mp digits)
  · intro numeral
    cases numeral with
    | @unsigned _ m digits =>
        cases cs with
        | nil => exact absurd rfl digits.nonempty
        | cons c cs =>
            have noMinus : c ≠ '-' := digits.head_ne rfl
            have noPlus : c ≠ '+' := digits.head_ne rfl
            split
            · next same => exact absurd (List.cons.inj same).1 noMinus
            · rw [dropPlus_of_ne noPlus, digits?_eq_some.mpr digits]
              rfl
    | plus digits =>
        split
        · next same => cases same
        · rw [dropPlus, digits?_eq_some.mpr digits]
          rfl
    | minus digits =>
        simp only
        rw [digits?_eq_some.mpr digits]
        rfl

theorem isBlank_of_isDigit {c : Char} (isDigit : c.isDigit = true) : isBlank c = false := by
  rw [Char.isDigit, Bool.and_eq_true, decide_eq_true_iff, decide_eq_true_iff] at isDigit
  obtain ⟨above, below⟩ := isDigit
  have above : 48 ≤ c.toNat := above
  have below : c.toNat ≤ 57 := below
  simp only [isBlank, Bool.or_eq_false_iff, Bool.and_eq_false_iff, decide_eq_false_iff_not]
  omega

theorem Numeral.ne_nil {cs : List Char} {n : Int} (numeral : Numeral cs n) : cs ≠ [] := by
  cases numeral with
  | unsigned digits => exact digits.nonempty
  | plus | minus => exact List.cons_ne_nil _ _

theorem Numeral.not_blank {cs : List Char} {n : Int} (numeral : Numeral cs n) :
    ∀ c ∈ cs, isBlank c = false := by
  cases numeral with
  | unsigned digits =>
      intro c member
      exact isBlank_of_isDigit (digits.each c member)
  | plus digits | minus digits =>
      have rest : ∀ c ∈ _, isBlank c = false :=
        fun c member => isBlank_of_isDigit (digits.each c member)
      exact List.forall_mem_cons.mpr ⟨rfl, rest⟩

end Text

/-! ## Values -/

namespace Json

/-- Nothing is given: there is no value, or null, a text of blanks or an empty array. -/
inductive Blank : Option Json → Prop where
  | nothing : Blank none
  | null : Blank (some .null)
  | spaces {s : String} (each : ∀ c ∈ s.toList, Text.isBlank c = true) : Blank (some (.text s))
  | noItems : Blank (some (.array []))

theorem isBlank_iff {value : Option Json} : isBlank value = true ↔ Blank value := by
  constructor
  · intro blank
    match value with
    | none => exact .nothing
    | some .null => exact .null
    | some (.text s) => exact .spaces (Text.trim_eq_nil_iff.mp (List.isEmpty_iff.mp blank))
    | some (.array items) =>
        cases List.isEmpty_iff.mp blank
        exact .noItems
    | some (.bool _) | some (.int _) | some (.float _) | some (.object _) => cases blank
  · intro blank
    cases blank with
    | nothing | null | noItems => rfl
    | spaces each => exact List.isEmpty_iff.mpr (Text.trim_eq_nil_iff.mpr each)

/-- The value is a whole number of 64 bits, or a text of one with blanks around it. -/
inductive Denotes : Json → Int → Prop where
  | number {n : Int} (fits : Text.isInteger n = true) : Denotes (.int n) n
  | text {s : String} {before numeral behind : List Char} {n : Int}
      (split : s.toList = before ++ numeral ++ behind)
      (blankBefore : ∀ c ∈ before, Text.isBlank c = true)
      (blankBehind : ∀ c ∈ behind, Text.isBlank c = true) (isNumeral : Text.Numeral numeral n)
      (fits : Text.isInteger n = true) : Denotes (.text s) n

theorem toInteger?_eq_some {x : Json} {n : Int} : x.toInteger? = some n ↔ x.Denotes n := by
  constructor
  · intro read
    cases x with
    | int m =>
        obtain ⟨fits, same⟩ := Option.ite_none_right_eq_some.mp read
        cases same
        exact .number fits
    | text s =>
        obtain ⟨before, behind, split, blankBefore, blankBehind⟩ :=
          Text.exists_blanks_around_trim s.toList
        obtain ⟨isNumeral, fits⟩ := Text.integer?_eq_some.mp read
        exact .text split blankBefore blankBehind isNumeral fits
    | null | bool | float | array | object => cases read
  · intro denotes
    cases denotes with
    | number fits => exact if_pos fits
    | text split blankBefore blankBehind isNumeral fits =>
        have trimmed := Text.trim_of_blanks_around isNumeral.ne_nil isNumeral.not_blank blankBefore
          blankBehind
        rw [toInteger?, split, trimmed]
        exact Text.integer?_eq_some.mpr ⟨isNumeral, fits⟩

theorem Denotes.not_blank {x : Json} {n : Int} (denotes : x.Denotes n) : ¬ Blank (some x) := by
  intro blank
  cases denotes with
  | number => cases blank
  | text split _ _ isNumeral =>
      cases blank with
      | spaces each =>
          obtain ⟨c, member⟩ := List.exists_mem_of_ne_nil _ isNumeral.ne_nil
          have isBlank := each c (by simp [split, member])
          rw [isNumeral.not_blank c member] at isBlank
          cases isBlank

end Json

/-! ## Rules -/

namespace Rule

variable {rule : Rule} {value : Option Json} {min max n : Int} {text : String}

/-- The rule takes the value for a number that it allows. -/
inductive Reads : Rule → Option Json → Int → Prop where
  | within {min max n : Int} {x : Json} (denotes : x.Denotes n) (above : min ≤ n)
      (below : n ≤ max) : Reads (.range min max) (some x) n

inductive Refuses : Rule → Option Json → Prop where
  | blank {value : Option Json} (blank : Json.Blank value) : Refuses .required value
  | outside {min max : Int} {value : Option Json} (given : ¬ Json.Blank value)
      (outside : ∀ x n, value = some x → x.Denotes n → ¬ (min ≤ n ∧ n ≤ max)) :
      Refuses (.range min max) value

theorem Reads.denotes (reads : rule.Reads value n) : ∃ x, value = some x ∧ x.Denotes n := by
  cases reads with
  | @within _ _ _ x denotes => exact ⟨x, rfl, denotes⟩

theorem Reads.number (reads : rule.Reads value n) : value.bind Json.toInteger? = some n := by
  obtain ⟨x, rfl, denotes⟩ := reads.denotes
  exact Json.toInteger?_eq_some.mpr denotes

theorem Reads.bounds (reads : (range min max).Reads value n) : min ≤ n ∧ n ≤ max := by
  cases reads with
  | within _ above below => exact ⟨above, below⟩

theorem Reads.range_of_given (reads : rule.Reads value n) :
    (∃ min max, rule = .range min max) ∧ ¬ Json.Blank value := by
  cases reads with
  | @within min max _ _ denotes => exact ⟨⟨min, max, rfl⟩, denotes.not_blank⟩

theorem Refuses.not_reads (refused : rule.Refuses value) : ¬ rule.Reads value n := by
  intro reads
  cases reads with
  | @within _ _ _ x denotes above below =>
      cases refused with
      | outside _ outside => exact outside x n rfl denotes ⟨above, below⟩

theorem apply_eq_normalize : rule.apply value = .normalize n ↔ rule.Reads value n := by
  constructor
  · intro applied
    unfold apply at applied
    split at applied
    · split at applied <;> cases applied
    · split at applied
      · cases applied
      · split at applied
        · next read =>
          obtain ⟨x, rfl, denotes⟩ := Option.bind_eq_some_iff.mp read
          split at applied
          · next inRange =>
            cases applied
            exact .within (Json.toInteger?_eq_some.mp denotes) inRange.1 inRange.2
          · cases applied
        · cases applied
  · intro reads
    cases reads with
    | within denotes above below =>
        have given := mt Json.isBlank_iff.mp denotes.not_blank
        rw [apply, if_neg given, Option.bind_some, Json.toInteger?_eq_some.mpr denotes]
        exact if_pos ⟨above, below⟩

theorem apply_range_eq_pass : (range min max).apply value = .pass ↔ Json.Blank value := by
  constructor
  · intro passes
    simp only [apply] at passes
    split at passes
    · next blank => exact Json.isBlank_iff.mp blank
    · split at passes
      · split at passes <;> cases passes
      · cases passes
  · intro blank
    exact if_pos (Json.isBlank_iff.mpr blank)

theorem refusal_of_fail (failed : rule.apply value = .fail text) : text = rule.refusal := by
  cases rule with
  | required =>
      simp only [apply] at failed
      split at failed <;> cases failed
      rfl
  | range min max =>
      simp only [apply] at failed
      split at failed
      · cases failed
      · split at failed
        · split at failed <;> cases failed
          rfl
        · cases failed
          rfl

theorem apply_eq_fail :
    rule.apply value = .fail text ↔ rule.Refuses value ∧ text = rule.refusal := by
  constructor
  · intro failed
    refine ⟨?_, refusal_of_fail failed⟩
    cases rule with
    | required =>
        by_cases blank : Json.isBlank value = true
        · exact .blank (Json.isBlank_iff.mp blank)
        · rw [apply, if_neg blank] at failed
          cases failed
    | range min max =>
        apply Refuses.outside
        · intro blank
          cases (apply_range_eq_pass.mpr blank).symm.trans failed
        · intro x n stored denotes inRange
          subst stored
          have reads : (range min max).Reads (some x) n := .within denotes inRange.1 inRange.2
          cases (apply_eq_normalize.mpr reads).symm.trans failed
  · intro refused
    obtain ⟨refused, rfl⟩ := refused
    cases applied : rule.apply value with
    | fail message => rw [refusal_of_fail applied]
    | normalize n => exact absurd (apply_eq_normalize.mp applied) refused.not_reads
    | pass =>
        cases refused with
        | blank blank =>
            rw [apply, if_pos (Json.isBlank_iff.mpr blank)] at applied
            cases applied
        | outside given => exact absurd (apply_range_eq_pass.mp applied) given

end Rule

end GatedForms

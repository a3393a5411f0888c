import GatedForms.Text

/-! # Digits and parts of texts

Numbers are read from the decimal digits that they are printed with, and from digits with zeros in
front. A text is its parts with the separator between them.
-/

namespace GatedForms.Text

/-! ## Digits -/

theorem digit?_of_isDigit {c : Char} (isDigit : c.isDigit = true) :
    digit? c = some (c.toNat - '0'.toNat) := by
  rw [Char.isDigit, Bool.and_eq_true, decide_eq_true_iff, decide_eq_true_iff] at isDigit
  exact if_pos isDigit

theorem digitsFrom?_of_isDigit {cs : List Char} (areDigits : ∀ c ∈ cs, c.isDigit = true) (n : Nat) :
    digitsFrom? n cs = some (Nat.ofDigitChars 10 cs n) := by
  induction cs generalizing n with
  | nil => rfl
  | cons c cs ih =>
      obtain ⟨isDigit, rest⟩ := List.forall_mem_cons.mp areDigits
      rw [digitsFrom?, digit?_of_isDigit isDigit, Option.bind_some, ih rest, Nat.ofDigitChars_cons,
        Nat.mul_comm]

theorem isDigit_of_mem_toDigits {n : Nat} {c : Char} (member : c ∈ Nat.toDigits 10 n) :
    c.isDigit = true :=
  Nat.isDigit_of_mem_toDigits (by decide) (by decide) member

theorem dropPlus_of_ne {c : Char} {cs : List Char} (noSign : c ≠ '+') :
    dropPlus (c :: cs) = c :: cs := by
  unfold dropPlus
  split
  · next same =>
    cases same
    exact absurd rfl noSign
  · rfl

/-- Some decimal digits, and the number that they denote. -/
structure Digits (cs : List Char) (n : Nat) : Prop where
  nonempty : cs ≠ []
  each : ∀ c ∈ cs, c.isDigit = true
  value : Nat.ofDigitChars 10 cs 0 = n

theorem isDigit_of_digit? {c : Char} {d : Nat} (read : digit? c = some d) : c.isDigit = true := by
  obtain ⟨inside, -⟩ := Option.ite_none_right_eq_some.mp read
  rw [Char.isDigit, Bool.and_eq_true, decide_eq_true_iff, decide_eq_true_iff]
  exact inside

theorem isDigit_of_digitsFrom? {cs : List Char} {n m : Nat} (read : digitsFrom? n cs = some m) :
    ∀ c ∈ cs, c.isDigit = true := by
  induction cs generalizing n with
  | nil => exact nofun
  | cons c cs ih =>
      obtain ⟨d, first, rest⟩ := Option.bind_eq_some_iff.mp read
      exact List.forall_mem_cons.mpr ⟨isDigit_of_digit? first, ih rest⟩

theorem digits?_eq_some {cs : List Char} {n : Nat} : digits? cs = some n ↔ Digits cs n := by
  cases cs with
  | nil =>
      constructor
      · intro read
        cases read
      · intro digits
        exact absurd rfl digits.nonempty
  | cons c cs =>
      rw [digits?]
      constructor
      · intro read
        have each := isDigit_of_digitsFrom? read
        rw [digitsFrom?_of_isDigit each] at read
        exact ⟨List.cons_ne_nil c cs, each, Option.some.inj read⟩
      · intro digits
        rw [digitsFrom?_of_isDigit digits.each, digits.value]

theorem Digits.head_ne {c sign : Char} {cs : List Char} {n : Nat} (digits : Digits (c :: cs) n)
    (noDigit : sign.isDigit = false) : c ≠ sign := by
  intro same
  subst same
  have isDigit := digits.each c List.mem_cons_self
  rw [noDigit] at isDigit
  cases isDigit

theorem digits_toDigits (n : Nat) : Digits (Nat.toDigits 10 n) n where
  nonempty := Nat.toDigits_ne_nil
  each := fun _ => isDigit_of_mem_toDigits
  value := Nat.ofDigitChars_ten_toDigits

/-- Decimal digits, with a plus sign in front or without, of a number that fits 64 bits. -/
inductive Natural : List Char → Nat → Prop where
  | unsigned {cs : List Char} {n : Nat} (digits : Digits cs n) (fits : n < naturalBound) :
      Natural cs n
  | plus {cs : List Char} {n : Nat} (digits : Digits cs n) (fits : n < naturalBound) :
      Natural ('+' :: cs) n

theorem Natural.fits {cs : List Char} {n : Nat} (natural : Natural cs n) : n < naturalBound := by
  cases natural with
  | unsigned _ fits | plus _ fits => exact fits

/-- A number is read from an optional plus sign and digits, and from nothing else. -/
theorem natural?_eq_some {cs : List Char} {n : Nat} : natural? cs = some n ↔ Natural cs n := by
  rw [natural?, Option.filter_eq_some_iff, decide_eq_true_iff, digits?_eq_some]
  constructor
  · rintro ⟨digits, fits⟩
    unfold dropPlus at digits
    split at digits
    · exact .plus digits fits
    · exact .unsigned digits fits
  · intro natural
    cases natural with
    | plus digits fits => exact ⟨digits, fits⟩
    | unsigned digits fits =>
        cases cs with
        | nil => exact absurd rfl digits.nonempty
        | cons c cs =>
            rw [dropPlus_of_ne (digits.head_ne rfl)]
            exact ⟨digits, fits⟩

def NoLeadingZero (cs : List Char) : Prop := cs.head? = some '0' → cs = ['0']

theorem exists_digitChar_of_isDigit {c : Char} (isDigit : c.isDigit = true) :
    ∃ d, d < 10 ∧ c = d.digitChar := by
  rw [Char.isDigit, Bool.and_eq_true, decide_eq_true_iff, decide_eq_true_iff] at isDigit
  have low : 48 ≤ c.toNat := isDigit.1
  have high : c.toNat ≤ 57 := isDigit.2
  have small : c.toNat - 48 < 10 := by omega
  refine ⟨c.toNat - 48, small, Char.toNat_inj.mp ?_⟩
  rw [Nat.toNat_digitChar_of_lt_ten small]
  omega

/-- Further digits go behind those that a number other than zero is printed with. -/
theorem toDigits_ofDigitChars {cs : List Char} (areDigits : ∀ c ∈ cs, c.isDigit = true) {n : Nat}
    (notZero : 0 < n) :
    Nat.toDigits 10 (Nat.ofDigitChars 10 cs n) = Nat.toDigits 10 n ++ cs := by
  induction cs generalizing n with
  | nil => exact (List.append_nil _).symm
  | cons c cs ih =>
      obtain ⟨isDigit, rest⟩ := List.forall_mem_cons.mp areDigits
      obtain ⟨d, small, rfl⟩ := exists_digitChar_of_isDigit isDigit
      rw [Nat.ofDigitChars_cons_digitChar_of_lt_ten small, ih rest (by omega),
        ← Nat.toDigits_append_toDigits (by decide) notZero small, Nat.toDigits_of_lt_base small,
        List.append_assoc, List.singleton_append]

theorem Digits.eq_toDigits {cs : List Char} {n : Nat} (digits : Digits cs n)
    (noZero : NoLeadingZero cs) : cs = Nat.toDigits 10 n := by
  obtain ⟨nonempty, each, rfl⟩ := digits
  cases cs with
  | nil => exact absurd rfl nonempty
  | cons c cs =>
      obtain ⟨isDigit, rest⟩ := List.forall_mem_cons.mp each
      obtain ⟨d, small, rfl⟩ := exists_digitChar_of_isDigit isDigit
      rw [Nat.ofDigitChars_cons_digitChar_of_lt_ten small, Nat.mul_zero, Nat.zero_add]
      cases d with
      | zero =>
          cases noZero rfl
          rfl
      | succ d =>
          rw [toDigits_ofDigitChars rest d.succ_pos, Nat.toDigits_of_lt_base small,
            List.singleton_append]

theorem not_mem_toDigits {c : Char} (noDigit : c.isDigit = false) (n : Nat) :
    c ∉ Nat.toDigits 10 n := by
  intro member
  rw [isDigit_of_mem_toDigits member] at noDigit
  cases noDigit

theorem noLeadingZero_toDigits (n : Nat) : NoLeadingZero (Nat.toDigits 10 n) := by
  induction n using Nat.strongRecOn with
  | ind n ih =>
      rw [Nat.toDigits_eq_if (by decide)]
      split
      · intro isZero
        exact congrArg (fun c => [c]) (Option.some.inj isZero)
      · next large =>
        -- All but the last digit would be a lone zero, and what is left of the number is not zero.
        intro isZero
        have lone := ih (n / 10) (by omega) (by
          obtain ⟨c, cs, split⟩ := List.exists_cons_of_ne_nil
            (Nat.toDigits_ne_nil (n := n / 10) (b := 10))
          rw [split] at isZero ⊢
          exact isZero)
        have value := Nat.ofDigitChars_ten_toDigits (n := n / 10)
        rw [lone, show Nat.ofDigitChars 10 ['0'] 0 = 0 from rfl] at value
        omega

/-! ## Separators -/

theorem splitOn_eq (separator : Char) (cs : List Char) :
    splitOn separator cs = cs.splitOn separator := by
  induction cs with
  | nil => rfl
  | cons c cs ih =>
      rw [splitOn, ih, List.splitOn_cons_eq_if_modifyHead]
      by_cases same : c = separator
      · simp [same]
      · cases split : cs.splitOn separator with
        | nil => exact absurd split (List.splitOn_ne_nil separator cs)
        | cons part parts => simp [same]

theorem splitOn_append {separator : Char} {first : List Char} (inside : separator ∉ first)
    (rest : List Char) :
    splitOn separator (first ++ separator :: rest) = first :: splitOn separator rest := by
  rw [splitOn_eq, splitOn_eq, List.splitOn_append_cons_self_of_not_mem inside]

theorem splitOn_of_not_mem {separator : Char} {cs : List Char} (inside : separator ∉ cs) :
    splitOn separator cs = [cs] := by
  rw [splitOn_eq, List.splitOn_eq_singleton inside]

/-- What stands in front of the first separator is told apart from what stands behind it. -/
theorem append_inj_of_not_mem {separator : Char} {first other rest behind : List Char}
    (inside : separator ∉ first) (otherInside : separator ∉ other)
    (same : first ++ separator :: rest = other ++ separator :: behind) :
    first = other ∧ rest = behind := by
  have split := congrArg (splitOn separator) same
  rw [splitOn_append inside, splitOn_append otherInside] at split
  obtain ⟨rfl, -⟩ := List.cons.inj split
  exact ⟨rfl, (List.cons.inj (List.append_cancel_left same)).2⟩

theorem toDigits_append_inj {separator : Char} (noDigit : separator.isDigit = false) {n m : Nat}
    {rest behind : List Char}
    (same : Nat.toDigits 10 n ++ separator :: rest = Nat.toDigits 10 m ++ separator :: behind) :
    n = m ∧ rest = behind := by
  obtain ⟨sameDigits, rests⟩ :=
    append_inj_of_not_mem (not_mem_toDigits noDigit n) (not_mem_toDigits noDigit m) same
  refine ⟨?_, rests⟩
  rw [← Nat.ofDigitChars_ten_toDigits (n := n), sameDigits, Nat.ofDigitChars_ten_toDigits]

theorem intercalate_splitOn (separator : Char) (cs : List Char) :
    [separator].intercalate (splitOn separator cs) = cs := by
  rw [splitOn_eq, List.intercalate_splitOn]

theorem splitOn_intercalate {separator : Char} {list : List (List Char)} (nonempty : list ≠ [])
    (inside : ∀ part ∈ list, separator ∉ part) :
    splitOn separator ([separator].intercalate list) = list := by
  rw [splitOn_eq, List.splitOn_intercalate separator inside nonempty]

/-- There is a first part, and the parts with separators between them are the whole text. -/
theorem splitOn_joined (separator : Char) (cs : List Char) :
    ∃ first rest, splitOn separator cs = first :: rest ∧
      cs = [separator].intercalate (first :: rest) := by
  cases split : splitOn separator cs with
  | nil =>
      rw [splitOn_eq] at split
      exact absurd split (List.splitOn_ne_nil separator cs)
  | cons first rest => exact ⟨first, rest, rfl, by rw [← split, intercalate_splitOn]⟩

theorem not_mem_of_mem_splitOn {separator : Char} {cs part : List Char}
    (member : part ∈ splitOn separator cs) : separator ∉ part := by
  induction cs generalizing part with
  | nil =>
      cases List.mem_singleton.mp member
      exact List.not_mem_nil
  | cons c cs ih =>
      rw [splitOn] at member
      split at member
      · rcases List.mem_cons.mp member with rfl | inRest
        · exact List.not_mem_nil
        · exact ih inRest
      · next differ =>
        split at member
        · cases List.mem_singleton.mp member
          simpa using Ne.symm differ
        · next first others split =>
          rcases List.mem_cons.mp member with rfl | inRest
          · rw [split] at ih
            exact List.not_mem_cons_of_ne_of_not_mem (Ne.symm differ) (ih List.mem_cons_self)
          · rw [split] at ih
            exact ih (List.mem_cons_of_mem first inRest)

end GatedForms.Text

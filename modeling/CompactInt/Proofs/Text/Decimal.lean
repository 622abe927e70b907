import CompactInt.Text.Decimal

/-! Decimal digits as numbers, with zeros in front of them or not, and with at most one sign. -/

set_option autoImplicit false

namespace CompactInt.Decimal

/-- Digits that stand for a number; zeros may stand in front. -/
structure Numeral (text : List Char) (value : Nat) : Prop where
  nonempty : text ≠ []
  digits : ∀ char ∈ text, char.isDigit
  value_eq : Nat.ofDigitChars 10 text 0 = value

theorem numeral_render (value : Nat) : Numeral (render value) value where
  nonempty := Nat.toDigits_ne_nil
  digits _ member := Nat.isDigit_of_mem_toDigits (by decide) (by decide) member
  value_eq := Nat.ofDigitChars_ten_toDigits

theorem le_ofDigitChars (text : List Char) (value : Nat) :
    value ≤ Nat.ofDigitChars 10 text value := by
  rw [Nat.ofDigitChars_eq_ofDigitChars_zero]
  have place : 0 < 10 ^ text.length := Nat.pow_pos (by decide)
  exact Nat.le_trans (Nat.le_mul_of_pos_left value place) (Nat.le_add_right _ _)

/-- Reading stops at the first number beyond the limit, and later digits only make it larger. -/
theorem readDigits_eq_ok_iff {limit value result : Nat} (beyond : NumeralFault) {text : List Char}
    (within : value ≤ limit) :
    readDigits limit beyond value text = .ok result ↔
      (∀ char ∈ text, char.isDigit) ∧ Nat.ofDigitChars 10 text value = result ∧
        result ≤ limit := by
  induction text generalizing value with
  | nil =>
    rw [readDigits, Nat.ofDigitChars_nil, Except.ok.injEq]
    constructor
    · rintro rfl
      exact ⟨nofun, rfl, within⟩
    · exact fun ⟨_, same, _⟩ => same
  | cons char rest ih =>
    have zeroCode : '0'.toNat = 48 := rfl
    rw [readDigits, Nat.ofDigitChars_cons, zeroCode, List.forall_mem_cons]
    dsimp only
    by_cases digit : char.isDigit
    · by_cases nextWithin : 10 * value + (char.toNat - 48) ≤ limit
      · rw [if_pos digit, if_pos nextWithin, ih nextWithin]
        simp only [digit, true_and]
      · rw [if_pos digit, if_neg nextWithin]
        -- The number cannot come back under the limit with the digits that follow.
        refine ⟨nofun, ?_⟩
        rintro ⟨-, rfl, bounded⟩
        exact absurd (Nat.le_trans (le_ofDigitChars rest _) bounded) nextWithin
    · rw [if_neg digit]
      exact ⟨nofun, fun ⟨⟨first, _⟩, _⟩ => absurd first digit⟩

theorem readMagnitude_eq_ok_iff {limit value : Nat} (beyond : NumeralFault) {text : List Char} :
    readMagnitude limit beyond text = .ok value ↔ Numeral text value ∧ value ≤ limit := by
  cases text with
  | nil => exact ⟨nofun, fun ⟨numeral, _⟩ => absurd rfl numeral.nonempty⟩
  | cons char rest =>
    rw [readMagnitude, readDigits_eq_ok_iff beyond (Nat.zero_le limit)]
    · constructor
      · exact fun ⟨digits, same, bounded⟩ => ⟨⟨List.cons_ne_nil _ _, digits, same⟩, bounded⟩
      · exact fun ⟨numeral, bounded⟩ => ⟨numeral.digits, numeral.value_eq, bounded⟩
    · exact nofun

/-! ## Signs -/

/-- How an integer may be written: digits, with at most one sign in front of them. -/
inductive Signed : List Char → Int → Prop where
  | bare {digits : List Char} {value : Nat} : Numeral digits value → Signed digits value
  | plus {digits : List Char} {value : Nat} : Numeral digits value → Signed ('+' :: digits) value
  | minus {digits : List Char} {value : Nat} :
      Numeral digits value → Signed ('-' :: digits) (-value)

theorem readInt64_minus (digits : List Char) :
    readInt64 ('-' :: digits) =
      (readMagnitude 0x8000000000000000 .tooSmall digits).map
        fun (value : Nat) => -(value : Int) := by
  rw [readInt64]
  cases readMagnitude 0x8000000000000000 .tooSmall digits <;> rfl

theorem readInt64_plus (digits : List Char) :
    readInt64 ('+' :: digits) =
      (readMagnitude 0x7fffffffffffffff .tooLarge digits).map fun (value : Nat) => (value : Int) :=
  rfl

theorem readInt64_bare {text : List Char} (nonempty : text ≠ [])
    (noMinus : ∀ digits, text ≠ '-' :: digits) (noPlus : ∀ digits, text ≠ '+' :: digits) :
    readInt64 text =
      (readMagnitude 0x7fffffffffffffff .tooLarge text).map fun (value : Nat) => (value : Int) := by
  rw [readInt64]
  · rfl
  · exact nonempty
  · exact noMinus
  · exact noPlus

theorem exists_numeral_of_map {limit : Nat} {beyond : NumeralFault} {digits : List Char}
    {sign : Nat → Int} {number : Int}
    (read : (readMagnitude limit beyond digits).map sign = .ok number) :
    ∃ value : Nat, Numeral digits value ∧ value ≤ limit ∧ number = sign value := by
  cases magnitude : readMagnitude limit beyond digits with
  | error fault => rw [magnitude] at read; cases read
  | ok value =>
    rw [magnitude] at read
    cases read
    obtain ⟨numeral, within⟩ := (readMagnitude_eq_ok_iff beyond).1 magnitude
    exact ⟨value, numeral, within, rfl⟩

theorem signed_of_readInt64 {text : List Char} {number : Int} (read : readInt64 text = .ok number) :
    Signed text number ∧ -0x8000000000000000 ≤ number ∧ number ≤ 0x7fffffffffffffff := by
  by_cases nonempty : text = []
  · subst nonempty
    cases read
  by_cases minus : ∃ digits, text = '-' :: digits
  · obtain ⟨digits, rfl⟩ := minus
    rw [readInt64_minus] at read
    obtain ⟨value, numeral, within, rfl⟩ := exists_numeral_of_map read
    exact ⟨.minus numeral, by omega⟩
  by_cases plus : ∃ digits, text = '+' :: digits
  · obtain ⟨digits, rfl⟩ := plus
    rw [readInt64_plus] at read
    obtain ⟨value, numeral, within, rfl⟩ := exists_numeral_of_map read
    exact ⟨.plus numeral, by omega⟩
  · rw [readInt64_bare nonempty (not_exists.1 minus) (not_exists.1 plus)] at read
    obtain ⟨value, numeral, within, rfl⟩ := exists_numeral_of_map read
    exact ⟨.bare numeral, by omega⟩

/-- Every integer of sixty-four bits is read, however it is written, and nothing else. -/
theorem readInt64_eq_ok_iff {text : List Char} {number : Int} :
    readInt64 text = .ok number ↔
      Signed text number ∧ -0x8000000000000000 ≤ number ∧ number ≤ 0x7fffffffffffffff := by
  refine ⟨signed_of_readInt64, ?_⟩
  rintro ⟨signed, within⟩
  cases signed with
  | bare numeral =>
    -- A digit is no sign.
    have noSign {sign : Char} {digits : List Char} (same : text = sign :: digits) :
        sign.isDigit := numeral.digits sign (same ▸ List.mem_cons_self)
    rw [readInt64_bare numeral.nonempty (fun _ same => absurd (noSign same) (by decide))
      (fun _ same => absurd (noSign same) (by decide)),
      (readMagnitude_eq_ok_iff .tooLarge).2 ⟨numeral, by omega⟩]
    rfl
  | plus numeral =>
    rw [readInt64_plus, (readMagnitude_eq_ok_iff .tooLarge).2 ⟨numeral, by omega⟩]
    rfl
  | minus numeral =>
    rw [readInt64_minus, (readMagnitude_eq_ok_iff .tooSmall).2 ⟨numeral, by omega⟩]
    rfl

theorem readUpTo_eq_ok_iff {text : List Char} {value bound : Nat}
    (small : bound ≤ 0x7fffffffffffffff) :
    readUpTo bound text = .ok value ↔ Signed text value ∧ value ≤ bound := by
  constructor
  · intro accepted
    unfold readUpTo at accepted
    split at accepted
    · cases accepted
    · next number read =>
      split at accepted
      · next within =>
        cases accepted
        obtain ⟨signed, -⟩ := readInt64_eq_ok_iff.1 read
        rw [Int.toNat_of_nonneg within.1]
        exact ⟨signed, by omega⟩
      · cases accepted
  · rintro ⟨signed, within⟩
    rw [readUpTo, readInt64_eq_ok_iff.2 ⟨signed, by omega⟩]
    exact if_pos ⟨Int.natCast_nonneg value, Int.ofNat_le.2 within⟩

theorem readUpTo_of_numeral {text : List Char} {value bound : Nat} (numeral : Numeral text value)
    (within : value ≤ bound) (small : bound ≤ 0x7fffffffffffffff) :
    readUpTo bound text = .ok value :=
  (readUpTo_eq_ok_iff small).2 ⟨.bare numeral, within⟩

example : readUpTo 300 ['0', '0', '3', '0', '0'] = .ok 300 := rfl

end CompactInt.Decimal

import LessStyle.Value.Numeral
import Mathlib.Algebra.GroupWithZero.Nat

/-!
# Numerals of small numbers

Rounding to a double never takes a ratio of at least one below one
(`Binary64.lt_of_isFraction_ofRatio`). So a numeral without an exponent whose double lies between zero
and one has a point, and only zeros before it (`Numeral.writtenAs_of_isFraction`).
-/

namespace LessStyle

/-! ## Rounding -/

namespace Binary64

theorem div_le_roundDiv (n d : Nat) : n / d ≤ roundDiv n d := by
  simp only [roundDiv]
  split
  · exact Nat.le_refl _
  · split <;> omega

/-- At a negative exponent, a ratio of at least one is rounded to a multiple that makes at least
one. -/
theorem two_pow_le_roundDiv {n d : Nat} {e : Int} (hd : 0 < d) (h : d ≤ n) (he : e < 0) :
    2 ^ (-e).toNat ≤ roundDiv (scale n d e).1 (scale n d e).2 := by
  rw [scale, if_neg (by omega)]
  refine Nat.le_trans ?_ (div_le_roundDiv _ _)
  rw [Nat.le_div_iff_mul_le hd, Nat.mul_comm]
  exact Nat.mul_le_mul_right _ h

theorem isFraction_finite {negative : Bool} {m : Nat} {e : Int} :
    (finite negative m e).isFraction = true ↔ e < 0 ∧ m < 2 ^ (-e).toNat := by
  simp [isFraction]

/-- A carry halves the multiple and doubles what it is a multiple of. -/
theorem isFraction_of_carry {negative : Bool} {e : Int}
    (h : (finite negative leadingBit (e + 1)).isFraction = true) :
    (finite negative (2 * leadingBit) e).isFraction = true := by
  rw [isFraction_finite] at h ⊢
  have hpow : 2 ^ (-e).toNat = 2 * 2 ^ (-(e + 1)).toNat := by
    rw [← Nat.pow_succ']
    congr 1
    omega
  omega

/-- **Rounding does not go below one.** -/
theorem lt_of_isFraction_ofRatio {negative : Bool} {n d : Nat} (hd : 0 < d)
    (h : (ofRatio negative n d).isFraction = true) : n < d := by
  refine Nat.lt_of_not_le fun hle => ?_
  rw [ofRatio, if_neg (by omega)] at h
  dsimp only at h
  -- with the carry undone, the number is the multiple that was rounded to
  have hrounded : (finite negative (roundDiv (scale n d (exponentFor n d)).1
      (scale n d (exponentFor n d)).2) (exponentFor n d)).isFraction = true := by
    split at h
    · next hcarry =>
      dsimp only at h
      split at h
      · cases h
      · rw [hcarry]
        exact isFraction_of_carry h
    · dsimp only at h
      split at h
      · cases h
      · exact h
  obtain ⟨hneg, hlt⟩ := isFraction_finite.1 hrounded
  exact absurd (two_pow_le_roundDiv hd hle hneg) (Nat.not_le.2 hlt)

end Binary64

/-- A decimal number whose double lies between zero and one lies there itself. -/
theorem Decimal.lt_of_isFraction {x : Decimal} (hexponent : x.exponent ≤ 0)
    (hzero : x.toBinary64.isZero = false) (h : x.toBinary64.isFraction = true) :
    0 < x.digits ∧ x.digits < 10 ^ (-x.exponent).toNat := by
  unfold toBinary64 at hzero h
  split at hzero
  · cases hzero
  · next hdigits =>
    refine ⟨Nat.pos_of_ne_zero hdigits, ?_⟩
    rw [if_neg hdigits] at h
    dsimp only at hzero h
    split at h
    · cases h
    · next htop =>
      rw [if_neg htop] at hzero
      split at hzero
      · cases hzero
      · next hlow =>
        rw [if_neg hlow] at h
        split at h
        · next hnonneg =>
          obtain hexp : x.exponent = 0 := by omega
          have := Binary64.lt_of_isFraction_ofRatio Nat.one_pos h
          simpa [hexp] using this
        · exact Binary64.lt_of_isFraction_ofRatio (Nat.pow_pos (by decide)) h

/-! ## Digits -/

namespace Numeral

theorem digitsValue_eq (s : Text) : digitsValue s = Nat.ofDigitChars 10 s 0 := by
  rw [digitsValue, Nat.ofDigitChars_eq_foldl]

theorem digitsValue_append (s t : Text) :
    digitsValue (s ++ t) = 10 ^ t.length * digitsValue s + digitsValue t := by
  rw [digitsValue_eq, digitsValue_eq, digitsValue_eq, Nat.ofDigitChars_append,
    Nat.ofDigitChars_eq_ofDigitChars_zero]

/-- Only zeros have the value zero. -/
theorem eq_zero_of_digitsValue {s : Text} (hdigits : ∀ c ∈ s, c.isDigit = true)
    (h : digitsValue s = 0) : ∀ c ∈ s, c = '0' := by
  induction s with
  | nil => nofun
  | cons c s ih =>
    rw [← List.singleton_append, digitsValue_append, Nat.add_eq_zero_iff] at h
    obtain ⟨hdigit, hdigits⟩ := List.forall_mem_cons.1 hdigits
    refine List.forall_mem_cons.2 ⟨?_, ih hdigits h.2⟩
    have hle : c.toNat ≤ '0'.toNat := by
      have hzero := (Nat.mul_eq_zero.1 h.1).resolve_left (Nat.ne_of_gt (Nat.pow_pos (by decide)))
      simpa [digitsValue, Nat.sub_eq_zero_iff_le] using hzero
    simp only [Char.isDigit, Bool.and_eq_true, decide_eq_true_eq] at hdigit
    exact Char.ext (UInt32.le_antisymm hle hdigit.1)

/-! ## Reading -/

/-- The text is written with these digits before a point, and with this sign, which may be empty. -/
structure WrittenAs (s sign whole rest : Text) : Prop where
  eq : s = sign ++ (whole ++ '.' :: rest)
  sign : sign ∈ [[], ['+'], ['-']]
  isDigit : ∀ c ∈ whole, c.isDigit = true

/-- The sign and the digits are those that are read. -/
theorem WrittenAs.read_eq {s sign whole rest : Text} (h : WrittenAs s sign whole rest) :
    (sign? s).1.toList = sign ∧ digits (sign? s).2 = (whole, '.' :: rest) := by
  obtain ⟨rfl, hsign, hdigits⟩ := h
  have hwhole : digits (whole ++ '.' :: rest) = (whole, '.' :: rest) := by
    rw [digits, List.takeWhile_append_of_pos hdigits, List.dropWhile_append_of_pos hdigits]
    simp
  have hnone : sign? (whole ++ '.' :: rest) = (none, whole ++ '.' :: rest) := by
    cases whole with
    | nil => rfl
    | cons c whole =>
      have hc : ¬ (c == '+' || c == '-') = true := by
        have hdigit := hdigits c List.mem_cons_self
        simp only [Bool.or_eq_true, beq_iff_eq]
        rintro (rfl | rfl) <;> cases hdigit
      exact if_neg hc
  simp only [List.mem_cons, List.not_mem_nil, or_false] at hsign
  rcases hsign with rfl | rfl | rfl
  · rw [List.nil_append, hnone]
    exact ⟨rfl, hwhole⟩
  · exact ⟨rfl, hwhole⟩
  · exact ⟨rfl, hwhole⟩

theorem eq_of_sign? (s : Text) :
    s = (sign? s).1.toList ++ (sign? s).2 ∧ (sign? s).1.toList ∈ [[], ['+'], ['-']] := by
  cases s with
  | nil => simp [sign?]
  | cons c s =>
    rw [sign?]
    split
    · next hc =>
      simp only [Bool.or_eq_true, beq_iff_eq] at hc
      simpa using hc
    · simp

theorem isDigit_digits (s : Text) : ∀ c ∈ (digits s).1, c.isDigit = true :=
  fun c hc => List.all_eq_true.1 List.all_takeWhile c hc

theorem eq_of_fraction? (whole s : Text) :
    s = (fraction? whole s).1.elim [] ('.' :: ·) ++ (fraction? whole s).2 := by
  unfold fraction?
  split
  · next s =>
    dsimp only
    split
    · rfl
    · simp [digits]
  · rfl

/-- The parts that are read follow each other. -/
theorem eq_of_parts (s : Text) :
    s = (sign? s).1.toList ++ ((digits (sign? s).2).1 ++
      ((fraction? (digits (sign? s).2).1 (digits (sign? s).2).2).1.elim [] ('.' :: ·) ++
        (fraction? (digits (sign? s).2).1 (digits (sign? s).2).2).2)) := by
  rw [← eq_of_fraction?]
  exact (eq_of_sign? s).1.trans (congrArg _ List.takeWhile_append_dropWhile.symm)

/-- The parts of a numeral stand at the start of the text. -/
theorem eq_of_read? {s : Text} {n : Numeral} (h : read? s = some n) :
    n.sign.toList ∈ [[], ['+'], ['-']] ∧ (∀ c ∈ n.whole, c.isDigit = true) ∧
      ∃ rest, s = n.sign.toList ++ (n.whole ++ (n.fraction.elim [] ('.' :: ·) ++ rest)) := by
  unfold read? at h
  dsimp only at h
  split at h
  · cases h
  · obtain rfl := Option.some.inj h
    exact ⟨(eq_of_sign? s).2, isDigit_digits _, _, eq_of_parts s⟩

/-- **The numeral of a number between zero and one**, without an exponent, has a point and only zeros
before it. -/
theorem writtenAs_of_isFraction {s : Text} {n : Numeral} (h : read? s = some n)
    (hexponent : n.exponent = none) (hzero : n.value.toBinary64.isZero = false)
    (hfraction : n.value.toBinary64.isFraction = true) :
    ∃ rest, WrittenAs s n.sign.toList n.whole rest ∧ ∀ c ∈ n.whole, c = '0' := by
  obtain ⟨hsign, hdigits, rest, hs⟩ := eq_of_read? h
  have hpower : n.value.exponent = -((n.fraction.getD []).length : Int) := by
    simp [value, hexponent]
  obtain ⟨hpos, hlt⟩ := Decimal.lt_of_isFraction (by omega) hzero hfraction
  have hvalue : n.value.digits =
      10 ^ (n.fraction.getD []).length * digitsValue n.whole + digitsValue (n.fraction.getD []) :=
    digitsValue_append _ _
  rw [hpower, Int.neg_neg, Int.toNat_natCast] at hlt
  have hwhole : digitsValue n.whole = 0 := by
    refine Nat.eq_zero_of_not_pos fun hwhole => ?_
    have := Nat.le_mul_of_pos_right (10 ^ (n.fraction.getD []).length) hwhole
    omega
  cases hpoint : n.fraction with
  | none =>
    rw [hwhole, hpoint, Option.getD_none, Nat.mul_zero] at hvalue
    exact absurd hvalue (Nat.ne_of_gt hpos)
  | some ds =>
    rw [hpoint] at hs
    exact ⟨ds ++ rest, ⟨hs, hsign, hdigits⟩, eq_zero_of_digitsValue hdigits hwhole⟩

end Numeral

end LessStyle

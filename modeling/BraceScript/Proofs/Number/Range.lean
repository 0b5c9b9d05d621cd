-- Which decimals are doubles: those that lie below the middle between the
-- greatest double and the power of two behind it. All others become an
-- infinity, and none of them becomes the number that is none.
import BraceScript.Proofs.Number.Rounding
import Mathlib

namespace BraceScript.Number

open Float.Model UnpackedFloat

/-! ## The end of the range -/

/-- The middle between the greatest double and `2 ^ 1024`. -/
def rangeEnd : ℚ := (2 ^ 53 - 1 / 2) * 2 ^ 971

theorem two_pow_lt_rangeEnd : (2 : ℚ) ^ 1023 < rangeEnd := by
  have split : (2 : ℚ) ^ 1023 = 2 ^ 52 * 2 ^ 971 := (pow_add 2 52 971)
  rw [rangeEnd, split]
  gcongr
  norm_num

theorem rangeEnd_le_two_pow : rangeEnd ≤ 2 ^ 1024 := by
  have split : (2 : ℚ) ^ 1024 = 2 ^ 53 * 2 ^ 971 := (pow_add 2 53 971)
  rw [rangeEnd, split]
  gcongr
  norm_num

/-- The double is finite if the number lies in the range, and else an infinity. -/
structure InRange (y : Float) (x : ℚ) : Prop where
  finite : x < rangeEnd → y.isFinite = true
  infinite : rangeEnd ≤ x → y.isInf = true

theorem not_isInf_of_isFinite {y : Float} (finite : y.isFinite = true) : y.isInf = false := by
  change y.toModel.unpack.isFinite = true at finite
  change y.toModel.unpack.isInf = false
  cases unpacked : y.toModel.unpack <;> rw [unpacked] at finite <;> first | rfl | cases finite

theorem isFinite_neg {x : Float} (finite : x.isFinite = true) : (-x).isFinite = true := by
  change x.toModel.unpack.isFinite = true at finite
  change (Float.ofModel (.pack x.toModel.unpack.neg)).toModel.unpack.isFinite = true
  cases unpacked : x.toModel.unpack with
  | infinity | notANumber => rw [unpacked] at finite; cases finite
  | zero sign => cases sign <;> rfl
  | finite sign m e positive =>
    have canonical : Canonical m e := .of_unpack unpacked
    change ((canonical.double (-sign)).toModel.unpack).isFinite = true
    rw [canonical.unpack_double]
    rfl

section

variable {m M : ℕ} {e E : ℤ} {x : ℚ} {accuracy : Accuracy} {sign : Sign}

theorem inRange_zero (below : x < rangeEnd) : InRange (.ofModel (.pack (.zero .positive))) x :=
  ⟨fun _ => rfl, fun above => absurd below (not_lt.mpr above)⟩

theorem inRange_infinity (above : rangeEnd ≤ x) :
    InRange (.ofModel (.pack (.infinity .positive))) x :=
  ⟨fun below => absurd below (not_lt.mpr above), fun _ => rfl⟩

theorem pack_of_overflow {positive : 0 < M} (large : 971 < E) :
    Float.Model.pack (.finite sign M E positive) = .pack (.infinity sign) := by
  have bias : Format.binary64.exponentBias = 1023 := rfl
  unfold Float.Model.pack
  congr 2
  simp only [UnpackedFloat.pack, bias]
  rw [if_pos (by omega)]

/-- A mantissa that fits is in range if its exponent is that of a double. -/
theorem inRange_finite (positive : 0 < M) (fits : M < 2 ^ 53) (full : 2 ^ 52 ≤ M ∨ E = -1074)
    (bottom : -1074 ≤ E) (below : E ≤ 971 → x < rangeEnd) (above : 971 < E → rangeEnd ≤ x) :
    InRange (.ofModel (.pack (.finite .positive M E positive))) x := by
  by_cases top : E ≤ 971
  · have canonical : Canonical M E := ⟨positive, fits, full, bottom, top⟩
    refine ⟨fun _ => ?_, fun beyond => absurd (below top) (not_lt.mpr beyond)⟩
    change (canonical.double .positive).toModel.unpack.isFinite = true
    rw [canonical.unpack_double]
    rfl
  · rw [pack_of_overflow (by omega)]
    exact inRange_infinity (above (by omega))

/-! ## Rounding -/

/-- The rounded mantissa is nearest to the number, and the even one of two. -/
theorem Stands.roundedMantissa_near {em : ExtendedMantissa} {y : ℚ} (h : Stands em y) :
    |y - em.roundedMantissa| ≤ 1 / 2 ∧
      (|y - em.roundedMantissa| = 1 / 2 → em.roundedMantissa % 2 = 0) := by
  obtain ⟨m, _ | _, _ | _⟩ := em <;>
    simp only [Stands, ExtendedMantissa.roundedMantissa, ExtendedMantissa.accuracy,
      Accuracy.roundToNearestEven] at h ⊢
  · -- the number is the mantissa
    rw [h, sub_self, abs_zero]
    norm_num
  · -- it lies in the lower half behind it
    have distance : |y - m| = y - m := abs_of_pos (by linarith)
    rw [distance]
    constructor
    · linarith
    · intro tie
      linarith
  · -- it lies in the middle
    obtain even | odd := Nat.mod_two_eq_zero_or_one m
    · rw [even, h]
      norm_num [even]
    · rw [odd, h]
      push_cast
      rw [show (m : ℚ) + 1 / 2 - (m + 1) = -(1 / 2) by ring, abs_neg]
      norm_num
      omega
  · -- it lies in the upper half
    have distance : |y - (m + 1 : ℕ)| = m + 1 - y := by
      push_cast
      rw [abs_sub_comm, abs_of_pos (by linarith)]
    rw [distance]
    constructor
    · linarith
    · intro tie
      linarith

/-- The first shift leaves a number of 53 bits, or of fewer if it is tiny. -/
theorem exists_shifted (exact : Stands (.ofMantissaAndAccuracy m accuracy) (x / 2 ^ e))
    (enough : e ≤ Format.binary64.targetExponent (totalExponent m e)) :
    ∃ em t, shiftToTargetExponent .binary64 m e accuracy = (em, t) ∧ Stands em (x / 2 ^ t) ∧
      -1074 ≤ t ∧ x / 2 ^ t < 2 ^ 53 ∧ (-1074 < t → 2 ^ 52 ≤ x / 2 ^ t) := by
  obtain ⟨lower, upper⟩ := exact.mantissa_bounds
  obtain ⟨below, above⟩ := totalExponent_bounds lower upper
  obtain ⟨em, shifted, stands⟩ := exact.shiftToExponent enough
  refine ⟨em, _, shifted, stands, ?_⟩
  rw [targetExponent_eq] at enough ⊢
  generalize target : max (totalExponent m e - 53) (-1074) = t at enough
  have unit : (0 : ℚ) < 2 ^ t := by positivity
  refine ⟨by omega, ?_, fun high => ?_⟩
  · rw [div_lt_iff₀ unit]
    calc x < 2 ^ totalExponent m e := below
      _ ≤ 2 ^ (53 + t) := zpow_le_zpow_right₀ (by norm_num) (by omega)
      _ = 2 ^ 53 * 2 ^ t := by rw [zpow_add₀ (by norm_num)]; norm_cast
  · have nonzero : m ≠ 0 := by
      rintro rfl
      simp only [totalExponent, Nat.log2_zero] at target
      omega
    rw [le_div_iff₀ unit]
    calc (2 : ℚ) ^ 52 * 2 ^ t = 2 ^ (52 + t) := by rw [zpow_add₀ (by norm_num)]; norm_cast
      _ ≤ 2 ^ (totalExponent m e - 1) := zpow_le_zpow_right₀ (by norm_num) (by omega)
      _ ≤ x := above nonzero

/-- `n` is the whole number of units `2 ^ t` that is nearest to `x`, and the even one of two. In
these units `x` has 53 bits, or fewer if there are no smaller ones. -/
structure Rounded (x : ℚ) (n t : ℤ) : Prop where
  bottom : -1074 ≤ t
  short : |x / 2 ^ t| < 2 ^ 53
  full : -1074 < t → 2 ^ 52 ≤ |x / 2 ^ t|
  near : |x / 2 ^ t - n| ≤ 1 / 2
  even : |x / 2 ^ t - n| = 1 / 2 → n % 2 = 0

/-- What comes of rounding: the zero, a mantissa that fits, or one that has become a power of two
and takes one more shift. -/
theorem roundWithAccuracy_cases (sign : Sign)
    (exact : Stands (.ofMantissaAndAccuracy m accuracy) (x / 2 ^ e))
    (enough : e ≤ Format.binary64.targetExponent (totalExponent m e)) :
    ∃ (n : ℕ) (t : ℤ), 0 ≤ x ∧ Rounded x n t ∧
      (n = 0 ∧ roundWithAccuracy .binary64 sign m e accuracy = .zero sign ∨
      (∃ positive : 0 < n, n < 2 ^ 53 ∧ (2 ^ 52 ≤ n ∨ t = -1074) ∧
        roundWithAccuracy .binary64 sign m e accuracy = .finite sign n t positive) ∨
      n = 2 ^ 53 ∧ ∃ positive : 0 < 2 ^ 52,
        roundWithAccuracy .binary64 sign m e accuracy =
          .finite sign (2 ^ 52) (t + 1) positive) := by
  obtain ⟨em, t, first, stands, bottom, short, full⟩ := exists_shifted exact enough
  obtain ⟨near, even⟩ := stands.roundedMantissa_near
  have nonneg : 0 ≤ x / 2 ^ t := (Nat.cast_nonneg em.mantissa).trans stands.bounds.1
  have rounded : Rounded x em.roundedMantissa t := by
    refine ⟨bottom, ?_, fun high => ?_, near, fun tie => ?_⟩
    · rwa [abs_of_nonneg nonneg]
    · rw [abs_of_nonneg nonneg]
      exact full high
    · exact_mod_cast even tie
  refine ⟨em.roundedMantissa, t, ?_, rounded, ?_⟩
  · have number : x / 2 ^ t * 2 ^ t = x := div_mul_cancel₀ x (by positivity)
    rw [← number]
    positivity
  have atMost : em.roundedMantissa ≤ 2 ^ 53 := by
    have : (em.roundedMantissa : ℚ) < 2 ^ 53 + 1 := by linarith [(abs_le.mp near).1]
    norm_cast at this
    omega
  obtain power | fits := atMost.eq_or_lt
  · exact .inr (.inr ⟨power, by norm_num,
      roundWithAccuracy_of_shifts (by norm_num) first (by rw [power, shift_power bottom])⟩)
  · have second := shift_of_fits fits bottom
    obtain zero | positive := Nat.eq_zero_or_pos em.roundedMantissa
    · exact .inl ⟨zero, by simp only [roundWithAccuracy, first, second, dif_pos zero]⟩
    · refine .inr (.inl ⟨positive, fits, ?_, roundWithAccuracy_of_shifts positive first second⟩)
      obtain low | high := bottom.eq_or_lt
      · exact .inr low.symm
      · left
        have : (2 : ℚ) ^ 52 < em.roundedMantissa + 1 := by
          linarith [full high, (abs_le.mp near).2]
        norm_cast at this
        omega

theorem mul_two_zpow_le {a b : ℚ} {s t : ℤ} (le : a ≤ b) (nonneg : 0 ≤ b) (up : s ≤ t) :
    a * 2 ^ s ≤ b * 2 ^ t :=
  mul_le_mul le (zpow_le_zpow_right₀ (by norm_num) up) (by positivity) nonneg

theorem rangeEnd_eq : rangeEnd = (2 ^ 53 - 1 / 2) * 2 ^ (971 : ℤ) := by rw [rangeEnd, zpow_ofNat]

/-- What is rounded to a mantissa that fits lies below the middle between the greatest one and the
next: the middle itself is rounded up, for the greatest mantissa is odd. -/
theorem lt_rangeEnd_of_fits {y : ℚ} (near : |y - M| ≤ 1 / 2)
    (even : |y - M| = 1 / 2 → M % 2 = 0) (fits : M < 2 ^ 53) (top : E ≤ 971) :
    y * 2 ^ E < rangeEnd := by
  have most : (M : ℚ) + 1 ≤ 2 ^ 53 := by exact_mod_cast fits
  have upper := (abs_le.mp near).2
  have strict : y < 2 ^ 53 - 1 / 2 := by
    refine lt_of_le_of_ne (by linarith) fun tie => ?_
    have last : (M : ℚ) = (2 ^ 53 - 1 : ℕ) := by
      push_cast
      linarith
    have := even (by rw [tie, last]; norm_num)
    norm_cast at last
    omega
  calc y * 2 ^ E < (2 ^ 53 - 1 / 2) * 2 ^ E := by gcongr
    _ ≤ (2 ^ 53 - 1 / 2) * 2 ^ (971 : ℤ) := mul_two_zpow_le le_rfl (by norm_num) top
    _ = rangeEnd := rangeEnd_eq.symm

/-- The exponents of what is rounded are those of doubles if the number is in range. -/
theorem Rounded.exponent_le {n t : ℤ} (rounded : Rounded x n t) (nonneg : 0 ≤ x)
    (below : x < rangeEnd) : t ≤ 971 ∧ (n = 2 ^ 53 → t + 1 ≤ 971) := by
  obtain ⟨-, -, full, near, -⟩ := rounded
  have number : x / 2 ^ t * 2 ^ t = x := div_mul_cancel₀ x (by positivity)
  have nonneg : 0 ≤ x / 2 ^ t := by positivity
  rw [abs_of_nonneg nonneg] at full
  generalize x / 2 ^ t = y at *
  constructor
  · by_contra! high
    have : rangeEnd ≤ x := by
      calc rangeEnd ≤ 2 ^ 1024 := rangeEnd_le_two_pow
        _ = 2 ^ 52 * 2 ^ (972 : ℤ) := by rw [zpow_ofNat, ← pow_add]
        _ ≤ y * 2 ^ t := mul_two_zpow_le (full (by omega)) nonneg (by omega)
        _ = x := number
    linarith
  · rintro rfl
    by_contra! high
    have upper : (2 : ℚ) ^ 53 - 1 / 2 ≤ y := by
      have := (abs_le.mp near).1
      push_cast at this
      linarith
    have : rangeEnd ≤ x := by
      calc rangeEnd = (2 ^ 53 - 1 / 2) * 2 ^ (971 : ℤ) := rangeEnd_eq
        _ ≤ y * 2 ^ t := mul_two_zpow_le upper nonneg (by omega)
        _ = x := number
    linarith

/-- What a number is rounded to is in range if the number is. -/
theorem Rounds.inRange {r : UnpackedFloat} (rounds : Rounds x r) :
    InRange (.ofModel (.pack r)) x := by
  obtain ⟨m, e, accuracy, rfl, exact, enough⟩ := rounds
  obtain ⟨n, t, nonneg, rounded, result⟩ := roundWithAccuracy_cases .positive exact enough
  have exponent := rounded.exponent_le nonneg
  obtain ⟨bottom, short, full, near, even⟩ := rounded
  have number : x / 2 ^ t * 2 ^ t = x := div_mul_cancel₀ x (by positivity)
  have nonneg : 0 ≤ x / 2 ^ t := by positivity
  rw [abs_of_nonneg nonneg] at short full
  push_cast at near even
  generalize x / 2 ^ t = y at *
  have below (fits : n < 2 ^ 53) (top : t ≤ 971) : x < rangeEnd := by
    rw [← number]
    exact lt_rangeEnd_of_fits near (fun tie => by exact_mod_cast even tie) fits top
  obtain ⟨rfl, zero⟩ | ⟨positive, fits, long, finite⟩ | ⟨rfl, positive, finite⟩ := result
  · have low : t ≤ 971 := by
      by_contra high
      have := full (by omega)
      norm_num [abs_of_nonneg nonneg] at near
      linarith
    rw [zero]
    exact inRange_zero (below (by norm_num) low)
  · rw [finite]
    refine inRange_finite positive fits long bottom (below fits) fun top => ?_
    by_contra! inside
    have := (exponent inside).1
    omega
  · rw [finite]
    refine inRange_finite positive (by norm_num) (.inl le_rfl) (by omega) (fun top => ?_)
      fun top => ?_
    · calc x = y * 2 ^ t := number.symm
        _ ≤ 2 ^ 53 * 2 ^ (970 : ℤ) := mul_two_zpow_le short.le (by positivity) (by omega)
        _ = 2 ^ 1023 := by rw [zpow_ofNat, ← pow_add]
        _ < rangeEnd := two_pow_lt_rangeEnd
    · by_contra! inside
      have := (exponent inside).2 (by norm_num)
      omega

/-! ## Decimals -/

theorem rangeEnd_le_decimal {units : ℕ} {exponent : ℤ} (nonzero : units ≠ 0)
    (large : 2048 < exponent) : rangeEnd ≤ units * 10 ^ exponent := by
  have one : (1 : ℚ) ≤ units := by exact_mod_cast Nat.pos_of_ne_zero nonzero
  calc rangeEnd ≤ 2 ^ 1024 := rangeEnd_le_two_pow
    _ = 2 ^ (1024 : ℤ) := (zpow_ofNat 2 1024).symm
    _ ≤ 2 ^ exponent := zpow_le_zpow_right₀ (by norm_num) (by omega)
    _ ≤ 10 ^ exponent := zpow_le_zpow_left₀ (by omega) (by norm_num) (by norm_num)
    _ ≤ units * 10 ^ exponent := le_mul_of_one_le_left (by positivity) one

theorem decimal_lt_rangeEnd {units : ℕ} {exponent : ℤ}
    (small : exponent < -(2048 + units.log2 : ℤ)) : units * 10 ^ exponent < rangeEnd := by
  have log : (units : ℚ) < 2 ^ (units.log2 + 1) := by exact_mod_cast Nat.lt_log2_self
  calc (units * 10 ^ exponent : ℚ) < 2 ^ (units.log2 + 1) * 10 ^ exponent := by gcongr
    _ ≤ 2 ^ (units.log2 + 1) * 2 ^ exponent := by
      gcongr
      exact ten_zpow_le (by omega)
    _ = 2 ^ ((units.log2 + 1 : ℕ) + exponent) := by
      rw [zpow_add₀ (by norm_num), zpow_natCast]
    _ ≤ 2 ^ (1023 : ℤ) := zpow_le_zpow_right₀ (by norm_num) (by omega)
    _ = 2 ^ 1023 := zpow_ofNat 2 1023
    _ < rangeEnd := two_pow_lt_rangeEnd

/-- A decimal is read as a finite double if it lies in the range, and else as an infinity. -/
theorem inRange_ofDecimal (units : ℕ) (exponent : ℤ) :
    InRange (ofDecimal units exponent) (units * 10 ^ exponent) := by
  rw [ofDecimal, Float.Model.ofScientific]
  by_cases zero : units = 0
  · subst zero
    rw [UnpackedFloat.ofScientific, dif_pos rfl, Nat.cast_zero, zero_mul]
    exact inRange_zero (by norm_num [rangeEnd])
  by_cases large : 2048 < exponent
  · rw [UnpackedFloat.ofScientific, dif_neg zero, if_pos (by norm_num; omega)]
    exact inRange_infinity (rangeEnd_le_decimal zero large)
  by_cases small : exponent < -(2048 + units.log2 : ℤ)
  · rw [UnpackedFloat.ofScientific, dif_neg zero, if_neg (by norm_num; omega),
      if_pos (by norm_num; omega)]
    exact inRange_zero (decimal_lt_rangeEnd small)
  exact (rounds_ofScientific zero (by omega) (by omega)).inRange

theorem isInf_ofDecimal_iff (units : ℕ) (exponent : ℤ) :
    (ofDecimal units exponent).isInf = false ↔ units * 10 ^ exponent < rangeEnd := by
  have range := inRange_ofDecimal units exponent
  constructor
  · intro notInf
    by_contra above
    rw [range.infinite (not_lt.mp above)] at notInf
    cases notInf
  · exact fun below => not_isInf_of_isFinite (range.finite below)

end

end BraceScript.Number

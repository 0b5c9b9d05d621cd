-- Rounding to doubles, said about exact numbers: whatever lies nearest to a
-- double is rounded to it, however the number comes in (as a product, a
-- quotient or a mantissa with too many bits).
import BraceScript.Number.Reading
import Mathlib

namespace BraceScript.Number

open Float.Model UnpackedFloat

/-! ## Mantissas with two more bits -/

/-- The mantissa, its half bit and whether there is more after it stand for the number. -/
def Stands (em : ExtendedMantissa) (y : ℚ) : Prop :=
  match em with
  | ⟨m, false, false⟩ => y = m
  | ⟨m, false, true⟩ => m < y ∧ y < m + 1 / 2
  | ⟨m, true, false⟩ => y = m + 1 / 2
  | ⟨m, true, true⟩ => m + 1 / 2 < y ∧ y < m + 1

namespace Stands

variable {em : ExtendedMantissa} {y : ℚ} {n : ℕ}

theorem bounds (h : Stands em y) : em.mantissa ≤ y ∧ y < em.mantissa + 1 := by
  obtain ⟨m, _ | _, _ | _⟩ := em <;> simp only [Stands] at h ⊢ <;> constructor <;> linarith

theorem shiftRightOne (h : Stands em y) : Stands em.shiftRightOne (y / 2) := by
  obtain ⟨m, half, more⟩ := em
  have halves : ((m / 2 : ℕ) : ℚ) * 2 + (m % 2 : ℕ) = m := by
    exact_mod_cast Nat.div_add_mod' m 2
  obtain odd | odd : m % 2 = 0 ∨ m % 2 = 1 := by omega
  all_goals
    rw [odd] at halves
    push_cast at halves
    cases half <;> cases more <;>
      simp [Stands, ExtendedMantissa.shiftRightOne, odd] at h ⊢ <;>
      grind

theorem shiftRight (h : Stands em y) (k : ℕ) : Stands (em >>> k) (y / 2 ^ k) := by
  induction k with
  | zero => rwa [pow_zero, div_one]
  | succ k ih =>
    have step := ih.shiftRightOne
    rwa [div_div, ← pow_succ] at step

/-- The nearest whole number, or the even one of two. -/
theorem roundedMantissa_eq (h : Stands em y) (near : |y - n| ≤ 1 / 2)
    (even : |y - n| = 1 / 2 → n % 2 = 0) : em.roundedMantissa = n := by
  obtain ⟨low, high⟩ := abs_le.mp near
  obtain ⟨m, _ | _, _ | _⟩ := em <;>
    simp only [Stands, ExtendedMantissa.roundedMantissa, ExtendedMantissa.accuracy,
      Accuracy.roundToNearestEven] at h ⊢
  · have below : (n : ℚ) < m + 1 := by linarith
    have above : (m : ℚ) < n + 1 := by linarith
    norm_cast at below above
    omega
  · have below : (n : ℚ) < m + 1 := by linarith
    have above : (m : ℚ) < n + 1 := by linarith
    norm_cast at below above
    omega
  · have below : (n : ℚ) ≤ m + 1 := by linarith
    have above : (m : ℚ) ≤ n := by linarith
    norm_cast at below above
    obtain rfl | rfl : n = m ∨ n = m + 1 := by omega
    · have := even (by rw [h]; norm_num)
      omega
    · have := even (by rw [h]; push_cast; norm_num)
      omega
  · have below : (n : ℚ) < m + 2 := by linarith
    have above : (m : ℚ) < n := by linarith
    norm_cast at below above
    omega

end Stands

/-! ## Doubles and the numbers nearest to them -/

/-- A mantissa and an exponent as the finite doubles have them, but for zero. -/
structure Canonical (mantissa : ℕ) (exponent : ℤ) : Prop where
  positive : 0 < mantissa
  fits : mantissa < 2 ^ 53
  full : 2 ^ 52 ≤ mantissa ∨ exponent = -1074
  bottom : -1074 ≤ exponent
  top : exponent ≤ 971

/-- Half of the gap to the next double below, in units of the last place. -/
def halfBelow (mantissa : ℕ) (exponent : ℤ) : ℚ :=
  if mantissa = 2 ^ 52 ∧ -1074 < exponent then 1 / 4 else 1 / 2

theorem halfBelow_pos (mantissa : ℕ) (exponent : ℤ) : 0 < halfBelow mantissa exponent := by
  unfold halfBelow
  split <;> norm_num

theorem halfBelow_le (mantissa : ℕ) (exponent : ℤ) : halfBelow mantissa exponent ≤ 1 / 2 := by
  unfold halfBelow
  split <;> norm_num

/-- No double is nearer to the number than `mantissa * 2 ^ exponent`, and one
that is as near has an odd mantissa. -/
structure Near (mantissa : ℕ) (exponent : ℤ) (x : ℚ) : Prop where
  lower : mantissa - halfBelow mantissa exponent ≤ x / 2 ^ exponent
  upper : x / 2 ^ exponent ≤ mantissa + 1 / 2
  even : x / 2 ^ exponent = mantissa - halfBelow mantissa exponent ∨
    x / 2 ^ exponent = mantissa + 1 / 2 → mantissa % 2 = 0

/-- Nothing is nearer to a double than its own number. -/
theorem near_self (m : ℕ) (e : ℤ) : Near m e (m * 2 ^ e) := by
  have quotient : (m * 2 ^ e : ℚ) / 2 ^ e = m := mul_div_cancel_right₀ _ (by positivity)
  have half := halfBelow_pos m e
  refine ⟨?_, ?_, ?_⟩ <;> rw [quotient]
  · linarith
  · linarith
  · rintro (tie | tie) <;> linarith

theorem targetExponent_eq (total : ℤ) :
    Format.binary64.targetExponent total = max (total - 53) (-1074) := rfl

theorem totalExponent_bounds {m : ℕ} {e : ℤ} {x : ℚ} (lower : m ≤ x / 2 ^ e)
    (upper : x / 2 ^ e < m + 1) :
    x < 2 ^ totalExponent m e ∧ (m ≠ 0 → 2 ^ (totalExponent m e - 1) ≤ x) := by
  have unit : (0 : ℚ) < 2 ^ e := by positivity
  rw [le_div_iff₀ unit] at lower
  rw [div_lt_iff₀ unit] at upper
  constructor
  · have log : ((m : ℚ) + 1) ≤ 2 ^ (m.log2 + 1) := by exact_mod_cast Nat.lt_log2_self (n := m)
    calc x < (m + 1) * 2 ^ e := upper
      _ ≤ 2 ^ (m.log2 + 1) * 2 ^ e := by gcongr
      _ = 2 ^ totalExponent m e := by
        rw [totalExponent, zpow_add₀ (by norm_num : (2 : ℚ) ≠ 0)]
        norm_cast
  · intro nonzero
    have log : (2 : ℚ) ^ m.log2 ≤ m := by exact_mod_cast Nat.log2_self_le nonzero
    calc (2 : ℚ) ^ (totalExponent m e - 1) = 2 ^ m.log2 * 2 ^ e := by
          rw [totalExponent, show (m.log2 : ℤ) + 1 + e - 1 = m.log2 + e by ring,
            zpow_add₀ (by norm_num : (2 : ℚ) ≠ 0)]
          norm_cast
      _ ≤ m * 2 ^ e := by gcongr
      _ ≤ x := lower

theorem Stands.shiftToExponent {m : ℕ} {e t : ℤ} {accuracy : Accuracy} {x : ℚ}
    (h : Stands (.ofMantissaAndAccuracy m accuracy) (x / 2 ^ e)) (le : e ≤ t) :
    ∃ em, shiftToExponent m e accuracy t = (em, t) ∧ Stands em (x / 2 ^ t) := by
  refine ⟨ExtendedMantissa.ofMantissaAndAccuracy m accuracy >>> (t - e).toNat, ?_, ?_⟩
  · simp only [UnpackedFloat.shiftToExponent, Prod.mk.injEq, true_and]
    omega
  · have shifted := h.shiftRight (t - e).toNat
    have power : (2 : ℚ) ^ e * 2 ^ (t - e).toNat = 2 ^ t := by
      rw [← zpow_natCast, ← zpow_add₀ (by norm_num)]
      congr 1
      omega
    rwa [div_div, power] at shifted

theorem Stands.mantissa_bounds {m : ℕ} {accuracy : Accuracy} {y : ℚ}
    (h : Stands (.ofMantissaAndAccuracy m accuracy) y) : m ≤ y ∧ y < m + 1 := by
  have kept : (ExtendedMantissa.ofMantissaAndAccuracy m accuracy).mantissa = m := by
    rcases accuracy with _ | _ | _ | _ <;> rfl
  have bounds := h.bounds
  rwa [kept] at bounds

/-- A mantissa that fits is not shifted again after it has been rounded. -/
theorem shift_of_fits {m : ℕ} {e : ℤ} (fits : m < 2 ^ 53) (bottom : -1074 ≤ e) :
    shiftToTargetExponent .binary64 m e .exact = (⟨m, false, false⟩, e) := by
  have short : m.log2 ≤ 52 := by
    obtain rfl | positive := Nat.eq_zero_or_pos m
    · exact Nat.zero_le 52
    · exact Nat.lt_succ_iff.mp ((Nat.log2_lt positive.ne').mpr fits)
  have none : (Format.binary64.targetExponent (totalExponent m e) - e).toNat = 0 := by
    rw [targetExponent_eq, totalExponent]
    omega
  simp only [shiftToTargetExponent, UnpackedFloat.shiftToExponent, none]
  simp [ExtendedMantissa.ofMantissaAndAccuracy]
  rfl

/-- Rounding up to a power of two makes the mantissa one bit too long. -/
theorem shift_power {e : ℤ} (bottom : -1074 ≤ e) :
    shiftToTargetExponent .binary64 (2 ^ 53) e .exact = (⟨2 ^ 52, false, false⟩, e + 1) := by
  have target : Format.binary64.targetExponent (totalExponent (2 ^ 53) e) = e + 1 := by
    rw [targetExponent_eq, totalExponent, Nat.log2_two_pow]
    omega
  simp only [shiftToTargetExponent, target, UnpackedFloat.shiftToExponent]
  have one : (e + 1 - e).toNat = 1 := by omega
  rw [one]
  rfl

/-! ## The doubles themselves -/

theorem Canonical.of_unpack {b : BitVec Format.binary64.numBits} {sign : Sign} {m : ℕ} {e : ℤ}
    {positive : 0 < m} (h : unpack .binary64 b = .finite sign m e positive) : Canonical m e := by
  have bias : Format.binary64.exponentBias = 1023 := rfl
  have small : (unpackMantissa b).toNat < 2 ^ 52 := (unpackMantissa b).isLt
  have short : (unpackExponent b).toNat < 2 ^ 11 := (unpackExponent b).isLt
  unfold UnpackedFloat.unpack at h
  simp only [bias] at h
  split at h
  · split at h <;> cases h
  · next notLast =>
    have notLast : (unpackExponent b).toNat ≠ 2047 :=
      fun eq => notLast (BitVec.eq_of_toNat_eq eq)
    split at h
    · next first =>
      split at h
      · cases h
      · cases h
        refine ⟨‹_›, by omega, .inr ?_, ?_, ?_⟩ <;> rw [first] <;> simp
    · next notFirst =>
      have notFirst : (unpackExponent b).toNat ≠ 0 :=
        fun eq => notFirst (BitVec.eq_of_toNat_eq eq)
      have mantissa : (1#1 ++ unpackMantissa b).toNat = 2 ^ 52 + (unpackMantissa b).toNat := by
        rw [BitVec.toNat_append, ← Nat.shiftLeft_add_eq_or_of_lt small]
        rfl
      cases h
      refine ⟨‹_›, by omega, .inl (by omega), by omega, by omega⟩

theorem Canonical.unpack_pack {m : ℕ} {e : ℤ} (canonical : Canonical m e) (sign : Sign) :
    unpack .binary64 (pack .binary64 (.finite sign m e canonical.positive)) =
      .finite sign m e canonical.positive := by
  obtain ⟨positive, fits, full, bottom, top⟩ := canonical
  have bias : Format.binary64.exponentBias = 1023 := rfl
  have bits : Format.binary64.mantissaBits = 53 := rfl
  simp only [UnpackedFloat.pack, bias, bits]
  rw [if_neg (by omega)]
  split
  · next normal =>
    have long : 2 ^ 52 ≤ m := (Nat.le_log2 positive.ne').mp (by omega)
    have exponent : (BitVec.ofNat 11 (e + 1023 + 52).toNat).toNat = (e + 1075).toNat := by
      rw [BitVec.toNat_ofNat]
      omega
    have mantissa : (1#1 ++ BitVec.ofNat 52 m).toNat = m := by
      rw [BitVec.toNat_append, ← Nat.shiftLeft_add_eq_or_of_lt (BitVec.isLt _),
        BitVec.toNat_ofNat, BitVec.toNat_ofNat]
      simp
      omega
    unfold UnpackedFloat.unpack
    simp only [unpackExponent_packComponents, unpackMantissa_packComponents,
      unpackSign_packComponents, Sign.ofBitVec_toBitVec, bias]
    rw [if_neg, if_neg]
    · congr 1
      push_cast
      omega
    · intro zero
      have := congrArg BitVec.toNat zero
      simp at this
      omega
    · intro last
      have := congrArg BitVec.toNat last
      simp at this
      omega
  · next subnormal =>
    have short : m < 2 ^ 52 := by
      by_contra! long
      have := (Nat.le_log2 positive.ne').mpr long
      have := (Nat.log2_lt positive.ne').mpr fits
      omega
    have low : e = -1074 := full.resolve_left (by omega)
    unfold UnpackedFloat.unpack
    simp only [unpackExponent_packComponents, unpackMantissa_packComponents,
      unpackSign_packComponents, Sign.ofBitVec_toBitVec, bias]
    have mantissa : (BitVec.ofNat 52 m).toNat = m := by
      rw [BitVec.toNat_ofNat]
      omega
    rw [if_neg (by decide), if_pos trivial, dif_neg]
    · congr 1
      rw [low]
      rfl
    · intro zero
      have := congrArg BitVec.toNat zero
      rw [mantissa] at this
      exact positive.ne' this

/-- The sign of numbers that are, or are not, below zero. -/
def signOf (negative : Bool) : Sign := if negative then .negative else .positive

theorem signOf_isNegative (sign : Sign) : signOf (isNegative sign) = sign := by
  cases sign <;> rfl

theorem ofModel_pack_unpack (x : Float) : .ofModel (.pack x.toModel.unpack) = x := by
  obtain ⟨⟨⟨b⟩, valid⟩⟩ := x
  simp only [Float.Model.pack, Float.Model.unpack, pack_unpack_of_valid valid]

/-- The double with the given sign. -/
def Canonical.double {m : ℕ} {e : ℤ} (canonical : Canonical m e) (sign : Sign) : Float :=
  .ofModel (.pack (.finite sign m e canonical.positive))

section

variable {m : ℕ} {e : ℤ}

theorem Canonical.unpack_double (canonical : Canonical m e) (sign : Sign) :
    (canonical.double sign).toModel.unpack = .finite sign m e canonical.positive :=
  canonical.unpack_pack sign

theorem Canonical.isInf_double (canonical : Canonical m e) (sign : Sign) :
    (canonical.double sign).isInf = false := by
  rw [Float.isInf, Float.Model.isInf, canonical.unpack_double]
  rfl

theorem Canonical.neg_double (canonical : Canonical m e) :
    -canonical.double .positive = canonical.double .negative := by
  change Float.ofModel (.pack (canonical.double .positive).toModel.unpack.neg) = _
  rw [canonical.unpack_double]
  rfl

/-- Only the two zeros are equal to zero. -/
theorem beq_zero_iff {x : Float} : (x == 0.0) = true ↔ ∃ sign, x.toModel.unpack = .zero sign := by
  have zero : (0.0 : Float).toModel.unpack = .zero .positive := rfl
  change x.toModel.unpack.beq (0.0 : Float).toModel.unpack = true ↔ _
  rw [zero]
  cases x.toModel.unpack with
  | infinity sign => cases sign <;> simp <;> decide
  | notANumber => simp; decide
  | zero sign => cases sign <;> simp <;> decide
  | finite sign m e positive => cases sign <;> simp [UnpackedFloat.beq, UnpackedFloat.compare]

theorem beq_zero_of_exact {x : Float} {negative : Bool}
    (h : Exact.ofFloat x = .finite negative m e) : (x == 0.0) = true ↔ m = 0 := by
  rw [beq_zero_iff]
  unfold Exact.ofFloat at h
  split at h
  · cases h
  · cases h
  · next sign unpacked =>
    cases h
    exact ⟨fun _ => rfl, fun _ => ⟨sign, unpacked⟩⟩
  · next sign m e positive unpacked =>
    cases h
    rw [unpacked]
    simp [positive.ne']

/-- A finite double other than zero, from its exact form. -/
theorem exists_double_of_exact {x : Float} {negative : Bool}
    (h : Exact.ofFloat x = .finite negative m e) (nonzero : m ≠ 0) :
    ∃ canonical : Canonical m e, x = canonical.double (signOf negative) := by
  have packed := ofModel_pack_unpack x
  unfold Exact.ofFloat at h
  split at h
  · cases h
  · cases h
  · cases h
    exact absurd rfl nonzero
  · next sign m e positive unpacked =>
    cases h
    rw [unpacked] at packed
    exact ⟨.of_unpack unpacked, by rw [Canonical.double, signOf_isNegative, packed]⟩

end

/-! ## Rounding -/

section

variable {m M : ℕ} {e E : ℤ} {x : ℚ} {accuracy : Accuracy} {sign : Sign}

theorem Canonical.lt (canonical : Canonical M E) (near : Near M E x) : x < 2 ^ (53 + E) := by
  have unit : (0 : ℚ) < 2 ^ E := by positivity
  have fits : (M : ℚ) + 1 ≤ 2 ^ 53 := by exact_mod_cast canonical.fits
  have upper := near.upper
  rw [div_le_iff₀ unit] at upper
  calc x ≤ (M + 1 / 2) * 2 ^ E := upper
    _ < 2 ^ 53 * 2 ^ E := by gcongr; linarith
    _ = 2 ^ (53 + E) := by rw [zpow_add₀ (by norm_num : (2 : ℚ) ≠ 0)]; norm_cast

theorem Canonical.gt (canonical : Canonical M E) (near : Near M E x) (above : -1074 < E) :
    2 ^ (51 + E) < x := by
  have unit : (0 : ℚ) < 2 ^ E := by positivity
  have full : (2 : ℚ) ^ 52 ≤ M := by
    exact_mod_cast canonical.full.resolve_right (by omega)
  have lower := near.lower
  have half := halfBelow_le M E
  rw [le_div_iff₀ unit] at lower
  calc (2 : ℚ) ^ (51 + E) = 2 ^ 51 * 2 ^ E := by
        rw [zpow_add₀ (by norm_num : (2 : ℚ) ≠ 0)]; norm_cast
    _ < (M - halfBelow M E) * 2 ^ E := by gcongr; linarith
    _ ≤ x := lower

/-- The two shifts around the rounding: the first one brings the exponent to
that of the result, or to one below if the rounding makes a power of two. -/
theorem roundWithAccuracy_of_shifts {em : ExtendedMantissa} {t : ℤ} (positive : 0 < M)
    (first : shiftToTargetExponent .binary64 m e accuracy = (em, t))
    (second : shiftToTargetExponent .binary64 em.roundedMantissa t .exact =
      (⟨M, false, false⟩, E)) :
    roundWithAccuracy .binary64 sign m e accuracy = .finite sign M E positive := by
  simp only [roundWithAccuracy, first, second, dif_neg positive.ne']

theorem Canonical.target_cases (canonical : Canonical M E) (near : Near M E x)
    (lower : m ≤ x / 2 ^ e) (upper : x / 2 ^ e < m + 1)
    (enough : e ≤ Format.binary64.targetExponent (totalExponent m e)) :
    Format.binary64.targetExponent (totalExponent m e) = E ∨
      Format.binary64.targetExponent (totalExponent m e) = E - 1 ∧ -1074 < E ∧
        x < 2 ^ (52 + E) := by
  rw [targetExponent_eq] at enough ⊢
  obtain ⟨below, above⟩ := totalExponent_bounds lower upper
  have bottom := canonical.bottom
  have total_le : totalExponent m e ≤ 53 + E ∨ totalExponent m e ≤ -1021 := by
    by_cases zero : m = 0
    · subst zero
      simp only [totalExponent, Nat.log2_zero] at enough ⊢
      omega
    · have := (above zero).trans_lt (canonical.lt near)
      rw [zpow_lt_zpow_iff_right₀ (by norm_num)] at this
      omega
  by_cases low : E = -1074
  · left
    omega
  · have := (canonical.gt near (by omega)).trans below
    rw [zpow_lt_zpow_iff_right₀ (by norm_num)] at this
    by_cases same : totalExponent m e = 53 + E
    · left
      omega
    · right
      refine ⟨by omega, by omega, below.trans_le ?_⟩
      exact zpow_le_zpow_right₀ (by norm_num) (by omega)

/-- A number nearest to a double is rounded to it, when none of the bits that
the double has are missing from the mantissa. -/
theorem roundWithAccuracy_of_near (canonical : Canonical M E) (near : Near M E x)
    (exact : Stands (.ofMantissaAndAccuracy m accuracy) (x / 2 ^ e))
    (enough : e ≤ Format.binary64.targetExponent (totalExponent m e)) :
    roundWithAccuracy .binary64 sign m e accuracy = .finite sign M E canonical.positive := by
  obtain ⟨lower, upper⟩ := exact.mantissa_bounds
  obtain ⟨em, first, stands⟩ := exact.shiftToExponent enough
  have half := halfBelow_le M E
  obtain same | ⟨next, above, small⟩ := canonical.target_cases near lower upper enough
  · rw [same] at first stands
    have rounded : em.roundedMantissa = M := by
      refine stands.roundedMantissa_eq ?_ ?_
      · rw [abs_le]
        constructor <;> linarith [near.lower, near.upper]
      · intro tie
        apply near.even
        obtain up | down := eq_or_eq_neg_of_abs_eq tie
        · right
          linarith
        · left
          linarith [near.lower]
    exact roundWithAccuracy_of_shifts canonical.positive
      (by rw [shiftToTargetExponent, same, first])
      (by rw [rounded, shift_of_fits canonical.fits canonical.bottom])
  · -- The number lies below a power of two, where the doubles are twice as close.
    rw [next] at first stands
    have unit : (0 : ℚ) < 2 ^ E := by positivity
    have below : x / 2 ^ E < 2 ^ 52 := by
      rw [div_lt_iff₀ unit]
      calc x < 2 ^ (52 + E) := small
        _ = 2 ^ 52 * 2 ^ E := by rw [zpow_add₀ (by norm_num : (2 : ℚ) ≠ 0)]; norm_cast
    have power : M = 2 ^ 52 := by
      have full : 2 ^ 52 ≤ M := canonical.full.resolve_right (by omega)
      have : (M : ℚ) < 2 ^ 52 + 1 := by linarith [near.lower]
      norm_cast at this
      omega
    subst power
    have quarter : halfBelow (2 ^ 52) E = 1 / 4 := if_pos ⟨rfl, above⟩
    have doubled : x / 2 ^ (E - 1) = 2 * (x / 2 ^ E) := by
      rw [zpow_sub_one₀ (by norm_num)]
      field_simp
    have near_lower := near.lower
    rw [quarter] at near_lower
    push_cast at near_lower
    have rounded : em.roundedMantissa = 2 ^ 53 := by
      refine stands.roundedMantissa_eq ?_ fun _ => by norm_num
      rw [doubled, abs_le]
      push_cast
      constructor <;> linarith
    refine roundWithAccuracy_of_shifts canonical.positive
      (by rw [shiftToTargetExponent, next, first]) ?_
    rw [rounded, shift_power (by omega), Int.sub_add_cancel]

/-! ## The operations that round -/

theorem stands_exact (m : ℕ) : Stands (.ofMantissaAndAccuracy m .exact) m := rfl

theorem stands_fraction (m : ℕ) {d : ℕ} (positive : 0 < d) :
    Stands (.ofMantissaAndAccuracy (m / d) (accuracyOfFraction (m % d) d)) (m / d : ℚ) := by
  have unit : (0 : ℚ) < d := by exact_mod_cast positive
  have parts : (m : ℚ) / d = (m / d : ℕ) + (m % d : ℕ) / d := by
    rw [div_eq_iff unit.ne', add_mul, div_mul_cancel₀ _ unit.ne']
    exact_mod_cast (Nat.div_add_mod' m d).symm
  have small : m % d < d := Nat.mod_lt m positive
  rw [parts]
  generalize m / d = q, m % d = r at small
  have upper : (r : ℚ) / d < 1 := by rw [div_lt_one unit]; exact_mod_cast small
  unfold accuracyOfFraction
  split
  · next zero => simp [Stands, ExtendedMantissa.ofMantissaAndAccuracy, zero]
  · next nonzero =>
    have above : (0 : ℚ) < r / d := by positivity
    obtain less | tie | more := lt_trichotomy (2 * r) d
    · have half : (r : ℚ) / d < 1 / 2 := by
        rw [div_lt_div_iff₀ unit two_pos]
        norm_cast
        omega
      rw [compare_lt_iff_lt.mpr less]
      simp only [Stands, ExtendedMantissa.ofMantissaAndAccuracy]
      constructor <;> linarith
    · have half : (r : ℚ) / d = 1 / 2 := by
        rw [div_eq_div_iff unit.ne' two_ne_zero]
        norm_cast
        omega
      rw [compare_eq_iff_eq.mpr tie]
      simp only [Stands, ExtendedMantissa.ofMantissaAndAccuracy, half]
    · have half : 1 / 2 < (r : ℚ) / d := by
        rw [div_lt_div_iff₀ two_pos unit]
        norm_cast
        omega
      rw [compare_gt_iff_gt.mpr more]
      simp only [Stands, ExtendedMantissa.ofMantissaAndAccuracy]
      constructor <;> linarith

theorem log2_shiftLeft {m : ℕ} (nonzero : m ≠ 0) (k : ℕ) : (m <<< k).log2 = m.log2 + k := by
  induction k with
  | zero => rfl
  | succ k ih =>
    rw [Nat.shiftLeft_succ, Nat.log2_two_mul (by simpa [Nat.shiftLeft_eq_zero_iff]), ih, add_assoc]

theorem totalExponent_shiftLeft {m : ℕ} (nonzero : m ≠ 0) (k : ℕ) (e : ℤ) :
    totalExponent (m <<< k) (e - k) = totalExponent m e := by
  rw [totalExponent, totalExponent, log2_shiftLeft nonzero]
  push_cast
  ring

/-- The mantissa is made long enough before it is rounded. -/
theorem round_lengthened (sign : Sign) (e : ℤ) (positive : 0 < m) :
    ∃ m' e', UnpackedFloat.round .binary64 sign m e =
        roundWithAccuracy .binary64 sign m' e' .exact ∧
      Stands (.ofMantissaAndAccuracy m' .exact) (m * 2 ^ e / 2 ^ e') ∧
      e' ≤ Format.binary64.targetExponent (totalExponent m' e') := by
  simp only [UnpackedFloat.round, decreaseExponent]
  generalize lowered : (e - Format.binary64.targetExponent (totalExponent m e)).toNat = k
  have same := totalExponent_shiftLeft positive.ne' k e
  refine ⟨_, _, rfl, ?_, by rw [same]; omega⟩
  have exact : (m * 2 ^ e : ℚ) / 2 ^ (e - k) = (m <<< k : ℕ) := by
    rw [mul_div_assoc, ← zpow_sub₀ (by norm_num), sub_sub_cancel, Nat.shiftLeft_eq]
    norm_cast
  rw [exact]
  exact stands_exact _

/-! ## Decimals -/

theorem Near.half_le (canonical : Canonical M E) (near : Near M E x) : 2 ^ (-1075 : ℤ) ≤ x := by
  have unit : (0 : ℚ) < 2 ^ E := by positivity
  have one : (1 : ℚ) ≤ M := by exact_mod_cast canonical.positive
  have half := halfBelow_le M E
  have lower := near.lower
  rw [le_div_iff₀ unit] at lower
  calc (2 : ℚ) ^ (-1075 : ℤ) ≤ 2 ^ (-1 + E) :=
        zpow_le_zpow_right₀ (by norm_num) (by have := canonical.bottom; omega)
    _ = 1 / 2 * 2 ^ E := by rw [zpow_add₀ (by norm_num)]; norm_num
    _ ≤ (M - halfBelow M E) * 2 ^ E := by gcongr; linarith
    _ ≤ x := lower

theorem ten_zpow_le {k : ℤ} (nonpos : k ≤ 0) : (10 : ℚ) ^ k ≤ 2 ^ k := by
  obtain ⟨n, rfl⟩ : ∃ n : ℕ, k = -n := ⟨(-k).toNat, by omega⟩
  rw [zpow_neg, zpow_neg, zpow_natCast, zpow_natCast]
  gcongr
  norm_num

/-- The exponents of the decimals nearest to doubles are in the range that is
computed with. -/
theorem Near.exponent_bounds {units : ℕ} {exponent : ℤ} (canonical : Canonical M E)
    (near : Near M E (units * 10 ^ exponent)) :
    units ≠ 0 ∧ exponent ≤ 2048 ∧ -(2048 + units.log2 : ℤ) ≤ exponent := by
  have bottom := near.half_le canonical
  have top : (units * 10 ^ exponent : ℚ) < 2 ^ (1024 : ℤ) :=
    (canonical.lt near).trans_le
      (zpow_le_zpow_right₀ (by norm_num) (by have := canonical.top; omega))
  have nonzero : units ≠ 0 := by
    rintro rfl
    rw [Nat.cast_zero, zero_mul] at bottom
    exact absurd bottom (not_le.mpr (by positivity))
  refine ⟨nonzero, ?_, ?_⟩
  · by_contra! large
    have one : (1 : ℚ) ≤ units := by exact_mod_cast Nat.pos_of_ne_zero nonzero
    have : (2 : ℚ) ^ (1024 : ℤ) ≤ units * 10 ^ exponent := by
      calc (2 : ℚ) ^ (1024 : ℤ) ≤ 2 ^ exponent := zpow_le_zpow_right₀ (by norm_num) (by omega)
        _ ≤ 10 ^ exponent := zpow_le_zpow_left₀ (by omega) (by norm_num) (by norm_num)
        _ ≤ units * 10 ^ exponent := le_mul_of_one_le_left (by positivity) one
    linarith
  · by_contra! small
    have log : (units : ℚ) < 2 ^ (units.log2 + 1) := by exact_mod_cast Nat.lt_log2_self
    have : (units * 10 ^ exponent : ℚ) < 2 ^ (-1075 : ℤ) := by
      calc (units * 10 ^ exponent : ℚ) < 2 ^ (units.log2 + 1) * 10 ^ exponent := by gcongr
        _ ≤ 2 ^ (units.log2 + 1) * 2 ^ exponent := by
          gcongr
          exact ten_zpow_le (by omega)
        _ = 2 ^ ((units.log2 + 1 : ℕ) + exponent) := by
          rw [zpow_add₀ (by norm_num), zpow_natCast]
        _ ≤ 2 ^ (-1075 : ℤ) := zpow_le_zpow_right₀ (by norm_num) (by omega)
    linarith

/-- The positive number is rounded, with all the bits that count. -/
def Rounds (x : ℚ) (r : UnpackedFloat) : Prop :=
  ∃ m e accuracy, r = roundWithAccuracy .binary64 .positive m e accuracy ∧
    Stands (.ofMantissaAndAccuracy m accuracy) (x / 2 ^ e) ∧
    e ≤ Format.binary64.targetExponent (totalExponent m e)

theorem rounds_mul {a b : ℕ} {k : ℤ} (positive : 0 < a) (positive' : 0 < b)
    (enough : 2 ^ 53 ≤ a) : Rounds (a * b * 2 ^ k)
      (mul .binary64 (.finite .positive a k positive) (.finite .positive b 0 positive')) := by
  refine ⟨a * b, k + 0, .exact, rfl, ?_, ?_⟩
  · have exact : (a * b * 2 ^ k : ℚ) / 2 ^ (k + 0) = (a * b : ℕ) := by
      rw [add_zero, mul_div_assoc, div_self (by positivity), mul_one]
      norm_cast
    rw [exact]
    exact stands_exact _
  · have long : 53 ≤ (a * b).log2 := by
      rw [Nat.le_log2 (by positivity)]
      exact enough.trans (Nat.le_mul_of_pos_right a positive')
    rw [targetExponent_eq, totalExponent]
    omega

theorem rounds_div {a b : ℕ} (positive : 0 < a) (positive' : 0 < b) : Rounds (a / b)
    (div .binary64 (.finite .positive a 0 positive) (.finite .positive b 0 positive')) := by
  simp only [UnpackedFloat.div, divCore, sub_zero, zero_sub]
  generalize lowered : min 0 (Format.binary64.targetExponent
    (totalExponent a 0 - totalExponent b 0)) = t
  rw [targetExponent_eq, totalExponent, totalExponent] at lowered
  refine ⟨_, t, _, rfl, ?_, ?_⟩
  · have exact : (a / b : ℚ) / 2 ^ t = (a <<< (-t).toNat : ℕ) / b := by
      have power : (2 : ℚ) ^ t = (2 ^ (-t).toNat)⁻¹ := by
        rw [← zpow_natCast, ← zpow_neg]
        congr 1
        omega
      rw [power, div_inv_eq_mul, div_mul_eq_mul_div, Nat.shiftLeft_eq]
      norm_cast
    rw [exact]
    exact stands_fraction _ positive'
  · rw [targetExponent_eq, totalExponent]
    by_cases low : t ≤ -1074
    · omega
    · -- The quotient has at least 53 bits.
      have long : 52 ≤ (a <<< (-t).toNat / b).log2 := by
        have quotient : 2 ^ 52 ≤ a <<< (-t).toNat / b := by
          rw [Nat.le_div_iff_mul_le positive', Nat.shiftLeft_eq]
          calc 2 ^ 52 * b ≤ 2 ^ 52 * 2 ^ (b.log2 + 1) := by gcongr; exact Nat.lt_log2_self.le
            _ = 2 ^ (b.log2 + 53) := by ring
            _ ≤ 2 ^ (a.log2 + (-t).toNat) := Nat.pow_le_pow_right two_pos (by omega)
            _ = 2 ^ a.log2 * 2 ^ (-t).toNat := by rw [pow_add]
            _ ≤ a * 2 ^ (-t).toNat := by gcongr; exact Nat.log2_self_le positive.ne'
        rwa [Nat.le_log2 (by omega)]
      omega

/-- A decimal with an exponent in the range that is computed with. -/
theorem rounds_ofScientific {units : ℕ} {exponent : ℤ} (nonzero : units ≠ 0)
    (top : exponent ≤ 2048) (bottom : -(2048 + units.log2 : ℤ) ≤ exponent) :
    Rounds (units * 10 ^ exponent) (.ofScientific .binary64 units exponent) := by
  have positive := Nat.pos_of_ne_zero nonzero
  rw [UnpackedFloat.ofScientific, dif_neg nonzero, if_neg (by norm_num; omega),
    if_neg (by norm_num; omega)]
  split
  · next up =>
    obtain ⟨n, rfl⟩ := Int.eq_ofNat_of_zero_le up
    have bits : Format.binary64.mantissaBits = 53 := rfl
    simp only [bits, Int.toNat_natCast]
    have exact : (units : ℚ) * (10 : ℚ) ^ (n : ℤ) =
        (units <<< 53 : ℕ) * (10 ^ n : ℕ) * 2 ^ (-(53 : ℕ) : ℤ) := by
      rw [Nat.shiftLeft_eq, zpow_neg, zpow_natCast, zpow_natCast]
      push_cast
      field_simp
      norm_num
    rw [exact]
    refine rounds_mul _ _ ?_
    rw [Nat.shiftLeft_eq]
    exact Nat.le_mul_of_pos_left _ positive
  · next down =>
    obtain ⟨n, rfl⟩ : ∃ n : ℕ, exponent = -n := ⟨(-exponent).toNat, by omega⟩
    simp only [neg_neg, Int.toNat_natCast]
    have exact : (units : ℚ) * (10 : ℚ) ^ (-n : ℤ) = units / (10 ^ n : ℕ) := by
      rw [zpow_neg, zpow_natCast, ← div_eq_mul_inv]
      norm_cast
    rw [exact]
    exact rounds_div _ _

/-- A decimal nearest to a positive double reads as that double. -/
theorem ofDecimal_of_near {units : ℕ} {exponent : ℤ} (canonical : Canonical M E)
    (near : Near M E (units * 10 ^ exponent)) :
    ofDecimal units exponent = canonical.double .positive := by
  obtain ⟨nonzero, top, bottom⟩ := near.exponent_bounds canonical
  obtain ⟨m, e, accuracy, rounded, exact, enough⟩ := rounds_ofScientific nonzero top bottom
  rw [ofDecimal, Float.Model.ofScientific, rounded, Canonical.double,
    roundWithAccuracy_of_near canonical near exact enough]

end

end BraceScript.Number

-- The sum of two doubles is their exact sum, rounded. The sum of two numbers
-- of different signs may be anything down to zero, so what is rounded is a
-- whole number of units with its sign, in the smaller unit of the two.
import BraceScript.Proofs.Number.Range
import BraceScript.Proofs.Number.Value

namespace BraceScript.Number

open Float.Model UnpackedFloat

section

variable {m : ℕ} {e : ℤ} {n t : ℤ} {p q x : ℚ} {a b : Float} {accuracy : Accuracy} {sign : Sign}

/-! ## Numbers that are rounded to themselves -/

theorem Rounded.neg (h : Rounded x n t) : Rounded (-x) (-n) t := by
  obtain ⟨bottom, short, full, near, even⟩ := h
  have distance : |-x / 2 ^ t - (-n : ℤ)| = |x / 2 ^ t - n| := by
    rw [← abs_neg]
    push_cast
    congr 1
    ring
  have size : |-x / 2 ^ t| = |x / 2 ^ t| := by rw [neg_div, abs_neg]
  refine ⟨bottom, by rwa [size], by rwa [size], by rwa [distance], fun tie => ?_⟩
  have := even (by rwa [distance] at tie)
  omega

theorem Rounded.signed (h : Rounded x n t) (negative : Bool) :
    ∃ n', Rounded (signed negative x) n' t ∧ signed negative (n * 2 ^ t) = n' * 2 ^ t := by
  cases negative with
  | false => exact ⟨n, h, rfl⟩
  | true => exact ⟨-n, h.neg, by simp [Number.signed]⟩

theorem Canonical.rounded (canonical : Canonical m e) : Rounded (m * 2 ^ e) m e := by
  have quotient : (m * 2 ^ e : ℚ) / 2 ^ e = m := mul_div_cancel_right₀ _ (by positivity)
  have size : |(m : ℚ)| = m := abs_of_nonneg (by positivity)
  refine ⟨canonical.bottom, ?_, fun high => ?_, ?_, fun tie => ?_⟩
  · rw [quotient, size]
    exact_mod_cast canonical.fits
  · rw [quotient, size]
    exact_mod_cast canonical.full.resolve_right (by omega)
  · rw [quotient]
    norm_num
  · rw [quotient] at tie
    norm_num at tie

theorem rounded_zero : Rounded 0 0 (-1074) := by
  refine ⟨le_rfl, ?_, fun high => absurd high (lt_irrefl _), ?_, fun _ => rfl⟩ <;> norm_num

/-- The number of a finite double is that of a canonical form, or zero. -/
theorem canonical_cases (h : value? a = some p) : p = 0 ∨
    ∃ negative m e, Canonical m e ∧ p = signed negative (m * 2 ^ e) := by
  obtain ⟨-, -, zero⟩ | ⟨sign, m, e, positive, unpacked, number⟩ := unpack_cases h
  · exact .inl zero
  · exact .inr ⟨_, m, e, .of_unpack unpacked, number⟩

/-- The number of a double is rounded to itself. -/
theorem exists_rounded (h : value? a = some p) : ∃ n t : ℤ, p = n * 2 ^ t ∧ Rounded p n t := by
  obtain rfl | ⟨negative, m, e, canonical, rfl⟩ := canonical_cases h
  · exact ⟨0, -1074, by norm_num, rounded_zero⟩
  · obtain ⟨n, rounded, number⟩ := canonical.rounded.signed negative
    exact ⟨n, e, by exact_mod_cast number, rounded⟩

theorem abs_signed (negative : Bool) (p : ℚ) : |signed negative p| = |p| := by
  cases negative <;> simp [signed]

/-- No double is greater than the greatest one. -/
theorem abs_le_of_value? (h : value? a = some p) : |p| ≤ (2 ^ 53 - 1) * 2 ^ (971 : ℤ) := by
  obtain rfl | ⟨negative, m, e, canonical, rfl⟩ := canonical_cases h
  · rw [abs_zero]
    exact mul_nonneg (by norm_num) (by positivity)
  · have most : (m : ℚ) ≤ 2 ^ 53 - 1 := by
      have : (m : ℚ) + 1 ≤ 2 ^ 53 := by exact_mod_cast canonical.fits
      linarith
    rw [abs_signed, abs_of_nonneg (by positivity)]
    exact mul_two_zpow_le most (by norm_num) canonical.top

/-! ## What is rounded, with its sign -/

theorem value?_zero (sign : Sign) : value? (.ofModel (.pack (.zero sign))) = some 0 := by
  have unpacked : (Float.ofModel (.pack (.zero sign))).toModel.unpack = .zero sign := by
    cases sign <;> rfl
  unfold value? Exact.ofFloat
  rw [unpacked]
  simp [Exact.value?, signed]

theorem value?_double (canonical : Canonical m e) (sign : Sign) :
    value? (canonical.double sign) = some (signed (isNegative sign) (m * 2 ^ e)) := by
  unfold value? Exact.ofFloat
  rw [canonical.unpack_double]
  rfl

/-- The double is finite, and its number is the rounded one. -/
def IsRounded (a : Float) (x : ℚ) : Prop :=
  ∃ n t : ℤ, Rounded x n t ∧ value? a = some ((n : ℚ) * 2 ^ t)

theorem isRounded_self (h : value? a = some p) : IsRounded a p := by
  obtain ⟨n, t, number, rounded⟩ := exists_rounded h
  exact ⟨n, t, rounded, by rw [h, number]⟩

/-- A number in the range is rounded to a finite double. -/
theorem isRounded_roundWithAccuracy (sign : Sign)
    (exact : Stands (.ofMantissaAndAccuracy m accuracy) (x / 2 ^ e))
    (enough : e ≤ Format.binary64.targetExponent (totalExponent m e)) (range : x < rangeEnd) :
    IsRounded (.ofModel (.pack (roundWithAccuracy .binary64 sign m e accuracy)))
      (signed (isNegative sign) x) := by
  obtain ⟨n, t, nonneg, rounded, result⟩ := roundWithAccuracy_cases sign exact enough
  obtain ⟨n', rounded', number⟩ := rounded.signed (isNegative sign)
  refine ⟨n', t, rounded', ?_⟩
  rw [← number]
  obtain ⟨top, top'⟩ := rounded.exponent_le nonneg range
  have bottom := rounded.bottom
  obtain ⟨rfl, zero⟩ | ⟨positive, fits, long, finite⟩ | ⟨rfl, positive, finite⟩ := result
  · rw [zero, value?_zero]
    simp [signed]
  · rw [finite]
    exact value?_double ⟨positive, fits, long, bottom, top⟩ sign
  · have top : t + 1 ≤ 971 := top' (by norm_num)
    have canonical : Canonical (2 ^ 52) (t + 1) :=
      ⟨positive, by norm_num, .inl le_rfl, by omega, top⟩
    have double : ((2 ^ 52 : ℕ) : ℚ) * 2 ^ (t + 1) = ((2 ^ 53 : ℕ) : ℤ) * 2 ^ t := by
      rw [zpow_add_one₀ (by norm_num)]
      push_cast
      ring
    rw [finite, ← double]
    exact value?_double canonical sign

theorem isRounded_round (sign : Sign) (positive : 0 < m) (range : m * 2 ^ e < rangeEnd) :
    IsRounded (.ofModel (.pack (UnpackedFloat.round .binary64 sign m e)))
      (signed (isNegative sign) (m * 2 ^ e)) := by
  obtain ⟨m', e', same, exact, enough⟩ := round_lengthened sign e positive
  rw [same]
  exact isRounded_roundWithAccuracy sign exact enough range

theorem isRounded_normalize (z e : ℤ) (range : |(z * 2 ^ e : ℚ)| < rangeEnd) :
    IsRounded (.ofModel (.pack (UnpackedFloat.normalize .binary64 z e .positive))) (z * 2 ^ e) := by
  have unit : (0 : ℚ) < 2 ^ e := by positivity
  rw [abs_mul, abs_of_pos unit] at range
  unfold UnpackedFloat.normalize
  obtain below | rfl | above := lt_trichotomy z 0
  · rw [compare_lt_iff_lt.mpr below]
    obtain ⟨k, rfl⟩ : ∃ k : ℕ, z = -k := ⟨(-z).toNat, by omega⟩
    have rounded := isRounded_round (m := k) (e := e) .negative (by omega) (by
      simpa using range)
    simpa [signed, isNegative] using rounded
  · rw [compare_eq_iff_eq.mpr rfl]
    exact ⟨0, -1074, by simpa using rounded_zero, by rw [value?_zero]; norm_num⟩
  · rw [compare_gt_iff_gt.mpr above]
    obtain ⟨k, rfl⟩ := Int.eq_ofNat_of_zero_le above.le
    have rounded := isRounded_round (m := k) (e := e) .positive (by omega) (by
      simpa using range)
    simpa [signed, isNegative] using rounded

/-! ## Sums -/

/-- A number in a smaller unit. -/
theorem apply_decreaseExponent (sign : Sign) (m : ℕ) (lower : t ≤ e) :
    ((sign.apply (decreaseExponent m e t).1 : ℤ) : ℚ) * 2 ^ t =
      signed (isNegative sign) (m * 2 ^ e) := by
  obtain ⟨k, rfl⟩ := Int.le.dest lower
  have size : ((decreaseExponent m (t + k) t).1 : ℚ) * 2 ^ t = m * 2 ^ (t + k) := by
    simp only [decreaseExponent, add_sub_cancel_left, Int.toNat_natCast, Nat.shiftLeft_eq]
    rw [zpow_add₀ (by norm_num), zpow_natCast]
    push_cast
    ring
  cases sign with
  | positive => exact_mod_cast size
  | negative =>
    simp only [Sign.apply, isNegative, signed, if_true, ← size]
    push_cast
    ring

/-- The sum of two finite doubles is their exact sum, rounded, if that is in range. -/
theorem isRounded_add (ha : value? a = some p) (hb : value? b = some q)
    (range : |p + q| < rangeEnd) : IsRounded (a + b) (p + q) := by
  have sum : a + b =
      .ofModel (.pack (UnpackedFloat.add .binary64 a.toModel.unpack b.toModel.unpack)) := rfl
  have packed := ofModel_pack_unpack a
  have packed' := ofModel_pack_unpack b
  obtain ⟨s, ua, rfl⟩ | ⟨s, m, e, positive, ua, rfl⟩ := unpack_cases ha <;>
    obtain ⟨s', ub, rfl⟩ | ⟨s', m', e', positive', ub, rfl⟩ := unpack_cases hb <;>
    rw [sum, ua, ub]
  · rw [add_zero]
    simp only [UnpackedFloat.add]
    split <;> exact isRounded_self (value?_zero _)
  · rw [ub] at packed'
    rw [zero_add]
    simp only [UnpackedFloat.add, packed']
    exact isRounded_self hb
  · rw [ua] at packed
    rw [add_zero]
    simp only [UnpackedFloat.add, packed]
    exact isRounded_self ha
  · simp only [UnpackedFloat.add]
    rw [← apply_decreaseExponent s m (min_le_left e e'),
      ← apply_decreaseExponent s' m' (min_le_right e e'), ← add_mul] at range ⊢
    have rounded := isRounded_normalize _ _ (by exact_mod_cast range)
    exact_mod_cast rounded

end

end BraceScript.Number

-- One more than a double. Up to `2 ^ 53` each step takes a double at least a
-- half further, whatever its fraction is. Beyond that, on both sides of zero,
-- the doubles are even numbers, the step is a tie between two of them, and it
-- ends at a multiple of four, which no further step leaves.
import BraceScript.Proofs.Number.Sum

namespace BraceScript.Number

variable {n t m e : ℤ} {p x : ℚ} {a : Float}

/-! ## Rounding in whole units -/

theorem Rounded.scaled (h : Rounded x n t) : |x| < 2 ^ 53 * 2 ^ t ∧
    (-1074 < t → 2 ^ 52 * 2 ^ t ≤ |x|) ∧ |x - n * 2 ^ t| ≤ 2 ^ t / 2 ∧
    (|x - n * 2 ^ t| = 2 ^ t / 2 → n % 2 = 0) := by
  obtain ⟨-, short, full, near, even⟩ := h
  have unit : (0 : ℚ) < 2 ^ t := by positivity
  have size : |x| = |x / 2 ^ t| * 2 ^ t := by
    rw [abs_div, abs_of_pos unit, div_mul_cancel₀ _ unit.ne']
  have distance : |x - n * 2 ^ t| = |x / 2 ^ t - n| * 2 ^ t := by
    nth_rewrite 3 [← abs_of_pos unit]
    rw [← abs_mul, sub_mul, div_mul_cancel₀ _ unit.ne']
  rw [size, distance]
  refine ⟨by gcongr, fun high => ?_, ?_, fun tie => even ?_⟩
  · have := full high
    gcongr
  · calc |x / 2 ^ t - n| * 2 ^ t ≤ 1 / 2 * 2 ^ t := by gcongr
      _ = 2 ^ t / 2 := by ring
  · have halves : |x / 2 ^ t - n| * 2 ^ t = 1 / 2 * 2 ^ t := by rw [tie]; ring
    exact mul_right_cancel₀ unit.ne' halves

/-- From below `2 ^ 53` the step ends there, or at least a half further on. -/
theorem Rounded.step_below (h : Rounded (p + 1) n t) (low : -2 ^ 53 ≤ p) (high : p < 2 ^ 53) :
    (n * 2 ^ t : ℚ) = 2 ^ 53 ∨ p + 1 / 2 ≤ n * 2 ^ t ∧ (n * 2 ^ t : ℚ) ≤ 2 ^ 53 := by
  obtain ⟨short, full, near, -⟩ := h.scaled
  obtain ⟨nearBelow, nearAbove⟩ := abs_le.mp near
  obtain fine | coarse := le_or_gt t 0
  · right
    have unit : (0 : ℚ) < 2 ^ t := by positivity
    have unit_le : (2 : ℚ) ^ t ≤ 1 := zpow_le_one_of_nonpos₀ (by norm_num) fine
    have most : n ≤ 2 ^ 53 := by
      have : (n * 2 ^ t : ℚ) < (2 ^ 53 + 1) * 2 ^ t := by
        linarith [(le_abs_self (p + 1)).trans_lt short]
      have := lt_of_mul_lt_mul_right this unit.le
      norm_cast at this
      omega
    refine ⟨by linarith, ?_⟩
    calc (n * 2 ^ t : ℚ) ≤ 2 ^ 53 * 2 ^ t := by gcongr; exact_mod_cast most
      _ ≤ 2 ^ 53 := by linarith
  · left
    have size : |p + 1| < 2 ^ 53 + 1 := by rw [abs_lt]; constructor <;> linarith
    have full := full (by omega)
    obtain rfl : t = 1 := by
      by_contra
      have : (2 : ℚ) ^ (2 : ℤ) ≤ 2 ^ t := zpow_le_zpow_right₀ (by norm_num) (by omega)
      norm_num at this
      linarith
    rw [zpow_one] at full nearBelow nearAbove ⊢
    have positive : 2 ^ 53 ≤ p + 1 := by
      obtain up | down := le_abs.mp full <;> linarith
    have atLeast : (2 ^ 53 : ℚ) < n * 2 + 2 := by linarith
    have atMost : (n * 2 : ℚ) < 2 ^ 53 + 2 := by linarith
    norm_cast at atLeast atMost ⊢
    omega

/-- A double as great as `2 ^ 53` is a whole number of units, and these are even. -/
theorem Rounded.exists_units (number : p = m * 2 ^ e) (own : Rounded p m e) (big : 2 ^ 53 ≤ |p|) :
    ∃ j : ℕ, e = j + 1 ∧ |m| < 2 ^ 53 ∧ p = (m * 2 ^ (j + 1) : ℤ) := by
  obtain ⟨short, -⟩ := own.scaled
  have unit : (0 : ℚ) < 2 ^ e := by positivity
  have positive : 0 < e := by
    by_contra! fine
    have : (2 : ℚ) ^ e ≤ 1 := zpow_le_one_of_nonpos₀ (by norm_num) fine
    linarith
  obtain ⟨j, rfl⟩ : ∃ j : ℕ, e = j + 1 := ⟨(e - 1).toNat, by omega⟩
  refine ⟨j, rfl, ?_, ?_⟩
  · rw [number, abs_mul, abs_of_pos unit] at short
    have := lt_of_mul_lt_mul_right short unit.le
    exact_mod_cast this
  · rw [number]
    norm_cast

/-- If the number next to it takes units of at least four, it is itself a number of these. -/
theorem units_le {i j : ℕ} (fits : |m| < 2 ^ 53)
    (full : 2 ^ 52 * 2 ^ (i + 1 + 1) ≤ |m * 2 ^ (j + 1) + 1|) : i + 1 ≤ j := by
  by_contra! fine
  have units : 2 ≤ (2 : ℤ) ^ (i + 1) := by
    have : (1 : ℤ) ≤ 2 ^ i := one_le_pow₀ (by norm_num)
    rw [pow_succ]
    linarith
  have size : |m * 2 ^ (j + 1)| ≤ (2 ^ 53 - 1) * 2 ^ (i + 1) := by
    have : (2 : ℤ) ^ (j + 1) ≤ 2 ^ (i + 1) := pow_le_pow_right₀ (by norm_num) (by omega)
    rw [abs_mul, abs_of_nonneg (by positivity : (0 : ℤ) ≤ 2 ^ (j + 1))]
    gcongr
    omega
  have full := full.trans (abs_add_le _ 1)
  rw [abs_one, pow_succ 2 (i + 1)] at full
  omega

/-- In units of at least four, one more is nearest to the number itself. -/
theorem eq_of_near_succ {l : ℤ} {i : ℕ}
    (near : |l * 2 ^ (i + 1 + 1) + 1 - n * 2 ^ (i + 1 + 1)| ≤ 2 ^ (i + 1)) : l = n := by
  have unit : (0 : ℤ) < 2 ^ (i + 1 + 1) := by positivity
  have apart : |l - n| * 2 ^ (i + 1 + 1) < 1 * 2 ^ (i + 1 + 1) := by
    calc |l - n| * 2 ^ (i + 1 + 1)
        = |l * 2 ^ (i + 1 + 1) + 1 - n * 2 ^ (i + 1 + 1) - 1| := by
          nth_rewrite 1 [← abs_of_pos unit]
          rw [← abs_mul]
          congr 1
          ring
      _ ≤ |l * 2 ^ (i + 1 + 1) + 1 - n * 2 ^ (i + 1 + 1)| + |1| := abs_sub _ _
      _ ≤ 2 ^ (i + 1) + 1 := by rw [abs_one]; gcongr
      _ < 1 * 2 ^ (i + 1 + 1) := by
        have : (1 : ℤ) ≤ 2 ^ i := one_le_pow₀ (by norm_num)
        rw [pow_succ 2 (i + 1), pow_succ]
        linarith
  have := Int.abs_lt_one_iff.mp (lt_of_mul_lt_mul_right apart unit.le)
  omega

/-- The whole number next to an even one, rounded to units that are even as well. -/
theorem next_multiple_of_four {i j : ℕ} (fits : |m| < 2 ^ 53)
    (full : 2 ^ 52 * 2 ^ (i + 1) ≤ |m * 2 ^ (j + 1) + 1|)
    (near : |m * 2 ^ (j + 1) + 1 - n * 2 ^ (i + 1)| ≤ 2 ^ i)
    (even : |m * 2 ^ (j + 1) + 1 - n * 2 ^ (i + 1)| = 2 ^ i → n % 2 = 0) :
    ∃ k, n * 2 ^ (i + 1) = 4 * k ∧ (4 * k = m * 2 ^ (j + 1) ∨ 4 * k = m * 2 ^ (j + 1) + 2) := by
  cases i with
  | zero =>
    -- The units are those of the whole numbers next to it, so it lies in the middle of two.
    have double : m * 2 ^ (j + 1) = 2 * (m * 2 ^ j) := by ring
    simp only [double, zero_add, pow_one, pow_zero] at near even ⊢
    generalize m * 2 ^ j = half at *
    obtain ⟨below, above⟩ := abs_le.mp near
    have tie := even (by
      rw [abs_eq (by norm_num)]
      omega)
    exact ⟨n / 2, by omega, by omega⟩
  | succ i =>
    obtain ⟨d, rfl⟩ := Nat.exists_eq_add_of_le (units_le fits full)
    have whole : m * 2 ^ (i + 1 + d + 1) = m * 2 ^ d * 2 ^ (i + 1 + 1) := by ring
    rw [whole] at near ⊢
    obtain rfl := eq_of_near_succ near
    exact ⟨m * 2 ^ d * 2 ^ i, by ring, .inl (by ring)⟩

/-- From `2 ^ 53` on, and from `-2 ^ 53` downward, the step ends at the next multiple of four. -/
theorem Rounded.step_beyond (number : p = m * 2 ^ e) (own : Rounded p m e)
    (h : Rounded (p + 1) n t) (big : 2 ^ 53 ≤ |p|) (ne : p ≠ -2 ^ 53) :
    ∃ k : ℤ, (n * 2 ^ t : ℚ) = 4 * k ∧ (4 * k = p ∨ 4 * k = p + 2) := by
  obtain ⟨j, rfl, fits, whole⟩ := own.exists_units number big
  obtain ⟨short, full, near, even⟩ := h.scaled
  subst whole
  have far : 2 ^ 53 ≤ |m * 2 ^ (j + 1) + 1| := by
    have big : 2 ^ 53 ≤ |m * 2 ^ (j + 1)| := by exact_mod_cast big
    have ne : m * 2 ^ (j + 1) ≠ -2 ^ 53 := by exact_mod_cast ne
    rw [le_abs] at big ⊢
    omega
  have positive : 0 < t := by
    by_contra! fine
    have : (2 : ℚ) ^ t ≤ 1 := zpow_le_one_of_nonpos₀ (by norm_num) fine
    have : (2 ^ 53 : ℚ) ≤ |((m * 2 ^ (j + 1) : ℤ) : ℚ) + 1| := by exact_mod_cast far
    linarith
  obtain ⟨i, rfl⟩ : ∃ i : ℕ, t = i + 1 := ⟨(t - 1).toNat, by omega⟩
  have units : (2 : ℚ) ^ ((i : ℤ) + 1) = (2 ^ (i + 1) : ℤ) := by norm_cast
  have half : (2 : ℚ) ^ ((i : ℤ) + 1) / 2 = (2 ^ i : ℤ) := by
    rw [zpow_add_one₀ (by norm_num)]
    norm_num
  rw [half, units] at near even
  rw [units] at full ⊢
  obtain ⟨k, multiple, next⟩ := next_multiple_of_four (n := n) (i := i) fits
    (by exact_mod_cast full (by omega)) (by exact_mod_cast near)
    fun tie => even (by exact_mod_cast tie)
  exact ⟨k, by exact_mod_cast multiple, by exact_mod_cast next⟩

/-! ## The double after a double -/

theorem value?_one : value? 1.0 = some 1 :=
  value?_eq_some.2 ⟨false, 2 ^ 52, -52, rfl, by norm_num [signed]⟩

/-- One more than a double is never out of range. -/
theorem isRounded_add_one (h : value? a = some p) : IsRounded (a + 1.0) (p + 1) := by
  refine isRounded_add h value?_one ?_
  have unit : (2 : ℚ) ^ (2 : ℤ) ≤ 2 ^ (971 : ℤ) := zpow_le_zpow_right₀ (by norm_num) (by norm_num)
  calc |p + 1| ≤ |p| + 1 := by simpa using abs_add_le p 1
    _ ≤ (2 ^ 53 - 1) * 2 ^ (971 : ℤ) + 1 := by gcongr; exact abs_le_of_value? h
    _ < (2 ^ 53 - 1 / 2) * 2 ^ (971 : ℤ) := by
      generalize (2 : ℚ) ^ (971 : ℤ) = unit at *
      linarith
    _ = rangeEnd := rangeEnd_eq.symm

/-- From below `2 ^ 53` one more is a double that is at least a half greater, or `2 ^ 53`. -/
theorem add_one_below (h : value? a = some p) (low : -2 ^ 53 ≤ p) (high : p < 2 ^ 53) :
    ∃ q, value? (a + 1.0) = some q ∧ (q = 2 ^ 53 ∨ p + 1 / 2 ≤ q ∧ q ≤ 2 ^ 53) := by
  obtain ⟨n, t, rounded, number⟩ := isRounded_add_one h
  exact ⟨_, number, rounded.step_below low high⟩

/-- Else one more is the next multiple of four, which may be the double itself. -/
theorem add_one_beyond (h : value? a = some p) (big : 2 ^ 53 ≤ |p|) (ne : p ≠ -2 ^ 53) :
    ∃ k : ℤ, value? (a + 1.0) = some (4 * k : ℚ) ∧ (4 * k = p ∨ 4 * k = p + 2) := by
  obtain ⟨m, e, own, self⟩ := exists_rounded h
  obtain ⟨n, t, rounded, number⟩ := isRounded_add_one h
  obtain ⟨k, multiple, next⟩ := self.step_beyond own rounded big ne
  exact ⟨k, by rw [number, multiple], next⟩

/-- From a multiple of four so far out there is no way on. -/
theorem add_one_stays {k : ℤ} (h : value? a = some (4 * k : ℚ)) (big : 2 ^ 53 ≤ |(4 * k : ℚ)|)
    (ne : (4 * k : ℚ) ≠ -2 ^ 53) : value? (a + 1.0) = some (4 * k : ℚ) := by
  obtain ⟨k', number, same | other⟩ := add_one_beyond h big ne
  · rw [number, same]
  · norm_cast at other
    omega

end BraceScript.Number

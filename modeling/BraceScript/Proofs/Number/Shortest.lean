-- The digits that are written for a double read back as that double: the
-- search always finds a decimal in the interval around it, and whatever lies
-- in that interval is rounded to it.
import BraceScript.Proofs.Number.Rounding
import BraceScript.Proofs.Printing.Numerals
import Mathlib

namespace BraceScript.Number

/-! ## The interval around a double -/

/-- The interval, with its ends if it is closed. -/
structure Interval.Holds (i : Interval) (x : ℚ) : Prop where
  lower : i.value - i.below ≤ x * i.unit
  upper : x * i.unit ≤ i.value + i.above
  ends : x * i.unit = i.value - i.below ∨ x * i.unit = i.value + i.above → i.closed = true

section

variable {m : ℕ} {e : ℤ} {x : ℚ}

theorem four_mul_halfBelow (m : ℕ) (e : ℤ) :
    ((if m = powerMantissa ∧ -1074 < e then 1 else 2 : ℕ) : ℚ) = 4 * halfBelow m e := by
  have power : powerMantissa = 2 ^ 52 := rfl
  unfold halfBelow
  rw [power]
  split <;> norm_num

/-- The interval around a double, in units of its last place. -/
theorem around_bounds (m : ℕ) (e : ℤ) :
    (0 : ℚ) < (Interval.around m e).unit ∧
    ((Interval.around m e).value : ℚ) = m * 2 ^ e * (Interval.around m e).unit ∧
    ((Interval.around m e).below : ℚ) = halfBelow m e * 2 ^ e * (Interval.around m e).unit ∧
    ((Interval.around m e).above : ℚ) = 1 / 2 * 2 ^ e * (Interval.around m e).unit := by
  have scale : (2 : ℚ) ^ (e - 2).toNat = 2 ^ e / 4 * 2 ^ (2 - e).toNat := by
    rw [← zpow_natCast, ← zpow_natCast, show (4 : ℚ) = 2 ^ (2 : ℤ) by norm_num,
      ← zpow_sub₀ (by norm_num), ← zpow_add₀ (by norm_num)]
    congr 1
    omega
  simp only [Interval.around, Nat.pow_eq, Nat.cast_mul, Nat.cast_pow, Nat.cast_ofNat,
    four_mul_halfBelow, scale]
  exact ⟨by positivity, by ring, by ring, by ring⟩

/-- What the interval around a double holds is nearest to it. -/
theorem near_of_holds (h : (Interval.around m e).Holds x) : Near m e x := by
  obtain ⟨unit, value, below, above⟩ := around_bounds m e
  obtain ⟨lower, upper, ends⟩ := h
  have power : (0 : ℚ) < 2 ^ e := by positivity
  have factor : 0 < 2 ^ e * ((Interval.around m e).unit : ℚ) := by positivity
  have closed : (Interval.around m e).closed = true ↔ m % 2 = 0 := by simp [Interval.around]
  rw [value, below] at lower
  rw [value, above] at upper
  rw [value, below, above, closed] at ends
  constructor
  · rw [le_div_iff₀ power]
    refine le_of_mul_le_mul_right ?_ unit
    linarith
  · rw [div_le_iff₀ power]
    refine le_of_mul_le_mul_right ?_ unit
    linarith
  · rintro (low | high)
    · rw [div_eq_iff power.ne'] at low
      exact ends (.inl (by rw [low]; ring))
    · rw [div_eq_iff power.ne'] at high
      exact ends (.inr (by rw [high]; ring))

end

/-! ## Points of a decimal grid -/

theorem fits_iff {closed : Bool} {distance gap : ℕ} :
    fits closed distance gap = true ↔ distance ≤ gap ∧ (distance = gap → closed = true) := by
  unfold fits
  cases closed
  · simp
    omega
  · simp

theorem le_of_not_fits {closed : Bool} {distance gap : ℕ}
    (h : fits closed distance gap = false) : gap ≤ distance := by
  by_contra! less
  rw [fits_iff.mpr ⟨less.le, fun eq => absurd eq less.ne⟩] at h
  cases h

namespace Interval

variable {i : Interval} {tie : Tie} {grid : ℤ} {n : ℕ}

/-- The value in units of `unit * 10 ^ grid`, or of a part of it. -/
def gridValue (i : Interval) (grid : ℤ) : ℕ := i.value * 10 ^ (-grid).toNat

def gridUnit (i : Interval) (grid : ℤ) : ℕ := i.unit * 10 ^ grid.toNat

theorem onGrid?_cases (h : i.onGrid? tie grid = some n) :
    n = i.gridValue grid / i.gridUnit grid ∧
      fits i.closed (i.gridValue grid % i.gridUnit grid) (i.below * 10 ^ (-grid).toNat) = true ∨
    n = i.gridValue grid / i.gridUnit grid + 1 ∧
      fits i.closed (i.gridUnit grid - i.gridValue grid % i.gridUnit grid)
        (i.above * 10 ^ (-grid).toNat) = true := by
  simp only [onGrid?] at h
  split at h
  · cases h
  · next down up =>
    cases h
    exact .inl ⟨rfl, down⟩
  · next down up =>
    cases h
    exact .inr ⟨rfl, up⟩
  · next down up =>
    have either : n = i.gridValue grid / i.gridUnit grid ∨
        n = i.gridValue grid / i.gridUnit grid + 1 := by
      split at h
      · cases h
        exact .inl rfl
      split at h
      · cases h
        exact .inr rfl
      split at h
      · cases h
        exact .inr rfl
      · cases h
        have := Nat.mod_two_eq_zero_or_one (i.gridValue grid / i.gridUnit grid)
        simp only [gridValue, gridUnit, Nat.pow_eq] at this ⊢
        omega
    obtain rfl | rfl := either
    · exact .inl ⟨rfl, down⟩
    · exact .inr ⟨rfl, up⟩

/-- A grid that is finer than the interval is long has a point in it. -/
theorem exists_onGrid? (tie : Tie) (unit : 0 < i.unit)
    (finer : i.gridUnit grid < (i.below + i.above) * 10 ^ (-grid).toNat) :
    ∃ n, i.onGrid? tie grid = some n := by
  simp only [onGrid?]
  split
  · next down up =>
    have down := le_of_not_fits down
    have up := le_of_not_fits up
    have positive : 0 < i.gridUnit grid := Nat.mul_pos unit (by positivity)
    have less := Nat.mod_lt (i.gridValue grid) positive
    rw [Nat.add_mul] at finer
    simp only [gridValue, gridUnit, Nat.pow_eq] at *
    omega
  · exact ⟨_, rfl⟩
  · exact ⟨_, rfl⟩
  · split
    · exact ⟨_, rfl⟩
    split
    · exact ⟨_, rfl⟩
    cases tie <;> exact ⟨_, rfl⟩

theorem Holds.of_scaled {x f : ℚ} (positive : 0 < f)
    (lower : i.value * f - i.below * f ≤ x * i.unit * f)
    (upper : x * i.unit * f ≤ i.value * f + i.above * f)
    (ends : x * i.unit * f = i.value * f - i.below * f ∨
      x * i.unit * f = i.value * f + i.above * f → i.closed = true) : i.Holds x := by
  rw [← sub_mul] at lower ends
  rw [← add_mul] at upper ends
  exact ⟨le_of_mul_le_mul_right lower positive, le_of_mul_le_mul_right upper positive,
    fun h => ends (h.imp (congrArg (· * f)) (congrArg (· * f)))⟩

theorem gridUnit_mul (i : Interval) (grid : ℤ) (n : ℕ) :
    (n * 10 ^ grid * i.unit : ℚ) * 10 ^ (-grid).toNat = n * i.gridUnit grid := by
  have power : (10 : ℚ) ^ grid * 10 ^ (-grid).toNat = 10 ^ grid.toNat := by
    rw [← zpow_natCast, ← zpow_natCast, ← zpow_add₀ (by norm_num)]
    congr 1
    omega
  rw [gridUnit, Nat.cast_mul, Nat.cast_pow, Nat.cast_ofNat, ← power]
  ring

/-- The point of the grid lies in the interval. -/
theorem holds_of_onGrid? (unit : 0 < i.unit) (below : 0 < i.below) (above : 0 < i.above)
    (h : i.onGrid? tie grid = some n) : i.Holds (n * 10 ^ grid) := by
  have finer : (0 : ℚ) < 10 ^ (-grid).toNat := by positivity
  have value : (i.gridValue grid : ℚ) = i.value * 10 ^ (-grid).toNat := by
    rw [gridValue, Nat.cast_mul, Nat.cast_pow, Nat.cast_ofNat]
  have below : 0 < (i.below : ℚ) * 10 ^ (-grid).toNat := by positivity
  have above : 0 < (i.above : ℚ) * 10 ^ (-grid).toNat := by positivity
  have parts : (i.gridValue grid / i.gridUnit grid : ℕ) * (i.gridUnit grid : ℚ) +
      (i.gridValue grid % i.gridUnit grid : ℕ) = i.gridValue grid := by
    exact_mod_cast Nat.div_add_mod' _ _
  have positive : 0 < i.gridUnit grid := Nat.mul_pos unit (by positivity)
  obtain ⟨rfl, fit⟩ | ⟨rfl, fit⟩ := onGrid?_cases h
  · obtain ⟨le, tie⟩ := fits_iff.mp fit
    have le : ((i.gridValue grid % i.gridUnit grid : ℕ) : ℚ) ≤
        i.below * 10 ^ (-grid).toNat := by exact_mod_cast le
    refine .of_scaled finer ?_ ?_ ?_ <;> rw [gridUnit_mul, ← value]
    · linarith
    · linarith
    · rintro (low | high)
      · refine tie ?_
        have : ((i.gridValue grid % i.gridUnit grid : ℕ) : ℚ) =
          i.below * 10 ^ (-grid).toNat := by linarith
        exact_mod_cast this
      · linarith
  · obtain ⟨le, tie⟩ := fits_iff.mp fit
    have less := (Nat.mod_lt (i.gridValue grid) positive).le
    have le : (i.gridUnit grid : ℚ) - (i.gridValue grid % i.gridUnit grid : ℕ) ≤
        i.above * 10 ^ (-grid).toNat := by
      rw [← Nat.cast_sub less]
      exact_mod_cast le
    have less : ((i.gridValue grid % i.gridUnit grid : ℕ) : ℚ) ≤ i.gridUnit grid := by
      exact_mod_cast less
    refine .of_scaled finer ?_ ?_ ?_ <;> rw [gridUnit_mul, ← value, Nat.cast_add_one, add_one_mul]
    · linarith
    · linarith
    · rintro (low | high)
      · linarith
      · have whole : (i.gridUnit grid : ℚ) = (i.gridValue grid % i.gridUnit grid : ℕ) +
            (i.above * 10 ^ (-grid).toNat : ℕ) := by
          push_cast
          linarith
        norm_cast at whole
        exact tie (by omega)

end Interval

/-! ## The place of the decimal point -/

theorem toDigits_bounds {n : ℕ} (nonzero : n ≠ 0) :
    10 ^ ((Nat.toDigits 10 n).length - 1) ≤ n ∧ n < 10 ^ (Nat.toDigits 10 n).length := by
  have positive : 0 < (Nat.toDigits 10 n).length := Nat.length_toDigits_pos
  refine ⟨?_, (Nat.length_toDigits_le_iff (by norm_num) positive).mp le_rfl⟩
  by_contra! less
  by_cases one : (Nat.toDigits 10 n).length = 1
  · rw [one] at less
    omega
  · have := (Nat.length_toDigits_le_iff (by norm_num) (by omega)).mpr less
    omega

/-- The fraction is multiplied by ten until it reaches one, and no more. -/
theorem leadingZeros_eq {unit : ℕ} (fuel count : ℕ) {value : ℕ}
    (enough : unit ≤ value * 10 ^ fuel) :
    ∃ j, leadingZeros unit fuel count value = count + j ∧ unit ≤ value * 10 ^ j ∧
      (j = 0 ∨ value * 10 ^ (j - 1) < unit) := by
  induction fuel generalizing count value with
  | zero => exact ⟨0, rfl, by simpa using enough, .inl rfl⟩
  | succ fuel ih =>
    rw [leadingZeros]
    split
    · next reached => exact ⟨0, rfl, by simpa using reached, .inl rfl⟩
    · next below =>
      obtain ⟨j, eq, le, least⟩ := @ih (count + 1) (value * 10)
        (by rwa [mul_assoc, ← pow_succ'])
      refine ⟨j + 1, by rw [eq]; ring, by rwa [pow_succ', ← mul_assoc], .inr ?_⟩
      cases j with
      | zero => simpa using below
      | succ j =>
        have less := least.resolve_left (by omega)
        rwa [Nat.add_sub_cancel, mul_assoc, ← pow_succ'] at less

theorem Interval.point_bounds {i : Interval} (unit : 0 < i.unit)
    (enough : i.unit ≤ i.value * 10 ^ 400) :
    10 ^ (i.point - 1) * (i.unit : ℚ) ≤ i.value ∧ (i.value : ℚ) < 10 ^ i.point * i.unit := by
  unfold Interval.point
  split
  · next le =>
    have quotient : 0 < i.value / i.unit := Nat.div_pos le unit
    obtain ⟨lower, upper⟩ := toDigits_bounds quotient.ne'
    have length : 0 < (Nat.toDigits 10 (i.value / i.unit)).length := Nat.length_toDigits_pos
    generalize (Nat.toDigits 10 (i.value / i.unit)).length = l at *
    constructor
    · rw [show ((l : ℤ) - 1) = ((l - 1 : ℕ) : ℤ) by omega, zpow_natCast]
      rw [Nat.le_div_iff_mul_le unit] at lower
      exact_mod_cast lower
    · rw [zpow_natCast]
      rw [Nat.div_lt_iff_lt_mul unit] at upper
      exact_mod_cast upper
  · next less =>
    obtain ⟨j, eq, le, least⟩ := leadingZeros_eq 400 0 enough
    cases j with
    | zero => exact absurd (by simpa using le) less
    | succ j =>
      have least := least.resolve_left (by omega)
      rw [Nat.add_sub_cancel] at least
      rw [eq, show (1 - ((0 + (j + 1) : ℕ) : ℤ) - 1) = -((j + 1 : ℕ) : ℤ) by push_cast; ring,
        show (1 - ((0 + (j + 1) : ℕ) : ℤ)) = -(j : ℤ) by push_cast; ring,
        zpow_neg, zpow_neg, zpow_natCast, zpow_natCast, inv_mul_le_iff₀ (by positivity),
        lt_inv_mul_iff₀ (by positivity), mul_comm, mul_comm _ (i.value : ℚ)]
      exact ⟨by exact_mod_cast le, by exact_mod_cast least⟩

/-! ## The search -/

/-- The search does not pass a grid that has a point in the interval. -/
theorem Interval.onGrid?_search {i : Interval} {tie : Tie} {point : ℤ} {more digits last : ℕ}
    (found : ∃ n, i.onGrid? tie (point - last) = some n) (positive : 0 < more)
    (reaches : digits + more = last + 1) :
    i.onGrid? tie (i.search tie point more digits).2 = some (i.search tie point more digits).1 := by
  induction more generalizing digits with
  | zero => cases positive
  | succ more ih =>
    rw [search]
    split
    · next n some => exact some
    · next none =>
      refine ih ?_ (by omega)
      by_contra! stop
      obtain ⟨n, some⟩ := found
      rw [show digits = last by omega, some] at none
      cases none

section

variable {m : ℕ} {e : ℤ}

theorem Canonical.unit_le (canonical : Canonical m e) :
    (Interval.around m e).unit ≤ (Interval.around m e).value * 10 ^ 400 := by
  have positive : 0 < (Interval.around m e).value := by
    have := canonical.positive
    simp only [Interval.around, Nat.pow_eq]
    positivity
  have power (k : ℕ) : 2 ^ (3 * k) ≤ 10 ^ k := by
    rw [pow_mul]
    exact Nat.pow_le_pow_left (by norm_num) k
  calc (Interval.around m e).unit ≤ 2 ^ (3 * 400) :=
        Nat.pow_le_pow_right two_pos (by have := canonical.bottom; omega)
    _ ≤ 10 ^ 400 := power 400
    _ ≤ (Interval.around m e).value * 10 ^ 400 := Nat.le_mul_of_pos_left _ positive

/-- A mantissa has fewer units than seventeen digits tell apart, even where the
gap below is half as wide. -/
theorem Canonical.mantissa_lt (canonical : Canonical m e) :
    (m : ℚ) < 10 ^ 16 * (halfBelow m e + 1 / 2) := by
  have fits : (m : ℚ) < 2 ^ 53 := by exact_mod_cast canonical.fits
  unfold halfBelow
  split
  · next power =>
    rw [power.1]
    norm_num
  · norm_num at fits ⊢
    linarith

/-- Seventeen digits are enough. -/
theorem Canonical.exists_onGrid? (canonical : Canonical m e) (tie : Tie) :
    ∃ n, (Interval.around m e).onGrid? tie ((Interval.around m e).point - (17 : ℕ)) = some n := by
  obtain ⟨unit, value, below, above⟩ := around_bounds m e
  have unit' : 0 < (Interval.around m e).unit := by exact_mod_cast unit
  obtain ⟨lower, -⟩ := Interval.point_bounds unit' canonical.unit_le
  refine Interval.exists_onGrid? tie unit' ?_
  have finer : (0 : ℚ) < 10 ^ (-((Interval.around m e).point - (17 : ℕ))).toNat := by positivity
  have scaled := Interval.gridUnit_mul (.around m e) ((Interval.around m e).point - (17 : ℕ)) 1
  rw [Nat.cast_one, one_mul, one_mul] at scaled
  have spacing : 10 ^ ((Interval.around m e).point - (17 : ℕ)) * ((Interval.around m e).unit : ℚ) <
      (Interval.around m e).below + (Interval.around m e).above := by
    have power : (10 : ℚ) ^ ((Interval.around m e).point - (17 : ℕ)) * 10 ^ 16 =
        10 ^ ((Interval.around m e).point - 1) := by
      rw [← zpow_natCast, ← zpow_add₀ (by norm_num)]
      congr 1
      omega
    have factor : 0 < 2 ^ e * ((Interval.around m e).unit : ℚ) := by positivity
    rw [below, above]
    rw [value, ← power] at lower
    have := mul_lt_mul_of_pos_right canonical.mantissa_lt factor
    generalize (10 : ℚ) ^ ((Interval.around m e).point - (17 : ℕ)) = spacing at lower ⊢
    linarith
  have := mul_lt_mul_of_pos_right spacing finer
  rw [scaled] at this
  exact_mod_cast this

/-- The number of the search is nearest to the double. -/
theorem Canonical.near_search (canonical : Canonical m e) (tie : Tie) :
    Near m e (((Interval.around m e).search tie (Interval.around m e).point 17 1).1 *
      10 ^ ((Interval.around m e).search tie (Interval.around m e).point 17 1).2) := by
  obtain ⟨unit, value, below, above⟩ := around_bounds m e
  have power : (0 : ℚ) < 2 ^ e := by positivity
  have half := halfBelow_pos m e
  have below : (0 : ℚ) < (Interval.around m e).below := by
    rw [below]
    positivity
  have above : (0 : ℚ) < (Interval.around m e).above := by
    rw [above]
    positivity
  exact near_of_holds (Interval.holds_of_onGrid? (by exact_mod_cast unit) (by exact_mod_cast below)
    (by exact_mod_cast above)
    (Interval.onGrid?_search (canonical.exists_onGrid? tie) (by norm_num) (by norm_num)))

end

/-! ## Digits as a number -/

/-- The number that digits with a point stand for. -/
def Decimal.value (d : Decimal) : ℚ :=
  digitsValue d.digits 0 * 10 ^ (d.point - d.digits.length)

theorem digitsValue_toDigits (n : ℕ) : digitsValue (Nat.toDigits 10 n) 0 = n := by
  rw [digitsValue_eq_ofDigitChars, Nat.ofDigitChars_ten_toDigits]

theorem digitsValue_cons (c : Char) (cs : List Char) :
    digitsValue (c :: cs) 0 = (c.toNat - 48) * 10 ^ cs.length + digitsValue cs 0 := by
  have head : digitsValue (c :: cs) 0 = digitsValue cs (0 * 10 + (c.toNat - '0'.toNat)) := rfl
  rw [head, digitsValue_eq_ofDigitChars, Nat.ofDigitChars_eq_ofDigitChars_zero,
    digitsValue_eq_ofDigitChars]
  simp [mul_comm]

theorem toNat_of_isDigit {c : Char} (digit : isDigit c = true) : 48 ≤ c.toNat ∧ c.toNat ≤ 57 := by
  simp only [isDigit, Bool.and_eq_true, decide_eq_true_eq, Char.le_def] at digit
  exact digit

theorem digitsValue_lt {digits : List Char} (all : ∀ c ∈ digits, isDigit c = true) :
    digitsValue digits 0 < 10 ^ digits.length := by
  induction digits with
  | nil => exact Nat.one_pos
  | cons c cs ih =>
    have rest := ih fun d hd => all d (List.mem_cons_of_mem c hd)
    obtain ⟨-, small⟩ := toNat_of_isDigit (all c List.mem_cons_self)
    rw [digitsValue_cons, List.length_cons, pow_succ]
    have : (c.toNat - 48) * 10 ^ cs.length ≤ 9 * 10 ^ cs.length :=
      Nat.mul_le_mul_right _ (by omega)
    omega

theorem le_digitsValue {digits : List Char} (all : ∀ c ∈ digits, isDigit c = true)
    (nonempty : digits ≠ []) (head : digits.head? ≠ some '0') :
    10 ^ (digits.length - 1) ≤ digitsValue digits 0 := by
  obtain ⟨c, cs, rfl⟩ := List.exists_cons_of_ne_nil nonempty
  obtain ⟨low, -⟩ := toNat_of_isDigit (all c List.mem_cons_self)
  have positive : 48 ≠ c.toNat := fun zero => head (by
    rw [List.head?_cons, Option.some_inj, ← Char.toNat_inj]
    exact zero.symm)
  rw [digitsValue_cons, List.length_cons, Nat.add_sub_cancel]
  exact (Nat.le_mul_of_pos_left _ (by omega)).trans (Nat.le_add_right _ _)

/-- A number is not written with a zero in front. -/
theorem head_toDigits {n : ℕ} (nonzero : n ≠ 0) : (Nat.toDigits 10 n).head? ≠ some '0' := by
  intro zero
  obtain ⟨c, cs, parts⟩ := List.exists_cons_of_ne_nil (Nat.toDigits_ne_nil (n := n) (b := 10))
  rw [parts] at zero
  cases zero
  have all : ∀ d ∈ cs, isDigit d = true := fun d hd =>
    isDigit_of_mem_toDigits (m := n) (by rw [parts]; exact List.mem_cons_of_mem _ hd)
  have less := digitsValue_lt all
  have whole := digitsValue_toDigits n
  have lower := (toDigits_bounds nonzero).1
  rw [parts, digitsValue_cons] at whole
  rw [parts, List.length_cons, Nat.add_sub_cancel] at lower
  simp at whole
  omega

/-- Taking the zeros off the end leaves the number as it is. -/
theorem Decimal.value_ofUnits (n : ℕ) (grid : ℤ) :
    (Decimal.ofUnits n grid).value = n * 10 ^ grid := by
  obtain ⟨count, parts⟩ := exists_trailing '0' (Nat.toDigits 10 n)
  have units := digitsValue_toDigits n
  simp only [Decimal.value, Decimal.ofUnits]
  generalize (List.dropWhile (· == '0') (Nat.toDigits 10 n).reverse).reverse = digits at parts ⊢
  rw [parts] at units ⊢
  rw [digitsValue_append, digitsValue_replicate] at units
  rw [← units, List.length_append, List.length_replicate, Nat.cast_mul, mul_assoc, Nat.cast_pow,
    Nat.cast_ofNat, ← zpow_natCast, ← zpow_add₀ (by norm_num)]
  congr 2
  push_cast
  ring

theorem Decimal.head_ofUnits {n : ℕ} (nonzero : n ≠ 0) (grid : ℤ) :
    (Decimal.ofUnits n grid).digits.head? ≠ some '0' := by
  obtain ⟨count, parts⟩ := exists_trailing '0' (Nat.toDigits 10 n)
  have head := head_toDigits nonzero
  rw [parts] at head
  intro zero
  simp only [Decimal.ofUnits] at zero
  exact head (by rw [List.head?_append, zero, Option.some_or])

/-- The digits that are written for a double, whichever way halves go, are
nearest to that double. -/
theorem Canonical.near_shortest {m : ℕ} {e : ℤ} (canonical : Canonical m e) (tie : Tie) :
    Near m e (Decimal.shortest tie m e).value := by
  rw [Decimal.shortest, Decimal.value_ofUnits]
  exact canonical.near_search tie

/-- Digits as they are written: one at least, the first one not zero, and the
point not too far from them. -/
structure Decimal.Normal (d : Decimal) : Prop where
  nonempty : d.digits ≠ []
  digits : ∀ c ∈ d.digits, isDigit c = true
  head : d.digits.head? ≠ some '0'
  low : -1075 ≤ d.point
  high : d.point ≤ 1024

theorem Decimal.value_bounds {d : Decimal} (digits : ∀ c ∈ d.digits, isDigit c = true)
    (nonempty : d.digits ≠ []) (head : d.digits.head? ≠ some '0') :
    10 ^ (d.point - 1) ≤ d.value ∧ d.value < 10 ^ d.point := by
  have length : 0 < d.digits.length := List.length_pos_iff.mpr nonempty
  have lower : (10 : ℚ) ^ (d.digits.length - 1) ≤ digitsValue d.digits 0 := by
    exact_mod_cast le_digitsValue digits nonempty head
  have upper : (digitsValue d.digits 0 : ℚ) < 10 ^ d.digits.length := by
    exact_mod_cast digitsValue_lt digits
  constructor
  · calc (10 : ℚ) ^ (d.point - 1) =
          10 ^ (d.digits.length - 1) * 10 ^ (d.point - d.digits.length) := by
          rw [← zpow_natCast, ← zpow_add₀ (by norm_num)]
          congr 1
          omega
      _ ≤ d.value := by
        rw [Decimal.value]
        gcongr
  · calc d.value < 10 ^ d.digits.length * 10 ^ (d.point - d.digits.length) := by
          rw [Decimal.value]
          gcongr
      _ = 10 ^ d.point := by
        rw [← zpow_natCast, ← zpow_add₀ (by norm_num)]
        congr 1
        ring

theorem Canonical.normal_shortest {m : ℕ} {e : ℤ} (canonical : Canonical m e) (tie : Tie) :
    (Decimal.shortest tie m e).Normal := by
  have near := canonical.near_shortest tie
  have digits : ∀ c ∈ (Decimal.shortest tie m e).digits, isDigit c = true :=
    fun c hc => isDigit_of_mem_shortest hc
  have bottom := near.half_le canonical
  have top := canonical.lt near
  have nonempty : (Decimal.shortest tie m e).digits ≠ [] := by
    intro none
    have zero : (Decimal.shortest tie m e).value = 0 := by
      rw [Decimal.value, none]
      simp [digitsValue]
    rw [zero] at bottom
    exact absurd bottom (not_le.mpr (by positivity))
  have head : (Decimal.shortest tie m e).digits.head? ≠ some '0' := by
    rw [Decimal.shortest]
    exact Decimal.head_ofUnits ((canonical.near_search tie).exponent_bounds canonical).1 _
  obtain ⟨lower, upper⟩ := Decimal.value_bounds digits nonempty head
  refine ⟨nonempty, digits, head, ?_, ?_⟩
  · by_contra! less
    have := (bottom.trans_lt upper).trans_le (ten_zpow_le (by omega))
    rw [zpow_lt_zpow_iff_right₀ (by norm_num)] at this
    omega
  · by_contra! more
    have : (2 : ℚ) ^ ((Decimal.shortest tie m e).point - 1) < 2 ^ (53 + e) :=
      ((zpow_le_zpow_left₀ (by omega) (by norm_num) (by norm_num)).trans lower).trans_lt top
    rw [zpow_lt_zpow_iff_right₀ (by norm_num)] at this
    have := canonical.top
    omega

/-! ## How many digits there are -/

theorem leadingZeros_le (unit fuel count value : ℕ) :
    leadingZeros unit fuel count value ≤ count + fuel := by
  induction fuel generalizing count value with
  | zero => exact Nat.le_refl _
  | succ fuel ih =>
    rw [leadingZeros]
    split
    · omega
    · have := ih (count + 1) (value * 10)
      omega

theorem Interval.le_point (i : Interval) : -399 ≤ i.point := by
  unfold Interval.point
  split
  · omega
  · have := leadingZeros_le i.unit 400 0 i.value
    omega

/-- The search does not go on to grids that are finer than it has been asked for. -/
theorem Interval.le_search (i : Interval) (tie : Tie) (point : ℤ) (more digits : ℕ) :
    point - (digits + more : ℕ) ≤ (i.search tie point more digits).2 := by
  induction more generalizing digits with
  | zero =>
    rw [search]
    dsimp only
    omega
  | succ more ih =>
    rw [search]
    split
    · dsimp only
      omega
    · have := ih (digits + 1)
      rwa [Nat.add_assoc, Nat.add_comm 1] at this

theorem Decimal.length_ofUnits (n : ℕ) (grid : ℤ) :
    ((Decimal.ofUnits n grid).digits.length : ℤ) ≤ (Decimal.ofUnits n grid).point - grid := by
  have fewer := ((Nat.toDigits 10 n).reverse.dropWhile_suffix (· == '0')).length_le
  simp only [Decimal.ofUnits, List.length_reverse] at fewer ⊢
  omega

theorem Canonical.length_shortest {m : ℕ} {e : ℤ} (canonical : Canonical m e) (tie : Tie) :
    (Decimal.shortest tie m e).digits.length ≤ 1441 := by
  have high := (canonical.normal_shortest tie).high
  have low := (Interval.around m e).le_point
  have grid := (Interval.around m e).le_search tie (Interval.around m e).point 17 1
  rw [Decimal.shortest] at high ⊢
  have length := Decimal.length_ofUnits
    ((Interval.around m e).search tie (Interval.around m e).point 17 1).1
    ((Interval.around m e).search tie (Interval.around m e).point 17 1).2
  dsimp only at high ⊢
  omega

end BraceScript.Number

-- The exact number that a double stands for. Finite doubles are compared by
-- these numbers, and a double is the place of something in a row if its number
-- is a whole one.
import BraceScript.Proofs.Number.Rounding

namespace BraceScript.Number

open Float.Model UnpackedFloat

/-- The number with a sign. -/
def signed (negative : Bool) (q : ℚ) : ℚ := if negative then -q else q

/-- The number that the form stands for, if it is finite. -/
def Exact.value? : Exact → Option ℚ
  | .finite negative m e => some (signed negative (m * 2 ^ e))
  | _ => none

/-- The number that a double stands for, if it is finite. -/
def value? (x : Float) : Option ℚ := (Exact.ofFloat x).value?

section

variable {x y : Float} {p q : ℚ} {m m' : ℕ} {e e' : ℤ}

theorem value?_eq_some : value? x = some q ↔
    ∃ negative m e, Exact.ofFloat x = .finite negative m e ∧ signed negative (m * 2 ^ e) = q := by
  unfold value?
  cases Exact.ofFloat x <;> simp [Exact.value?]

theorem isFinite_iff : x.isFinite = true ↔ ∃ q, value? x = some q := by
  change x.toModel.unpack.isFinite = true ↔ _
  unfold value? Exact.ofFloat
  cases x.toModel.unpack <;> simp [Exact.value?, UnpackedFloat.isFinite]

/-- The double with such a number is a zero, or else its mantissa is not. -/
theorem unpack_cases (h : value? x = some p) :
    (∃ sign, x.toModel.unpack = .zero sign ∧ p = 0) ∨
    ∃ sign m e positive, x.toModel.unpack = .finite sign m e positive ∧
      p = signed (isNegative sign) (m * 2 ^ e) := by
  unfold value? Exact.ofFloat at h
  cases unpacked : x.toModel.unpack with
  | notANumber | infinity => simp [unpacked, Exact.value?] at h
  | zero sign => exact .inl ⟨sign, rfl, by simpa [unpacked, Exact.value?, signed] using h.symm⟩
  | finite sign m e positive =>
    exact .inr ⟨sign, m, e, positive, rfl, by simpa [unpacked, Exact.value?] using h.symm⟩

/-! ## Whole numbers -/

/-- The whole part is all of the number if nothing is left over, and else the number is no whole
one. -/
theorem wholePart_cases (m : ℕ) (e : ℤ) : ∃ w more, wholePart m e = (w, more) ∧
    (more = false → (m * 2 ^ e : ℚ) = w) ∧ (more = true → ∀ n : ℤ, (m * 2 ^ e : ℚ) ≠ n) := by
  unfold wholePart
  split
  · next up =>
    obtain ⟨k, rfl⟩ := Int.eq_ofNat_of_zero_le up
    exact ⟨_, _, rfl, by simp, nofun⟩
  · next down =>
    obtain ⟨k, rfl⟩ : ∃ k : ℕ, e = -k := ⟨(-e).toNat, by omega⟩
    refine ⟨_, _, rfl, fun even => ?_, fun odd n whole => ?_⟩
    · simp only [neg_neg, Int.toNat_natCast, Nat.pow_eq, bne_eq_false_iff_eq] at even ⊢
      rw [Nat.cast_div (Nat.dvd_of_mod_eq_zero even) (by positivity), zpow_neg, zpow_natCast,
        div_eq_mul_inv]
      norm_cast
    · simp only [neg_neg, Int.toNat_natCast, Nat.pow_eq, bne_iff_ne] at odd
      rw [zpow_neg, zpow_natCast, ← div_eq_mul_inv, div_eq_iff (by positivity)] at whole
      norm_cast at whole
      have divides : ((2 ^ k : ℕ) : ℤ) ∣ (m : ℤ) := ⟨n, by rw [whole, mul_comm]⟩
      exact odd (Nat.mod_eq_zero_of_dvd (by exact_mod_cast divides))

/-- A double is read as a whole number if and only if its number is that one. -/
theorem toInt?_eq_some {n : ℤ} : toInt? x = some n ↔ value? x = some (n : ℚ) := by
  unfold toInt? value?
  cases Exact.ofFloat x with
  | nan | infinite => simp [Exact.value?]
  | finite negative m e =>
    obtain ⟨w, more, parts, whole, broken⟩ := wholePart_cases m e
    simp only [parts, Exact.value?]
    cases more with
    | false =>
      rw [whole rfl]
      cases negative <;> simp [signed] <;> norm_cast
    | true =>
      simp only [if_true, reduceCtorEq, Option.some.injEq, false_iff]
      cases negative with
      | false => exact broken rfl n
      | true =>
        intro same
        refine broken rfl (-n) ?_
        rw [signed, if_pos rfl] at same
        push_cast
        linarith

/-! ## Order -/

/-- Of two canonical forms the one with the greater exponent is the greater number. -/
theorem Canonical.lt_of_exponent_lt (canonical : Canonical m e) (canonical' : Canonical m' e')
    (below : e < e') : (m * 2 ^ e : ℚ) < m' * 2 ^ e' := by
  have fits : (m : ℚ) < 2 ^ 53 := by exact_mod_cast canonical.fits
  have bottom := canonical.bottom
  have full : (2 : ℚ) ^ 52 ≤ m' := by exact_mod_cast canonical'.full.resolve_right (by omega)
  calc (m * 2 ^ e : ℚ) < 2 ^ 53 * 2 ^ e := by gcongr
    _ = 2 ^ 52 * 2 ^ (e + 1) := by rw [zpow_add_one₀ (by norm_num)]; ring
    _ ≤ 2 ^ 52 * 2 ^ e' := by gcongr; norm_num; omega
    _ ≤ m' * 2 ^ e' := by gcongr

theorem Canonical.compare_eq (canonical : Canonical m e) (canonical' : Canonical m' e') :
    (compare e e').then (compare m m') = compare (m * 2 ^ e : ℚ) (m' * 2 ^ e') := by
  obtain below | rfl | above := lt_trichotomy e e'
  · rw [compare_lt_iff_lt.mpr below,
      compare_lt_iff_lt.mpr (canonical.lt_of_exponent_lt canonical' below)]
    rfl
  · rw [compare_eq_iff_eq.mpr rfl]
    have unit : (0 : ℚ) < 2 ^ e := by positivity
    obtain less | rfl | more := lt_trichotomy m m'
    · rw [compare_lt_iff_lt.mpr less, compare_lt_iff_lt.mpr (by gcongr)]
      rfl
    · rw [compare_eq_iff_eq.mpr rfl, compare_eq_iff_eq.mpr rfl]
      rfl
    · rw [compare_gt_iff_gt.mpr more, compare_gt_iff_gt.mpr (by gcongr)]
      rfl
  · rw [compare_gt_iff_gt.mpr above,
      compare_gt_iff_gt.mpr (canonical'.lt_of_exponent_lt canonical above)]
    rfl

theorem compare_neg (p q : ℚ) : compare (-p) (-q) = (compare p q).swap := by
  obtain less | rfl | more := lt_trichotomy p q
  · rw [compare_lt_iff_lt.mpr less, compare_gt_iff_gt.mpr (by linarith)]
    rfl
  · simp
  · rw [compare_gt_iff_gt.mpr more, compare_lt_iff_lt.mpr (by linarith)]
    rfl

/-- Finite doubles are compared by their numbers. -/
theorem compare_eq_of_value? (hx : value? x = some p) (hy : value? y = some q) :
    x.toModel.unpack.compare y.toModel.unpack = some (compare p q) := by
  obtain ⟨s, ux, rfl⟩ | ⟨s, m, e, positive, ux, rfl⟩ := unpack_cases hx <;>
    obtain ⟨s', uy, rfl⟩ | ⟨s', m', e', positive', uy, rfl⟩ := unpack_cases hy <;>
    rw [ux, uy]
  · rw [compare_eq_iff_eq.mpr rfl]
    rfl
  · have number : (0 : ℚ) < m' * 2 ^ e' := by positivity
    cases s' with
    | positive =>
      rw [isNegative, signed, if_neg (by simp), compare_lt_iff_lt.mpr number]
      rfl
    | negative =>
      rw [isNegative, signed, if_pos rfl, compare_gt_iff_gt.mpr (by linarith)]
      rfl
  · have number : (0 : ℚ) < m * 2 ^ e := by positivity
    cases s with
    | positive =>
      rw [isNegative, signed, if_neg (by simp), compare_gt_iff_gt.mpr number]
      rfl
    | negative =>
      rw [isNegative, signed, if_pos rfl, compare_lt_iff_lt.mpr (by linarith)]
      rfl
  · have number : (0 : ℚ) < m * 2 ^ e := by positivity
    have number' : (0 : ℚ) < m' * 2 ^ e' := by positivity
    have order := (Canonical.of_unpack ux).compare_eq (.of_unpack uy)
    cases s <;> cases s' <;> simp only [isNegative, signed, if_true, Bool.false_eq_true, if_false]
    · rw [compare_neg, ← order]
      rfl
    · rw [compare_lt_iff_lt.mpr (by linarith)]
      rfl
    · rw [compare_gt_iff_gt.mpr (by linarith)]
      rfl
    · rw [← order]
      rfl

theorem le_iff (hx : value? x = some p) (hy : value? y = some q) : x ≤ y ↔ p ≤ q := by
  change x.le y = true ↔ _
  unfold Float.le
  rw [decide_eq_true_iff]
  change x.toModel.unpack.le y.toModel.unpack = true ↔ _
  rw [UnpackedFloat.le, compare_eq_of_value? hx hy]
  simp [Ordering.isLE_iff_ne_gt, compare_gt_iff_gt]

theorem lt_iff (hx : value? x = some p) (hy : value? y = some q) : x < y ↔ p < q := by
  change x.lt y = true ↔ _
  unfold Float.lt
  rw [decide_eq_true_iff]
  change x.toModel.unpack.lt y.toModel.unpack = true ↔ _
  rw [UnpackedFloat.lt, compare_eq_of_value? hx hy]
  simp [compare_lt_iff_lt]

theorem beq_iff (hx : value? x = some p) (hy : value? y = some q) : (x == y) = true ↔ p = q := by
  change x.toModel.unpack.beq y.toModel.unpack = true ↔ _
  rw [UnpackedFloat.beq, compare_eq_of_value? hx hy]
  simp

end

end BraceScript.Number

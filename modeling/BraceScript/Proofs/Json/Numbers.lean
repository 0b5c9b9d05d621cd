-- Numbers in documents: how they are written, and that they are read back as
-- they were, but for the zero below zero, which is written without its sign.
import BraceScript.Proofs.Json.Lexemes
import BraceScript.Proofs.Number.Shortest
import BraceScript.Proofs.Number.Value
import Mathlib

namespace BraceScript.Json

open Number

/-! ## Numerals -/

/-- The parts of a number without its sign: digits, perhaps more of them behind
a point, and perhaps an exponent with its sign. -/
structure Numeral where
  whole : List Char
  fraction : List Char
  exponent : Option (Bool × List Char)
  nonempty : whole ≠ []
  whole_digits : ∀ c ∈ whole, isDigit c = true
  head : whole = ['0'] ∨ whole.head? ≠ some '0'
  fraction_digits : ∀ c ∈ fraction, isDigit c = true
  exponent_digits : ∀ p ∈ exponent, p.2 ≠ [] ∧ (∀ c ∈ p.2, isDigit c = true) ∧
    digitsValue p.2 0 ≤ largestExponent

namespace Numeral

def fractionChars (n : Numeral) : List Char :=
  if n.fraction = [] then [] else '.' :: n.fraction

def exponentChars (n : Numeral) : List Char :=
  match n.exponent with
  | none => []
  | some (negative, digits) => 'e' :: (if negative then '-' else '+') :: digits

def chars (n : Numeral) : List Char := n.whole ++ (n.fractionChars ++ n.exponentChars)

def units (n : Numeral) : ℕ := digitsValue n.fraction (digitsValue n.whole 0)

/-- The exponent that is written. -/
def power (n : Numeral) : ℤ :=
  match n.exponent with
  | none => 0
  | some (negative, digits) => if negative then -digitsValue digits 0 else digitsValue digits 0

/-- The exponent of the last digit. -/
def grid (n : Numeral) : ℤ := n.power - n.fraction.length

theorem isFraction (n : Numeral) : Fraction n.fractionChars n.fraction := by
  unfold Numeral.fractionChars
  split
  · next none =>
    rw [none]
    exact .none
  · next some => exact .some ⟨some, n.fraction_digits⟩

theorem isPower (n : Numeral) :
    Power n.exponentChars n.power ∧ n.power.natAbs ≤ largestExponent := by
  unfold Numeral.exponentChars Numeral.power
  split
  · exact ⟨.none, Nat.zero_le _⟩
  · next negative digits some =>
    obtain ⟨nonempty, all, small⟩ := n.exponent_digits _ some
    have isSign : PowerSign [if negative then '-' else '+'] negative := by
      cases negative
      · exact .plus
      · exact .minus
    exact ⟨.some (.inl rfl) isSign ⟨nonempty, all⟩, by cases negative <;> simpa using small⟩

theorem exists_cons (n : Numeral) : ∃ c cs, n.chars = c :: cs ∧ isDigit c = true := by
  obtain ⟨c, cs, whole⟩ := List.exists_cons_of_ne_nil n.nonempty
  exact ⟨c, cs ++ (n.fractionChars ++ n.exponentChars), by rw [chars, whole, List.cons_append],
    n.whole_digits c (by simp [whole])⟩

/-- A numeral spells the double nearest to it. -/
theorem size (n : Numeral) (finite : (ofDecimal n.units n.grid).isInf = false) :
    Size n.chars (ofDecimal n.units n.grid) :=
  .of ⟨⟨n.nonempty, n.whole_digits⟩, n.head⟩ n.isFraction n.isPower.1
    (.inRange n.isPower.2 ((isInf_ofDecimal_iff _ _).mp finite))

end Numeral

/-! ## What is written for a number -/

section

variable {d : Decimal}

/-- The number that a numeral stands for. -/
def Numeral.value (n : Numeral) : ℚ := n.units * 10 ^ n.grid

theorem isDigit_append_zeros {digits : List Char} (all : ∀ c ∈ digits, isDigit c = true)
    (count : ℤ) : ∀ c ∈ digits ++ zeros count, isDigit c = true := by
  intro c hc
  rcases List.mem_append.1 hc with hc | hc
  · exact all c hc
  · exact isDigit_of_mem_zeros hc

theorem positional_numeral (normal : d.Normal) :
    ∃ n : Numeral, d.positional true = n.chars ∧ n.value = d.value := by
  unfold Decimal.positional
  split
  · next point =>
    refine ⟨⟨['0'], zeros (-d.point) ++ d.digits, none, by simp, by simp [isDigit], .inl rfl, ?_,
      by simp⟩, ?_, ?_⟩
    · intro c hc
      rcases List.mem_append.1 hc with hc | hc
      · exact isDigit_of_mem_zeros hc
      · exact normal.digits c hc
    · simp [Numeral.chars, Numeral.fractionChars, Numeral.exponentChars, normal.nonempty]
    · have zero : digitsValue ['0'] 0 = 0 := rfl
      simp only [Numeral.value, Numeral.units, Numeral.grid, Numeral.power, Decimal.value,
        digitsValue_append, zeros, digitsValue_replicate, zero, zero_mul, List.length_append,
        List.length_replicate]
      congr 2
      omega
  split
  · next point short =>
    refine ⟨⟨d.digits ++ zeros (d.point - d.digits.length), ['0'], none, by simp [normal.nonempty],
      isDigit_append_zeros normal.digits _, .inr ?_, by simp [isDigit], by simp⟩, ?_, ?_⟩
    · rw [List.head?_append_of_ne_nil _ normal.nonempty]
      exact normal.head
    · simp [Numeral.chars, Numeral.fractionChars, Numeral.exponentChars]
    · have zero (start : ℕ) : digitsValue ['0'] start = start * 10 := rfl
      have power : (10 : ℚ) ^ (d.point - d.digits.length) =
          10 ^ (d.point - d.digits.length).toNat := by
        rw [← zpow_natCast]
        congr 1
        omega
      simp only [Numeral.value, Numeral.units, Numeral.grid, Numeral.power, Decimal.value,
        digitsValue_append, zeros, digitsValue_replicate, zero, List.length_singleton, power]
      push_cast
      rw [zpow_neg_one, mul_assoc, mul_inv_cancel₀ (by norm_num), mul_one]
  · next point long =>
    have some : d.digits.take d.point.toNat ≠ [] := by
      rw [Ne, List.take_eq_nil_iff]
      exact fun none => none.elim (by omega) normal.nonempty
    have more : d.digits.drop d.point.toNat ≠ [] := by
      rw [Ne, List.drop_eq_nil_iff]
      omega
    refine ⟨⟨d.digits.take d.point.toNat, d.digits.drop d.point.toNat, none, some, ?_, .inr ?_, ?_,
      by simp⟩, ?_, ?_⟩
    · exact fun c hc => normal.digits c (List.mem_of_mem_take hc)
    · rw [List.head?_take, if_neg (by omega)]
      exact normal.head
    · exact fun c hc => normal.digits c (List.mem_of_mem_drop hc)
    · simp [Numeral.chars, Numeral.fractionChars, Numeral.exponentChars, more]
    · simp only [Numeral.value, Numeral.units, Numeral.grid, Numeral.power, Decimal.value,
        ← digitsValue_append, List.take_append_drop, List.length_drop]
      congr 2
      omega

theorem scientific_numeral (normal : d.Normal) :
    ∃ n : Numeral, d.scientific true = n.chars ∧ n.value = d.value := by
  obtain ⟨digits, point⟩ := d
  obtain ⟨nonempty, all, head, low, high⟩ := normal
  obtain ⟨first, rest, rfl⟩ := List.exists_cons_of_ne_nil nonempty
  refine ⟨⟨[first], rest, some (decide (point - 1 < 0), Nat.toDigits 10 (point - 1).natAbs),
    by simp, ?_, .inr head, ?_, ?_⟩, ?_, ?_⟩
  · exact fun c hc => all c (by simpa using .inl (List.mem_singleton.mp hc))
  · exact fun c hc => all c (List.mem_cons_of_mem _ hc)
  · rintro p ⟨⟩
    refine ⟨Nat.toDigits_ne_nil, fun c => isDigit_of_mem_toDigits, ?_⟩
    rw [digitsValue_toDigits, largestExponent]
    simp only at low high
    omega
  · by_cases less : point - 1 < 0 <;> cases rest <;>
      simp [Decimal.scientific, Numeral.chars, Numeral.fractionChars, Numeral.exponentChars, less]
  · simp only [Numeral.value, Numeral.units, Numeral.grid, Numeral.power, Decimal.value,
      ← digitsValue_append, digitsValue_toDigits, List.singleton_append, List.length_cons]
    congr 2
    split <;> simp only [decide_eq_true_eq] at * <;> omega

end

/-! ## Numbers are read back -/

/-- A whole number is all of what it is the whole part of. -/
theorem wholePart_exact {m w : ℕ} {e : ℤ} (whole : wholePart m e = (w, false)) :
    (w : ℚ) = m * 2 ^ e := by
  unfold wholePart at whole
  split at whole
  · next up =>
    obtain ⟨k, rfl⟩ := Int.eq_ofNat_of_zero_le up
    cases whole
    simp
  · next down =>
    obtain ⟨k, rfl⟩ : ∃ k : ℕ, e = -k := ⟨(-e).toNat, by omega⟩
    simp only [neg_neg, Int.toNat_natCast, Nat.pow_eq, Prod.mk.injEq, bne_eq_false_iff_eq] at whole
    obtain ⟨rfl, even⟩ := whole
    rw [zpow_neg, zpow_natCast, Nat.cast_div (Nat.dvd_of_mod_eq_zero even) (by positivity),
      div_eq_mul_inv]
    norm_cast

theorem natural_numeral (k : ℕ) : ∃ n : Numeral, Nat.toDigits 10 k = n.chars ∧ n.value = k := by
  refine ⟨⟨Nat.toDigits 10 k, [], none, Nat.toDigits_ne_nil, fun c => isDigit_of_mem_toDigits, ?_,
    by simp, by simp⟩, by simp [Numeral.chars, Numeral.fractionChars, Numeral.exponentChars], ?_⟩
  · obtain rfl | nonzero := Nat.eq_zero_or_pos k
    · exact .inl (Nat.toDigits_zero 10)
    · exact .inr (head_toDigits nonzero.ne')
  · have units : digitsValue [] (digitsValue (Nat.toDigits 10 k) 0) = k := digitsValue_toDigits k
    simp [Numeral.value, Numeral.units, Numeral.grid, Numeral.power, units]

/-- In the layout of documents, the numeral of a number is nearest to it. -/
theorem layout_numeral {x : Float} {negative : Bool} {m : ℕ} {e : ℤ}
    (h : Exact.ofFloat x = .finite negative m e) (nonzero : m ≠ 0) :
    ∃ n : Numeral, (numberLayout.write x).toList = (if negative then '-' :: n.chars else n.chars) ∧
      Near m e n.value := by
  obtain ⟨canonical, -⟩ := exists_double_of_exact h nonzero
  have normal := canonical.normal_shortest .toEven
  have near := canonical.near_shortest .toEven
  obtain ⟨n, text, value⟩ : ∃ n : Numeral, n.chars =
      (if numberLayout.positional (Decimal.shortest .toEven m e).point
        then (Decimal.shortest .toEven m e).positional true
        else (Decimal.shortest .toEven m e).scientific true) ∧
      n.value = (Decimal.shortest .toEven m e).value := by
    split
    · exact (positional_numeral normal).imp fun n hn => ⟨hn.1.symm, hn.2⟩
    · exact (scientific_numeral normal).imp fun n hn => ⟨hn.1.symm, hn.2⟩
  refine ⟨n, ?_, by rwa [value]⟩
  rw [text]
  unfold Layout.write
  rw [h]
  simp only [if_neg nonzero, String.toList_ofList]
  rfl

/-- What is written for a finite number other than zero: a numeral that is
nearest to it, behind its sign. -/
theorem writeNumber_eq {x : Float} {negative : Bool} {m : ℕ} {e : ℤ}
    (h : Exact.ofFloat x = .finite negative m e) (nonzero : m ≠ 0) :
    ∃ n : Numeral, (writeNumber x).toList = (if negative then '-' :: n.chars else n.chars) ∧
      Near m e n.value := by
  unfold writeNumber
  split
  · next k whole =>
    split
    · unfold toInt? at whole
      rw [h] at whole
      obtain ⟨w, more, parts⟩ : ∃ w more, wholePart m e = (w, more) := ⟨_, _, rfl⟩
      simp only [parts] at whole
      split at whole
      · cases whole
      · next none =>
        cases whole
        rw [Bool.not_eq_true] at none
        subst none
        have exact := wholePart_exact parts
        obtain ⟨n, text, value⟩ := natural_numeral w
        refine ⟨n, ?_, by rw [value, exact]; exact near_self m e⟩
        rw [← text, Int.toString_eq_repr, Int.repr_eq_if]
        cases negative
        · rw [if_neg Bool.false_ne_true, if_neg Bool.false_ne_true, if_pos (by omega),
            Int.toNat_natCast, Nat.toList_repr]
        · have positive : w ≠ 0 := by
            rintro rfl
            have : (m : ℚ) * 2 ^ e ≠ 0 := by positivity
            exact this (by rw [← exact, Nat.cast_zero])
          rw [if_pos rfl, if_pos rfl, if_neg (by omega), String.toList_append, neg_neg,
            Int.toNat_natCast, Nat.toList_repr]
          rfl
    · exact layout_numeral h nonzero
  · exact layout_numeral h nonzero

/-- Zero is written without its sign. -/
theorem writeNumber_zero {x : Float} {negative : Bool} {e : ℤ}
    (h : Exact.ofFloat x = .finite negative 0 e) : writeNumber x = "0" := by
  have whole : wholePart 0 e = (0, false) := by
    unfold wholePart
    split <;> simp
  have zero : toInt? x = some 0 := by
    unfold toInt?
    rw [h]
    simp [whole]
  rw [writeNumber, zero]
  rfl

/-- The number, with one zero instead of two. -/
def oneZero (x : Float) : Float := if x == 0.0 then 0.0 else x

theorem oneZero_of_zero {x : Float} (zero : (x == 0.0) = true) : oneZero x = 0.0 := if_pos zero

theorem oneZero_beq {x : Float} (finite : x.isFinite = true) : (oneZero x == x) = true := by
  unfold oneZero
  split
  · next zero => exact BEq.symm zero
  · obtain ⟨q, hx⟩ := isFinite_iff.1 finite
    exact (beq_iff hx hx).2 rfl

theorem isFinite_oneZero {x : Float} (finite : x.isFinite = true) :
    (oneZero x).isFinite = true := by
  unfold oneZero
  split
  · rfl
  · exact finite

/-- The numbers that are written in digits. -/
theorem exact_of_isFinite {x : Float} (finite : x.isFinite = true) :
    ∃ negative m e, Exact.ofFloat x = .finite negative m e := by
  obtain ⟨q, hx⟩ := isFinite_iff.1 finite
  obtain ⟨negative, m, e, exact, -⟩ := value?_eq_some.1 hx
  exact ⟨negative, m, e, exact⟩

/-- What is written for a finite number spells it, but for the sign of zero. -/
theorem numeric_writeNumber {x : Float} (finite : x.isFinite = true) :
    Numeric (writeNumber x).toList (oneZero x) := by
  obtain ⟨negative, m, e, exact⟩ := exact_of_isFinite finite
  have isZero := beq_zero_of_exact exact
  by_cases zero : m = 0
  · subst zero
    rw [writeNumber_zero exact, oneZero_of_zero (isZero.mpr rfl)]
    obtain ⟨n, chars, units, grid⟩ : ∃ n : Numeral, n.chars = ['0'] ∧ n.units = 0 ∧ n.grid = 0 :=
      ⟨⟨['0'], [], none, by simp, by simp [isDigit], .inl rfl, by simp, by simp⟩, rfl, rfl, rfl⟩
    have read : ofDecimal n.units n.grid = 0.0 := by
      rw [units, grid]
      rfl
    have size := n.size (by rw [read]; rfl)
    rw [chars, read] at size
    exact .positive size
  · obtain ⟨n, text, near⟩ := writeNumber_eq exact zero
    obtain ⟨canonical, double⟩ := exists_double_of_exact exact zero
    have read : ofDecimal n.units n.grid = canonical.double .positive :=
      ofDecimal_of_near canonical near
    have size := n.size (by rw [read]; exact canonical.isInf_double _)
    have nonzero : ¬(x == 0.0) = true := by rwa [isZero]
    rw [read] at size
    rw [oneZero, if_neg nonzero, text, double]
    cases negative
    · exact .positive size
    · have numeric := Numeric.negative size
      rwa [canonical.neg_double] at numeric

end BraceScript.Json

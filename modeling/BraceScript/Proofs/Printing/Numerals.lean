-- How numbers are written in programs: digits, and a point with more digits if
-- they are not whole. Such a numeral is read to its end, up to anything that
-- cannot go on with it.
import BraceScript.Proofs.Scan
import Mathlib.Algebra.Group.Nat.Defs

namespace BraceScript

section

variable {p : Char → Bool} {a b : List Char}

/-- Characters in a row of which the next one is no more. -/
theorem takeWhile_append_of_ends (all : ∀ c ∈ a, p c = true) (ends : ∀ c ∈ b.head?, p c = false) :
    (a ++ b).takeWhile p = a := by
  rw [List.takeWhile_append_of_pos all]
  cases b with
  | nil => simp
  | cons c b => simp [ends c rfl]

theorem dropWhile_append_of_ends (all : ∀ c ∈ a, p c = true) (ends : ∀ c ∈ b.head?, p c = false) :
    (a ++ b).dropWhile p = b := by
  rw [List.dropWhile_append_of_pos all]
  cases b with
  | nil => rfl
  | cons c b => simp [ends c rfl]

/-- A row of characters is what is left of it without those at the end that are `c`, and these. -/
theorem exists_trailing (c : Char) (cs : List Char) :
    ∃ count, cs = (cs.reverse.dropWhile (· == c)).reverse ++ List.replicate count c := by
  obtain ⟨count, trailing⟩ : ∃ count, cs.reverse.takeWhile (· == c) = List.replicate count c := by
    have all := List.all_eq_true.1 (List.all_takeWhile (p := (· == c)) (l := cs.reverse))
    exact ⟨_, List.eq_replicate_iff.2 ⟨rfl, fun d hd => by simpa using all d hd⟩⟩
  refine ⟨count, ?_⟩
  calc cs = cs.reverse.reverse := cs.reverse_reverse.symm
    _ = (cs.reverse.dropWhile (· == c)).reverse ++ (cs.reverse.takeWhile (· == c)).reverse := by
      rw [← List.reverse_append, List.takeWhile_append_dropWhile]
    _ = _ := by rw [trailing, List.reverse_replicate]

end

namespace Number

/-! ## Numerals -/

theorem toLower_of_isDigit {c : Char} (digit : isDigit c = true) : c.toLower = c := by
  simp only [isDigit, Bool.and_eq_true, decide_eq_true_eq, Char.le_def] at digit
  have small : c.val ≤ 57 := digit.2
  unfold Char.toLower
  rw [dif_neg]
  exact fun upper => absurd (UInt32.le_trans upper.1 small) (by decide)

/-- Digits and, behind a point, perhaps more of them. -/
structure Numeral where
  whole : List Char
  fraction : Option (List Char)
  nonempty : whole ≠ []
  whole_digits : ∀ c ∈ whole, isDigit c = true
  fraction_digits : ∀ f ∈ fraction, ∀ c ∈ f, isDigit c = true

namespace Numeral

/-- What stands behind the digits in front. -/
def tail (n : Numeral) : List Char :=
  match n.fraction with
  | none => []
  | some f => '.' :: f

def chars (n : Numeral) : List Char := n.whole ++ n.tail

/-- The number that the numeral stands for. -/
def value (n : Numeral) : Float := ofDigits n.whole (n.fraction.getD [])

/-- The number that its digits spell without the point, and the place of the last of them. -/
def units (n : Numeral) : Nat := digitsValue (n.fraction.getD []) (digitsValue n.whole 0)

def grid (n : Numeral) : Int := -(n.fraction.getD []).length

theorem value_eq_ofDecimal (n : Numeral) : n.value = ofDecimal n.units n.grid := rfl

/-- A numeral begins with a digit. -/
theorem exists_cons (n : Numeral) : ∃ c cs, n.chars = c :: cs ∧ isDigit c = true := by
  obtain ⟨c, cs, h⟩ := List.exists_cons_of_ne_nil n.nonempty
  exact ⟨c, cs ++ n.tail, by simp [chars, h], n.whole_digits c (by simp [h])⟩

/-- The scanner takes a numeral whole, if nothing goes on with it. -/
theorem cutNumber_append (n : Numeral) {b : List Char}
    (ends : ∀ c ∈ b.head?, isDigit c = false ∧ c ≠ '.') :
    cutNumber (n.chars ++ b) = ⟨.token (.number n.value), n.chars, b⟩ := by
  obtain ⟨whole, fraction, -, digits, more⟩ := n
  have digitEnds : ∀ c ∈ b.head?, isDigit c = false := fun c hc => (ends c hc).1
  cases fraction with
  | none =>
    simp only [cutNumber, chars, tail, value, List.append_nil,
      takeWhile_append_of_ends digits digitEnds, dropWhile_append_of_ends digits digitEnds]
    cases b with
    | nil => rfl
    | cons c b =>
      split
      · next heq =>
        cases heq
        exact absurd rfl (ends '.' rfl).2
      · rfl
  | some f =>
    have point : ∀ c ∈ ('.' :: (f ++ b)).head?, isDigit c = false := by
      rintro c ⟨⟩
      rfl
    have fractionDigits := more f rfl
    simp only [cutNumber, chars, tail, value, List.append_assoc, List.cons_append,
      takeWhile_append_of_ends digits point, dropWhile_append_of_ends digits point,
      takeWhile_append_of_ends fractionDigits digitEnds,
      dropWhile_append_of_ends fractionDigits digitEnds, Option.getD_some]

theorem numeral?_chars (n : Numeral) : numeral? n.chars = some n.value := by
  obtain ⟨whole, fraction, nonempty, digits, more⟩ := n
  have some : whole.isEmpty = false := by simpa using nonempty
  cases fraction with
  | none =>
    have ends : ∀ c ∈ ([] : List Char).head?, isDigit c = false := by simp
    have front := takeWhile_append_of_ends digits ends
    have back := dropWhile_append_of_ends digits ends
    simp only [numeral?, chars, tail, front, back, some]
    simp [exponent?, value, ofDigits]
  | some f =>
    have point : ∀ c ∈ ('.' :: f).head?, isDigit c = false := by
      rintro c ⟨⟩
      rfl
    have ends : ∀ c ∈ ([] : List Char).head?, isDigit c = false := by simp
    have front := takeWhile_append_of_ends (more f rfl) ends
    have back := dropWhile_append_of_ends (more f rfl) ends
    rw [List.append_nil] at front back
    simp only [numeral?, chars, tail, takeWhile_append_of_ends digits point,
      dropWhile_append_of_ends digits point, front, back, some]
    simp [exponent?, value, ofDigits]

/-- A text that is a numeral reads as its number. -/
theorem ofText?_chars (n : Numeral) : ofText? n.chars = some n.value := by
  obtain ⟨c, cs, hcs, digit⟩ := n.exists_cons
  have unsigned : takeSign n.chars = (false, n.chars) := by
    rw [hcs]
    unfold takeSign
    split
    · next heq => cases heq; cases digit
    · next heq => cases heq; cases digit
    · rfl
  have first (w : String) (hw : String.ofList (n.chars.map Char.toLower) = w) :
      w.toList.head? = some c := by
    rw [← hw, String.toList_ofList, hcs, List.map_cons, toLower_of_isDigit digit]
    rfl
  unfold ofText?
  rw [unsigned]
  simp only [Bool.false_eq_true, if_false, Option.map_id']
  -- The words that are numbers begin with letters.
  split
  · next hw => cases Option.some.inj (first _ hw); cases digit
  · next hw => cases Option.some.inj (first _ hw); cases digit
  · next hw => cases Option.some.inj (first _ hw); cases digit
  · exact n.numeral?_chars

end Numeral

/-! ## Digits as a number -/

theorem digitsValue_append (a b : List Char) (start : Nat) :
    digitsValue (a ++ b) start = digitsValue b (digitsValue a start) :=
  List.foldl_append

theorem digitsValue_eq_ofDigitChars (digits : List Char) (start : Nat) :
    digitsValue digits start = Nat.ofDigitChars 10 digits start := by
  simp only [digitsValue, Nat.ofDigitChars_eq_foldl, Nat.mul_comm]

theorem digitsValue_replicate (count start : Nat) :
    digitsValue (List.replicate count '0') start = start * 10 ^ count := by
  rw [digitsValue_eq_ofDigitChars, Nat.ofDigitChars_replicate_zero, Nat.mul_comm]

/-! ## Numbers without exponents -/

theorem isDigit_of_mem_toDigits {m : Nat} {c : Char} (h : c ∈ Nat.toDigits 10 m) :
    isDigit c = true := by
  have digit := Nat.isDigit_of_mem_toDigits (by decide) (by decide) h
  simpa [isDigit, Char.isDigit, Char.le_def] using digit

theorem isDigit_of_mem_shortest {tie : Tie} {mantissa : Nat} {exponent : Int} {c : Char}
    (h : c ∈ (Decimal.shortest tie mantissa exponent).digits) : isDigit c = true := by
  simp only [Decimal.shortest, Decimal.ofUnits, List.mem_reverse] at h
  have listed := (List.dropWhile_sublist _).subset h
  exact isDigit_of_mem_toDigits (List.mem_reverse.1 listed)

theorem isDigit_of_mem_zeros {count : Int} {c : Char} (h : c ∈ zeros count) : isDigit c = true := by
  obtain rfl := List.eq_of_mem_replicate h
  rfl

/-- Digits with a point, or with zeros up to where it would be, are a numeral. It spells the
number of the digits, and that of the zeros behind them. -/
theorem exists_numeral_of_positional {d : Decimal} (digits : ∀ c ∈ d.digits, isDigit c = true) :
    ∃ n : Numeral, d.positional false = n.chars ∧
      n.units = digitsValue d.digits 0 * 10 ^ (d.point - d.digits.length).toNat ∧
      n.grid = min 0 (d.point - d.digits.length) := by
  unfold Decimal.positional
  split
  · next front =>
    refine ⟨⟨['0'], some (zeros (-d.point) ++ d.digits), by simp, by simp [isDigit], ?_⟩, rfl,
      ?_, ?_⟩
    · rintro f ⟨⟩ c hc
      rcases List.mem_append.1 hc with hc | hc
      · exact isDigit_of_mem_zeros hc
      · exact digits c hc
    · have zero : digitsValue ['0'] 0 = 0 := rfl
      have none : (d.point - d.digits.length).toNat = 0 := by omega
      simp only [Numeral.units, Option.getD_some, digitsValue_append, zero, zeros,
        digitsValue_replicate, Nat.zero_mul, none, Nat.pow_zero, Nat.mul_one]
    · simp only [Numeral.grid, Option.getD_some, List.length_append, zeros, List.length_replicate]
      omega
  split
  · refine ⟨⟨d.digits ++ zeros (d.point - d.digits.length), none, ?_, ?_, by simp⟩, by
      simp [Numeral.chars, Numeral.tail], ?_, ?_⟩
    · intro none
      have length := congrArg List.length none
      simp only [zeros, List.length_append, List.length_replicate, List.length_nil] at length
      omega
    · intro c hc
      rcases List.mem_append.1 hc with hc | hc
      · exact digits c hc
      · exact isDigit_of_mem_zeros hc
    · rw [← digitsValue_replicate, ← digitsValue_append]
      rfl
    · simp only [Numeral.grid, Option.getD_none, List.length_nil]
      omega
  · refine ⟨⟨d.digits.take d.point.toNat, some (d.digits.drop d.point.toNat), ?_, ?_, ?_⟩, rfl,
      ?_, ?_⟩
    · intro none
      have length := congrArg List.length none
      rw [List.length_take, List.length_nil] at length
      omega
    · exact fun c hc => digits c (List.mem_of_mem_take hc)
    · rintro f ⟨⟩ c hc
      exact digits c (List.mem_of_mem_drop hc)
    · have none : (d.point - d.digits.length).toNat = 0 := by omega
      simp only [Numeral.units, Option.getD_some, ← digitsValue_append, List.take_append_drop,
        none, Nat.pow_zero, Nat.mul_one]
    · simp only [Numeral.grid, Option.getD_some, List.length_drop]
      omega

/-- The number is finite and stands with no sign: it is not below zero, nor the zero that is. -/
def isUnsigned (x : Float) : Bool :=
  match Exact.ofFloat x with
  | .finite negative _ _ => !negative
  | _ => false

/-- Such a number is written as a numeral. -/
theorem exists_numeral {x : Float} (h : isUnsigned x = true) :
    ∃ n : Numeral, (Token.Kind.numberLayout.write x).toList = n.chars := by
  unfold isUnsigned at h
  unfold Layout.write
  split at h
  · next negative mantissa exponent hx =>
    obtain rfl : negative = false := by simpa using h
    rw [hx]
    dsimp only
    split
    · exact ⟨⟨['0'], none, by simp, by simp [isDigit], by simp⟩, rfl⟩
    · obtain ⟨n, hn, -⟩ := exists_numeral_of_positional (fun c => isDigit_of_mem_shortest)
      exact ⟨n, by simpa [Token.Kind.numberLayout] using hn⟩
  · cases h

end Number

end BraceScript

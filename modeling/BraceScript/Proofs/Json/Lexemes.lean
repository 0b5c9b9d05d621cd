-- The readers of numbers, texts and words: what they take off the front is a
-- number or a text of the grammar, and they take all of it.
import BraceScript.Proofs.Json.Grammar
import BraceScript.Proofs.Printing.Numerals
import Mathlib

namespace BraceScript.Json

open Number

variable {i i' : Input} {rest : List Char}

theorem ok_bind {ε α β : Type} (a : α) (f : α → Except ε β) : (Except.ok a >>= f) = f a := rfl

theorem exists_of_bind {ε β γ : Type} {r : Except ε β} {f : β → Except ε γ} {c : γ}
    (h : (r >>= f) = .ok c) : ∃ b, r = .ok b ∧ f b = .ok c := by
  cases r with
  | error => cases h
  | ok b => exact ⟨b, rfl, h⟩

theorem exists_of_map {ε β γ : Type} {r : Except ε β} {f : β → γ} {c : γ}
    (h : r.map f = .ok c) : ∃ b, r = .ok b ∧ f b = c := by
  cases r with
  | error => cases h
  | ok b =>
    cases h
    exact ⟨b, rfl, rfl⟩

/-! ## Numbers -/

/-- Nothing that goes on with a number. -/
def EndsNumber (rest : List Char) : Prop :=
  ∀ c ∈ rest.head?, isDigit c = false ∧ c ≠ '.' ∧ c ≠ 'e' ∧ c ≠ 'E'

theorem EndsNumber.notDigit {rest : List Char} (ends : EndsNumber rest) :
    ∀ c ∈ rest.head?, isDigit c = false := fun c hc => (ends c hc).1

theorem readWhole_sound {ds : List Char} (h : readWhole i = .ok (ds, i')) :
    i.rest = ds ++ i'.rest ∧ Whole ds := by
  unfold readWhole at h
  split at h
  · split at h <;> cases h
  · cases h
  · next some noZero =>
    cases h
    refine ⟨(List.takeWhile_append_dropWhile ..).symm, ⟨some, fun c => List.mem_takeWhile_imp⟩, ?_⟩
    generalize i.rest.takeWhile isDigit = ds at some noZero
    match ds, some with
    | [c], _ =>
      by_cases zero : c = '0'
      · exact .inl (by rw [zero])
      · exact .inr (by simpa using zero)
    | c :: d :: ds, _ =>
      refine .inr fun zero => ?_
      obtain rfl : c = '0' := by simpa using zero
      exact noZero d ds rfl

theorem takes_readWhole {ds : List Char} (whole : Whole ds)
    (ends : ∀ c ∈ rest.head?, isDigit c = false) (place : Place) :
    ∃ place', readWhole ⟨ds ++ rest, place⟩ = .ok (ds, ⟨rest, place'⟩) := by
  have front := takeWhile_append_of_ends whole.all ends
  have back := dropWhile_append_of_ends whole.all ends
  simp only [readWhole, Input.dropWhile, front, back]
  split
  · exact absurd rfl whole.nonempty
  · obtain one | other := whole.head
    · cases one
    · exact absurd rfl other
  · exact ⟨_, rfl⟩

theorem readFraction_sound {ds : List Char} (h : readFraction i = .ok (ds, i')) :
    ∃ cs, i.rest = cs ++ i'.rest ∧ Fraction cs ds := by
  unfold readFraction at h
  split at h
  · next rest point =>
    split at h
    · cases h
    · next some =>
      cases h
      refine ⟨_, ?_, .some ⟨some, fun c => List.mem_takeWhile_imp⟩⟩
      simp only [Input.drop, point, Input.dropWhile, List.cons_append,
        List.takeWhile_append_dropWhile]
  · cases h
    exact ⟨[], rfl, .none⟩

theorem takes_readFraction {cs ds : List Char} (fraction : Fraction cs ds)
    (ends : ∀ c ∈ rest.head?, isDigit c = false ∧ c ≠ '.') (place : Place) :
    ∃ place', readFraction ⟨cs ++ rest, place⟩ = .ok (ds, ⟨rest, place'⟩) := by
  cases fraction with
  | none =>
    refine ⟨place, ?_⟩
    unfold readFraction
    split
    · next rest' point => exact absurd rfl (ends '.' (by
        change rest = '.' :: rest' at point
        rw [point]
        rfl)).2
    · rfl
  | some digits =>
    have ends : ∀ c ∈ rest.head?, isDigit c = false := fun c hc => (ends c hc).1
    have front := takeWhile_append_of_ends digits.all ends
    have back := dropWhile_append_of_ends digits.all ends
    simp only [readFraction, List.cons_append, front, Input.drop, Input.dropWhile, back]
    split
    · exact absurd rfl digits.nonempty
    · exact ⟨_, rfl⟩

/-- What is kept of an exponent: nothing, if it is too large and makes zero. -/
inductive Kept (isZero : Bool) (power : Int) : Option Int → Prop where
  | all (fits : power.natAbs ≤ largestExponent) : Kept isZero power (some power)
  | none (large : largestExponent < power.natAbs) (small : isZero = true ∨ power < 0) :
    Kept isZero power none

theorem readExponent_sound {isZero negative : Bool} {kept : Option Int}
    (h : readExponent isZero negative i = .ok (kept, i')) :
    ∃ ds, i.rest = ds ++ i'.rest ∧ Digits ds ∧
      Kept isZero (if negative then -(digitsValue ds 0 : Int) else digitsValue ds 0) kept := by
  unfold readExponent at h
  dsimp only at h
  split at h
  · split at h <;> cases h
  · next some =>
    have digits : Digits (i.rest.takeWhile isDigit) :=
      ⟨by simpa using some, fun c => List.mem_takeWhile_imp⟩
    refine ⟨i.rest.takeWhile isDigit, ?_, digits, ?_⟩
    · split at h
      · cases h
        exact (List.takeWhile_append_dropWhile ..).symm
      · split at h
        · cases h
          exact (List.takeWhile_append_dropWhile ..).symm
        · cases h
    · split at h
      · next fits =>
        cases h
        refine .all ?_
        cases negative <;> simpa using fits
      · next large =>
        split at h
        · next small =>
          cases h
          refine .none (by cases negative <;> simpa using large) ?_
          cases negative
          · exact .inl (by simpa using small)
          · refine .inr ?_
            simp only [if_true]
            omega
        · cases h

theorem takes_readExponent {isZero negative : Bool} {kept : Option Int} {ds : List Char}
    (digits : Digits ds)
    (isKept : Kept isZero (if negative then -(digitsValue ds 0 : Int) else digitsValue ds 0) kept)
    (ends : ∀ c ∈ rest.head?, isDigit c = false) (place : Place) :
    ∃ place', readExponent isZero negative ⟨ds ++ rest, place⟩ = .ok (kept, ⟨rest, place'⟩) := by
  have front := takeWhile_append_of_ends digits.all ends
  have back := dropWhile_append_of_ends digits.all ends
  have some : ds.isEmpty = false := by simpa using digits.nonempty
  have size : (if negative then -(digitsValue ds 0 : Int) else digitsValue ds 0).natAbs =
      digitsValue ds 0 := by
    cases negative <;> simp
  simp only [readExponent, front, back, some, Bool.false_eq_true, if_false, Input.dropWhile]
  cases isKept with
  | all fits =>
    rw [size] at fits
    exact ⟨_, by rw [if_pos fits]⟩
  | none large small =>
    rw [size] at large
    have vanishes : (isZero || negative) = true := by
      obtain zero | below := small
      · rw [zero, Bool.true_or]
      · cases negative
        · simp only [Bool.false_eq_true, if_false] at below
          omega
        · exact Bool.or_true _
    exact ⟨_, by rw [if_neg (by omega), if_pos vanishes]⟩

theorem readPower_sound {isZero : Bool} {kept : Option Int}
    (h : readPower isZero i = .ok (kept, i')) :
    ∃ cs power, i.rest = cs ++ i'.rest ∧ Power cs power ∧ Kept isZero power kept := by
  unfold readPower at h
  split at h
  · next none =>
    cases h
    exact ⟨[], 0, rfl, .none, .all (Nat.zero_le _)⟩
  · next c rest letter =>
    split at h
    · next isLetter =>
      have isLetter : c = 'e' ∨ c = 'E' := by simpa using isLetter
      split at h
      · next sign =>
        obtain ⟨ds, same, digits, isKept⟩ := readExponent_sound h
        refine ⟨_, _, ?_, .some isLetter .plus digits, isKept⟩
        simpa [Input.drop, letter] using same
      · next sign =>
        obtain ⟨ds, same, digits, isKept⟩ := readExponent_sound h
        refine ⟨_, _, ?_, .some isLetter .minus digits, isKept⟩
        simpa [Input.drop, letter] using same
      · obtain ⟨ds, same, digits, isKept⟩ := readExponent_sound h
        refine ⟨_, _, ?_, .some isLetter .none digits, isKept⟩
        simpa [Input.drop, letter] using same
    · cases h
      exact ⟨[], 0, rfl, .none, .all (Nat.zero_le _)⟩

theorem takes_readPower {isZero : Bool} {cs : List Char} {power : Int} {kept : Option Int}
    (isPower : Power cs power) (isKept : Kept isZero power kept) (ends : EndsNumber rest)
    (place : Place) :
    ∃ place', readPower isZero ⟨cs ++ rest, place⟩ = .ok (kept, ⟨rest, place'⟩) := by
  cases isPower with
  | none =>
    obtain rfl : kept = some 0 := by
      cases isKept with
      | all => rfl
      | none large => exact absurd large (by decide)
    refine ⟨place, ?_⟩
    unfold readPower
    rw [List.nil_append]
    cases rest with
    | nil => rfl
    | cons c cs =>
      obtain ⟨-, -, lower, upper⟩ := ends c rfl
      simp [lower, upper]
  | @some letter sign negative ds isLetter isSign digits =>
    have isLetter : (letter == 'e' || letter == 'E') = true := by simpa using isLetter
    have read := takes_readExponent digits isKept ends.notDigit
    cases isSign with
    | none =>
      obtain ⟨place', read⟩ := read (Input.after place letter)
      refine ⟨place', ?_⟩
      obtain ⟨c, ds, rfl⟩ := List.exists_cons_of_ne_nil digits.nonempty
      have digit := digits.all c List.mem_cons_self
      simp only [readPower, List.nil_append, List.cons_append, isLetter, if_true]
      split
      · next plus =>
        cases plus
        cases digit
      · next minus =>
        cases minus
        cases digit
      · exact read
    | plus =>
      obtain ⟨place', read⟩ := read (Input.after (Input.after place letter) '+')
      exact ⟨place', by simpa [readPower, isLetter, Input.drop] using read⟩
    | minus =>
      obtain ⟨place', read⟩ := read (Input.after (Input.after place letter) '-')
      exact ⟨place', by simpa [readPower, isLetter, Input.drop] using read⟩

theorem Power.notDigit {cs : List Char} {power : Int} (isPower : Power cs power)
    (ends : EndsNumber rest) : ∀ c ∈ (cs ++ rest).head?, isDigit c = false ∧ c ≠ '.' := by
  cases isPower with
  | none => exact fun c hc => ⟨(ends c hc).1, (ends c hc).2.1⟩
  | some isLetter =>
    rintro c ⟨⟩
    obtain rfl | rfl := isLetter <;> decide

theorem Fraction.notDigit {cs ds : List Char} (fraction : Fraction cs ds)
    (ends : ∀ c ∈ rest.head?, isDigit c = false ∧ c ≠ '.') :
    ∀ c ∈ (cs ++ rest).head?, isDigit c = false := by
  cases fraction with
  | none => exact fun c hc => (ends c hc).1
  | some =>
    rintro c ⟨⟩
    rfl

/-- What is read as a number without its sign. -/
theorem readNumber_sound {negative : Bool} {j : Json} (h : readNumber negative i = .ok (j, i')) :
    ∃ cs x, i.rest = cs ++ i'.rest ∧ Size cs x ∧ j = .number (if negative then -x else x) := by
  unfold readNumber at h
  obtain ⟨⟨whole, i₁⟩, readWhole, h⟩ := exists_of_bind h
  obtain ⟨⟨fraction, i₂⟩, readFraction, h⟩ := exists_of_bind h
  obtain ⟨⟨kept, i₃⟩, readPower, h⟩ := exists_of_bind h
  obtain ⟨front, isWhole⟩ := readWhole_sound readWhole
  obtain ⟨fractionText, middle, isFraction⟩ := readFraction_sound readFraction
  obtain ⟨powerText, power, back, isPower, isKept⟩ := readPower_sound readPower
  dsimp only at front middle back isKept h
  have chars : i.rest = whole ++ (fractionText ++ powerText) ++ i₃.rest := by
    simp only [front, middle, back, List.append_assoc]
  cases isKept with
  | none large small =>
    cases h
    refine ⟨_, _, chars, .of isWhole isFraction isPower (.vanishing large ?_), rfl⟩
    simpa using small
  | all fits =>
    dsimp only at h
    split at h
    · cases h
    · next finite =>
      cases h
      refine ⟨_, _, chars, .of isWhole isFraction isPower (.inRange fits ?_), rfl⟩
      exact (isInf_ofDecimal_iff _ _).mp (by simpa using finite)

/-- A number without its sign is read. -/
theorem takes_readNumber (negative : Bool) {cs : List Char} {x : Float} (size : Size cs x)
    (ends : EndsNumber rest) (place : Place) : ∃ place', readNumber negative ⟨cs ++ rest, place⟩ =
      .ok (.number (if negative then -x else x), ⟨rest, place'⟩) := by
  obtain ⟨isWhole, isFraction, isPower, nearest⟩ := size
  next whole fractionText fraction powerText power =>
  have behindFraction := isPower.notDigit ends
  obtain ⟨place, readWhole⟩ := takes_readWhole isWhole (isFraction.notDigit behindFraction) place
  obtain ⟨place, readFraction⟩ := takes_readFraction isFraction behindFraction place
  unfold readNumber
  simp only [List.append_assoc, readWhole, ok_bind, readFraction]
  cases nearest with
  | inRange fits below =>
    have isKept : Kept (digitsValue fraction (digitsValue whole 0) == 0) power (some power) :=
      .all fits
    obtain ⟨place', readPower⟩ := takes_readPower isPower isKept ends place
    have finite := (isInf_ofDecimal_iff _ _).mpr below
    refine ⟨place', ?_⟩
    simp only [readPower, ok_bind, finite]
    rfl
  | vanishing large small =>
    have isKept : Kept (digitsValue fraction (digitsValue whole 0) == 0) power none :=
      .none large (by simpa using small)
    obtain ⟨place', readPower⟩ := takes_readPower isPower isKept ends place
    refine ⟨place', ?_⟩
    simp only [readPower, ok_bind]
    rfl

/-! ## Texts -/

theorem utf8Size_of_hexValue? {c : Char} {n : ℕ} (h : hexValue? c = some n) : c.utf8Size = 1 := by
  have small : c ≤ 'f' := by
    unfold hexValue? at h
    simp only [Bool.and_eq_true, decide_eq_true_eq] at h
    split at h
    · next range => exact range.2.trans (by decide)
    split at h
    · next range => exact range.2
    split at h
    · next range => exact range.2.trans (by decide)
    · cases h
  rw [Char.utf8Size_eq_one_iff]
  exact UInt32.le_trans small (by decide)

theorem exists_of_mapM_cons {β γ : Type} {f : β → Option γ} {b : β} {bs : List β} {results : List γ}
    (h : (b :: bs).mapM f = some results) :
    ∃ c cs, f b = some c ∧ bs.mapM f = some cs ∧ results = c :: cs := by
  rw [List.mapM_cons] at h
  obtain ⟨c, first, h⟩ := Option.bind_eq_some_iff.mp h
  obtain ⟨cs, others, h⟩ := Option.bind_eq_some_iff.mp h
  exact ⟨c, cs, first, others, (Option.some.inj h).symm⟩

theorem byteLength_of_mapM_hexValue? {cs : List Char} {values : List ℕ}
    (h : cs.mapM hexValue? = some values) : byteLength cs = cs.length := by
  induction cs generalizing values with
  | nil => rfl
  | cons c cs ih =>
    obtain ⟨_, _, first, others, -⟩ := exists_of_mapM_cons h
    rw [byteLength_cons, utf8Size_of_hexValue? first, ih others, List.length_cons, Nat.add_comm]

theorem readHex_sound {n : ℕ} (h : readHex i = .ok (n, i')) :
    ∃ ds, i.rest = ds ++ i'.rest ∧ Hex ds n := by
  unfold readHex at h
  split at h
  · cases h
  · next long =>
    split at h
    · next values found =>
      cases h
      rw [byteLength_of_mapM_hexValue? found] at long
      obtain ⟨chars, place⟩ := i
      match chars, long, found with
      | a :: b :: c :: d :: rest, _, found =>
        obtain ⟨k, _, first, three, rfl⟩ := exists_of_mapM_cons found
        obtain ⟨l, _, second, two, rfl⟩ := exists_of_mapM_cons three
        obtain ⟨m, _, third, one, rfl⟩ := exists_of_mapM_cons two
        obtain ⟨n, _, fourth, none, rfl⟩ := exists_of_mapM_cons one
        cases none
        refine ⟨[a, b, c, d], rfl, ?_⟩
        simpa using Hex.of first second third fourth
      | [_, _, _], long, _ | [_, _], long, _ | [_], long, _ | [], long, _ => simp at long
    · cases h

theorem takes_readHex {ds : List Char} {n : ℕ} (hex : Hex ds n) (rest : List Char) (place : Place) :
    ∃ place', readHex ⟨ds ++ rest, place⟩ = .ok (n, ⟨rest, place'⟩) := by
  obtain ⟨first, second, third, fourth⟩ := hex
  next a b c d k l m n =>
  have long : ¬byteLength [a, b, c, d] < 4 := by
    have := a.utf8Size_pos
    have := b.utf8Size_pos
    have := c.utf8Size_pos
    have := d.utf8Size_pos
    simp only [byteLength_cons, byteLength_nil]
    omega
  simp only [readHex, List.cons_append, List.nil_append, List.take_succ_cons, List.take_zero,
    if_neg long, List.mapM_cons, List.mapM_nil, first, second, third, fourth,
    Option.bind_eq_bind, Option.bind_some, Option.pure_def, List.foldl_cons, List.foldl_nil,
    Input.drop]
  exact ⟨_, by rw [Nat.zero_mul, Nat.zero_add]⟩

theorem readInPair_sound {c : Char} (h : readInPair c i = .ok i') : i.rest = c :: i'.rest := by
  unfold readInPair at h
  split at h
  · cases h
  · next d rest chars =>
    split at h
    · next same =>
      cases h
      simp [Input.drop, chars, same]
    · cases h

theorem takes_readInPair (c : Char) (rest : List Char) (place : Place) :
    ∃ place', readInPair c ⟨c :: rest, place⟩ = .ok ⟨rest, place'⟩ :=
  ⟨_, if_pos rfl⟩

/-- What is read as a character by its number. -/
theorem readCodePoint_sound {c : Char} (h : readCodePoint i = .ok (c, i')) :
    ∃ cs, i.rest = cs ++ i'.rest ∧ Spelled ('\\' :: 'u' :: cs) c := by
  unfold readCodePoint at h
  obtain ⟨⟨high, i₁⟩, readHigh, h⟩ := exists_of_bind h
  obtain ⟨ds, chars, hex⟩ := readHex_sound readHigh
  dsimp only at chars h
  split at h
  · cases h
  · next notLow =>
    simp only [Bool.and_eq_true, decide_eq_true_eq] at notLow
    split at h
    · next alone =>
      cases h
      refine ⟨ds, chars, .number hex ?_⟩
      simp only [Bool.or_eq_true, decide_eq_true_eq] at alone
      omega
    · next isHigh =>
      simp only [Bool.or_eq_true, decide_eq_true_eq] at isHigh
      obtain ⟨i₂, backslash, h⟩ := exists_of_bind h
      obtain ⟨i₃, letter, h⟩ := exists_of_bind h
      obtain ⟨⟨low, i₄⟩, readLow, h⟩ := exists_of_bind h
      obtain ⟨es, chars', hex'⟩ := readHex_sound readLow
      dsimp only at chars' h
      split at h
      · cases h
      · next isLow =>
        obtain ⟨rfl, rfl⟩ := Prod.mk.inj (Except.ok.inj h)
        simp only [Bool.or_eq_true, decide_eq_true_eq] at isLow
        refine ⟨_, ?_, .pair hex hex' (by omega) (by omega)⟩
        rw [chars, readInPair_sound backslash, readInPair_sound letter, chars']
        simp

/-- A character by its number is read. -/
theorem takes_readCodePoint {cs : List Char} {c : Char} (spelled : Spelled ('\\' :: 'u' :: cs) c)
    (rest : List Char) (place : Place) :
    ∃ place', readCodePoint ⟨cs ++ rest, place⟩ = .ok (c, ⟨rest, place'⟩) := by
  cases spelled with
  | escape known => simp [escapes] at known
  | @number _ n hex alone =>
    obtain ⟨place, readHex⟩ := takes_readHex hex rest place
    refine ⟨place, ?_⟩
    have notLow : ¬(decide (0xdc00 ≤ n) && decide (n ≤ 0xdfff)) = true := by
      simp only [Bool.and_eq_true, decide_eq_true_eq]
      omega
    have notHigh : (decide (n < 0xd800) || decide (0xdbff < n)) = true := by
      simp only [Bool.or_eq_true, decide_eq_true_eq]
      omega
    simp only [readCodePoint, readHex, ok_bind, if_neg notLow, if_pos notHigh]
    rfl
  | @pair ds es high low hex hex' isHigh isLow =>
    obtain ⟨place, readHigh⟩ := takes_readHex hex ('\\' :: 'u' :: (es ++ rest)) place
    obtain ⟨place, backslash⟩ := takes_readInPair '\\' ('u' :: (es ++ rest)) place
    obtain ⟨place, letter⟩ := takes_readInPair 'u' (es ++ rest) place
    obtain ⟨place, readLow⟩ := takes_readHex hex' rest place
    refine ⟨place, ?_⟩
    have notLow : ¬(decide (0xdc00 ≤ high) && decide (high ≤ 0xdfff)) = true := by
      simp only [Bool.and_eq_true, decide_eq_true_eq]
      omega
    have high' : ¬(decide (high < 0xd800) || decide (0xdbff < high)) = true := by
      simp only [Bool.or_eq_true, decide_eq_true_eq]
      omega
    have low' : ¬(decide (low < 0xdc00) || decide (0xdfff < low)) = true := by
      simp only [Bool.or_eq_true, decide_eq_true_eq]
      omega
    simp only [readCodePoint, List.append_assoc, List.cons_append, readHigh, ok_bind,
      if_neg notLow, if_neg high', backslash, letter, readLow, if_neg low']
    rfl

/-- What is read behind a backslash. -/
theorem readEscape_sound {c : Char} (h : readEscape i = .ok (c, i')) :
    ∃ cs, i.rest = cs ++ i'.rest ∧ Spelled ('\\' :: cs) c := by
  have escape {letter c : Char} {rest : List Char} (chars : i.rest = letter :: rest)
      (known : (letter, c) ∈ escapes) :
      ∃ cs, i.rest = cs ++ i.drop.rest ∧ Spelled ('\\' :: cs) c :=
    ⟨[letter], by simp [Input.drop, chars], .escape known⟩
  unfold readEscape at h
  split at h
  · cases h
  iterate 8
    · next chars =>
      cases h
      exact escape chars (by decide)
  · next rest chars =>
    obtain ⟨cs, others, spelled⟩ := readCodePoint_sound h
    refine ⟨'u' :: cs, ?_, spelled⟩
    rw [chars, List.cons_append, ← others]
    simp [Input.drop, chars]
  · cases h

/-- A character that is not spelled as itself is read behind the backslash. -/
theorem takes_readEscape {cs : List Char} {c : Char} (spelled : Spelled ('\\' :: cs) c)
    (rest : List Char) (place : Place) :
    ∃ place', readEscape ⟨cs ++ rest, place⟩ = .ok (c, ⟨rest, place'⟩) := by
  cases spelled with
  | itself _ _ noBackslash => exact absurd rfl noBackslash
  | escape known =>
    simp only [escapes, List.mem_cons, Prod.mk.injEq, List.not_mem_nil, or_false] at known
    obtain ⟨rfl, rfl⟩ | ⟨rfl, rfl⟩ | ⟨rfl, rfl⟩ | ⟨rfl, rfl⟩ | ⟨rfl, rfl⟩ | ⟨rfl, rfl⟩ |
      ⟨rfl, rfl⟩ | ⟨rfl, rfl⟩ := known <;> exact ⟨_, rfl⟩
  | number hex alone =>
    exact takes_readCodePoint (.number hex alone) rest (Input.after place 'u')
  | pair hex hex' isHigh isLow =>
    exact takes_readCodePoint (.pair hex hex' isHigh isLow) rest (Input.after place 'u')

theorem readTextFrom_sound {fuel : ℕ} {read : List Char} {s : String}
    (h : readTextFrom fuel read i = .ok (s, i')) :
    ∃ cs text, i.rest = cs ++ '"' :: i'.rest ∧ Spelling cs text ∧
      s = String.ofList (read.reverse ++ text) := by
  induction fuel generalizing read i with
  | zero => cases h
  | succ fuel ih =>
    unfold readTextFrom at h
    split at h
    · cases h
    · next chars =>
      cases h
      exact ⟨[], [], by simp [Input.drop, chars], .nil, by rw [List.append_nil]⟩
    · next rest chars =>
      split at h
      · next c i₁ escape =>
        obtain ⟨cs, front, spelled⟩ := readEscape_sound escape
        obtain ⟨rest', text, others, spelling, rfl⟩ := ih h
        refine ⟨'\\' :: cs ++ rest', c :: text, ?_, .cons spelled spelling, by simp⟩
        simp only [Input.drop, chars] at front
        simp [chars, front, others]
      · cases h
    · next c rest noQuote noBackslash chars =>
      split at h
      · cases h
      · next noControl =>
        obtain ⟨rest', text, others, spelling, rfl⟩ := ih h
        simp only [Input.drop, chars] at others
        refine ⟨[c] ++ rest', c :: text, by simp [chars, others],
          .cons (.itself (by omega) ?_ ?_) spelling, by simp⟩
        · rintro rfl
          exact noQuote rfl
        · rintro rfl
          exact noBackslash rfl

theorem Spelled.cases {cs : List Char} {c : Char} (spelled : Spelled cs c) :
    (cs = [c] ∧ 0x20 ≤ c.toNat ∧ c ≠ '"' ∧ c ≠ '\\') ∨ ∃ code, cs = '\\' :: code := by
  cases spelled with
  | itself noControl noQuote noBackslash => exact .inl ⟨rfl, noControl, noQuote, noBackslash⟩
  | escape | number | pair => exact .inr ⟨_, rfl⟩

theorem Spelling.length_le {cs text : List Char} (spelling : Spelling cs text) :
    text.length ≤ cs.length := by
  induction spelling with
  | nil => exact Nat.le_refl 0
  | cons first _ ih =>
    rw [List.length_append, List.length_cons]
    obtain ⟨rfl, -⟩ | ⟨code, rfl⟩ := first.cases
    · rw [List.length_singleton]
      omega
    · rw [List.length_cons]
      omega

theorem takes_readTextFrom {fuel : ℕ} {cs text : List Char} (spelling : Spelling cs text)
    (enough : text.length < fuel) (read rest : List Char) (place : Place) :
    ∃ place', readTextFrom fuel read ⟨cs ++ '"' :: rest, place⟩ =
      .ok (String.ofList (read.reverse ++ text), ⟨rest, place'⟩) := by
  induction spelling generalizing fuel read place with
  | nil =>
    obtain ⟨fuel, rfl⟩ := Nat.exists_eq_succ_of_ne_zero (by omega : fuel ≠ 0)
    exact ⟨_, by rw [List.append_nil]; rfl⟩
  | @cons cs c others text first spelling ih =>
    obtain ⟨fuel, rfl⟩ := Nat.exists_eq_succ_of_ne_zero (by omega : fuel ≠ 0)
    have enough : text.length < fuel := by simpa using enough
    obtain ⟨rfl, noControl, noQuote, noBackslash⟩ | ⟨code, rfl⟩ := first.cases
    · obtain ⟨place', others⟩ := ih enough (c :: read) (Input.after place c)
      refine ⟨place', ?_⟩
      unfold readTextFrom
      split
      · next none => cases none
      · next quote =>
        cases quote
        exact absurd rfl noQuote
      · next backslash =>
        cases backslash
        exact absurd rfl noBackslash
      · next same =>
        cases same
        rw [if_neg (by omega)]
        simpa [Input.drop] using others
    · obtain ⟨place, escape⟩ :=
        takes_readEscape first (others ++ '"' :: rest) (Input.after place '\\')
      obtain ⟨place, others⟩ := ih enough (c :: read) place
      refine ⟨place, ?_⟩
      simp only [List.append_assoc, List.cons_append, readTextFrom, Input.drop, escape, others]
      simp

theorem readText_sound {s : String} (h : readText i = .ok (s, i')) :
    ∃ cs text, i.rest = cs ++ '"' :: i'.rest ∧ Spelling cs text ∧ s = String.ofList text :=
  readTextFrom_sound h

theorem takes_readText {cs text : List Char} (spelling : Spelling cs text) (rest : List Char)
    (place : Place) : ∃ place', readText ⟨cs ++ '"' :: rest, place⟩ =
      .ok (String.ofList text, ⟨rest, place'⟩) := by
  refine takes_readTextFrom spelling ?_ [] rest place
  have := spelling.length_le
  simp only [List.length_append, List.length_cons]
  omega

/-! ## Blanks and words -/

theorem isBlank_iff {c : Char} :
    Input.isBlank c = true ↔ c = ' ' ∨ c = '\n' ∨ c = '\t' ∨ c = '\r' := by
  simp [Input.isBlank, or_assoc]

theorem blanks_nil : Blanks [] := fun _ hc => absurd hc List.not_mem_nil

theorem Blanks.append {cs ds : List Char} (first : Blanks cs) (second : Blanks ds) :
    Blanks (cs ++ ds) :=
  fun c hc => (List.mem_append.mp hc).elim (first c) (second c)

theorem skipBlanks_sound (i : Input) :
    ∃ blanks, i.rest = blanks ++ i.skipBlanks.rest ∧ Blanks blanks :=
  ⟨i.rest.takeWhile Input.isBlank, (List.takeWhile_append_dropWhile ..).symm,
    fun _ hc => isBlank_iff.mp (List.mem_takeWhile_imp hc)⟩

theorem takes_skipBlanks {blanks : List Char} (isBlank : Blanks blanks)
    (ends : ∀ c ∈ rest.head?, Input.isBlank c = false) (place : Place) :
    ∃ place', Input.skipBlanks ⟨blanks ++ rest, place⟩ = ⟨rest, place'⟩ := by
  have all : ∀ c ∈ blanks, Input.isBlank c = true := fun c hc => isBlank_iff.mpr (isBlank c hc)
  have back := dropWhile_append_of_ends all ends
  exact ⟨_, by rw [Input.skipBlanks, Input.dropWhile, back]⟩

theorem readWord_sound {letters : List Char} (h : readWord letters i = .ok i') :
    i.rest = letters ++ i'.rest := by
  induction letters generalizing i with
  | nil =>
    cases h
    rfl
  | cons letter letters ih =>
    unfold readWord at h
    split at h
    · cases h
    · next c rest chars =>
      split at h
      · next same =>
        have others := ih h
        simp only [Input.drop, chars] at others
        rw [chars, same, others, List.cons_append]
      · cases h

theorem takes_readWord (letters rest : List Char) (place : Place) :
    ∃ place', readWord letters ⟨letters ++ rest, place⟩ = .ok ⟨rest, place'⟩ := by
  induction letters generalizing place with
  | nil => exact ⟨place, rfl⟩
  | cons letter letters ih =>
    obtain ⟨place', others⟩ := ih (Input.after place letter)
    exact ⟨place', by simpa [readWord, Input.drop] using others⟩

end BraceScript.Json

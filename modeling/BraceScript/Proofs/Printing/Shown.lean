-- What a program shows of a number is itself a way to write the number: a
-- numeral, or a minus and a numeral, which a program that prints it shows again.
import BraceScript.Proofs.Grammar.Slices
import BraceScript.Proofs.Number.Shortest
import BraceScript.Proofs.Number.Sum
import BraceScript.Proofs.Printing.Written
import BraceScript.Run.Program

namespace BraceScript

open Grammar

/-! ## Numerals with and without a minus -/

namespace Number.Numeral

variable (n : Numeral) (below : Bool)

/-- The numeral, behind a minus if it is to stand for a number below zero. -/
def spelling : List Char := if below then '-' :: n.chars else n.chars

/-- The number that is spelled in this way. -/
def number : Float := if below then -n.value else n.value

/-- The tokens of the spelling. -/
def tokens : List Token :=
  if below then [⟨.sign .minus, ⟨0, 1⟩⟩, ⟨.number n.value, ⟨1, 1 + byteLength n.chars⟩⟩]
  else [⟨.number n.value, ⟨0, byteLength n.chars⟩⟩]

/-- What the spelling is read as. -/
def expr : Expr :=
  let numeral (start : Nat) : Expr := .at ⟨start, start + byteLength n.chars⟩ (.number n.value)
  if below then .at ((⟨0, 1⟩ : Span).merge (numeral 1).span) (.unary .neg (numeral 1))
  else numeral 0

theorem scanFrom_chars (offset : Nat) : scanFrom offset n.chars =
    [.token ⟨.number n.value, ⟨offset, offset + byteLength n.chars⟩⟩] := by
  obtain ⟨c, cs, first, -⟩ := n.exists_cons
  have whole := cut_number (b := []) first (by simp [EndsToken])
  rw [List.append_nil] at whole
  rw [first, scanFrom_cons, whole, ← first]
  simp [Piece.items, scanFrom]

theorem scanFrom_spelling : scanFrom 0 (n.spelling below) = (n.tokens below).map .token := by
  cases below with
  | false => simpa [spelling, tokens] using n.scanFrom_chars 0
  | true =>
    -- No sign is longer than a minus and begins with it, so it does not matter what follows.
    have minus : cut '-' n.chars = ⟨.token (.sign .minus), ['-'], n.chars⟩ := by
      obtain ⟨c, cs, first, -⟩ := n.exists_cons
      rw [first]
      rfl
    simp only [spelling, if_true, scanFrom_cons, minus]
    exact congrArg _ (n.scanFrom_chars 1)

theorem derives_expr : DerivesExpr true none (n.tokens below) (.expr (n.expr below)) := by
  cases below with
  | false =>
    have numeral := @DerivesExpr.number true none n.value ⟨0, byteLength n.chars⟩
    simpa [tokens, expr] using DerivesExpr.operand (.primary numeral)
  | true =>
    have numeral := @DerivesExpr.number true none n.value ⟨1, 1 + byteLength n.chars⟩
    have unary := numeral.primary
    rw [cover_single] at unary
    exact .operand (.operator rfl unary)

theorem span_expr_start : (n.expr below).span.start = 0 := by
  cases below <;> simp [expr, Expr.span, Span.merge]

/-- The value of the spelling is the number, wherever it stands. -/
theorem evalExpr_expr (host : Host) (g : Nat → Nat) (fuel : Nat) (st : State) :
    evalExpr host (fuel + 2) ((n.expr below).move g) st = .ok (.number (n.number below)) st := by
  cases below <;> simp [expr, number, ExprForm.move] <;> rfl

end Number.Numeral

/-! ## Programs that print one value -/

/-- Such a program writes one line, whatever file it is said to come from. -/
theorem runSource_print {host : Host} {fuel : Nat} {source : String} {span : Span}
    {channel : Channel} {e : Expr} {v : Value}
    (program : parse source = .ok [.at span (.print channel e)])
    (value : ∀ st, evalExpr host fuel e st = .ok v st) (origin : Option String) (st : State) :
    runSource host (fuel + 1) source origin st =
      .ok () { st with output := st.output.push ⟨channel, st.heap.shown v⟩ } := by
  have print (st : State) : runStmt host (fuel + 1) (.at span (.print channel e)) st =
      .ok .normal { st with output := st.output.push ⟨channel, st.heap.shown v⟩ } := by
    simp only [runStmt, Exec.within, perform, Exec.bind_apply, value]
    rfl
  rw [runSource, program]
  cases origin <;>
    simp only [Exec.bind_apply, evaluator, Evaluator.block, Exec.get, Exec.withFile,
      Exec.afterwards, print, Exec.pure_apply, List.tail_cons]

/-! ## The text of a number -/

namespace Number

variable {x : Float} {q : ℚ}

theorem value?_nought : value? 0.0 = some 0 :=
  value?_eq_some.2 ⟨false, 0, 0, rfl, by norm_num [signed]⟩

/-- Without an exponent, the fewest digits for a double are a numeral that is nearest to it. -/
theorem Canonical.exists_numeral {m : ℕ} {e : ℤ} (canonical : Canonical m e) :
    ∃ n : Numeral, (Decimal.shortest .up m e).positional false = n.chars ∧
      n.value = canonical.double .positive := by
  obtain ⟨n, text, units, grid⟩ :=
    exists_numeral_of_positional (d := .shortest .up m e) fun c hc => isDigit_of_mem_shortest hc
  have value : (n.units * 10 ^ n.grid : ℚ) = (Decimal.shortest .up m e).value := by
    rw [units, grid, Decimal.value, Nat.cast_mul, mul_assoc, Nat.cast_pow, Nat.cast_ofNat,
      ← zpow_natCast, ← zpow_add₀ (by norm_num)]
    congr 2
    omega
  have near := canonical.near_shortest .up
  rw [← value] at near
  exact ⟨n, text, n.value_eq_ofDecimal.trans (ofDecimal_of_near canonical near)⟩

/-- A finite number is shown as a numeral, behind a minus if it is below zero. The number that
is spelled so is equal to it, and is shown alike. -/
theorem exists_spelling (h : value? x = some q) : ∃ n : Numeral,
    numberText x = String.ofList (n.spelling (q < 0)) ∧
    value? (n.number (q < 0)) = some q ∧ numberText (n.number (q < 0)) = numberText x := by
  obtain ⟨negative, m, e, exact, rfl⟩ := value?_eq_some.1 h
  by_cases zero : m = 0
  · subst zero
    have text : numberText x = "0" := by
      cases negative <;> simp [numberText, Layout.write, exact, shownLayout]
    have number : signed negative (0 * 2 ^ e) = 0 := by cases negative <;> simp [signed]
    refine ⟨⟨['0'], none, by simp, by simp [isDigit], by simp⟩, ?_⟩
    rw [text, Nat.cast_zero, number]
    exact ⟨rfl, value?_nought, by decide⟩
  · obtain ⟨canonical, rfl⟩ := exists_double_of_exact exact zero
    obtain ⟨n, text, value⟩ := canonical.exists_numeral
    have size : (0 : ℚ) < m * 2 ^ e := by positivity
    have sign : decide (signed negative (m * 2 ^ e) < 0) = negative := by
      cases negative <;> simp [signed, size, size.le]
    have number : n.number negative = canonical.double (signOf negative) := by
      cases negative
      · exact value
      · rw [Numeral.number, if_pos rfl, value, canonical.neg_double]
        rfl
    refine ⟨n, ?_, ?_, ?_⟩ <;> rw [sign]
    · simp only [numberText, Layout.write, exact, if_neg zero, shownLayout, if_true, text,
        Numeral.spelling]
    · rw [number, h]
    · rw [number]

/-- Without an exponent there is a zero for each place between the digits and the point. -/
theorem Decimal.length_positional_le (d : Decimal) :
    (d.positional false).length ≤ d.point.natAbs + d.digits.length + 2 := by
  unfold positional zeros
  split
  · simp only [List.length_append, List.length_cons, List.length_replicate]
    omega
  · split
    · simp only [Bool.false_eq_true, if_false, List.length_append, List.length_replicate,
        List.length_nil]
      omega
    · simp only [List.length_append, List.length_cons, List.length_take, List.length_drop]
      omega

theorem byteLength_le_length (cs : List Char) : byteLength cs ≤ 4 * cs.length := by
  induction cs with
  | nil => exact Nat.le_refl 0
  | cons c cs ih =>
    have := c.utf8Size_le_four
    rw [byteLength_cons, List.length_cons]
    omega

/-- The text of a number is not too long for spans. -/
theorem utf8ByteSize_numberText_le (x : Float) : (numberText x).utf8ByteSize ≤ Span.limit := by
  rw [numberText, Layout.write]
  cases exact : Exact.ofFloat x with
  | nan => decide +kernel
  | infinite negative => cases negative <;> decide +kernel
  | finite negative m e =>
    dsimp only
    split
    · cases negative <;> decide +kernel
    · next nonzero =>
      obtain ⟨canonical, -⟩ := exists_double_of_exact exact nonzero
      have normal := canonical.normal_shortest .up
      have low := normal.low
      have high := normal.high
      have digits := canonical.length_shortest .up
      have length := (Decimal.shortest .up m e).length_positional_le
      have limit : Span.limit = 4294967295 := rfl
      have room : 4 * ((Decimal.shortest .up m e).positional false).length + 4 ≤ Span.limit := by
        omega
      have bytes := byteLength_le_length ((Decimal.shortest .up m e).positional false)
      have minus : '-'.utf8Size = 1 := rfl
      rw [← byteLength_toList, String.toList_ofList]
      cases negative
      · exact bytes.trans (by omega)
      · change byteLength ('-' :: (Decimal.shortest .up m e).positional false) ≤ Span.limit
        rw [byteLength_cons]
        omega

end Number

/-- The text that is shown for a finite number is a program text for this number: with `show` in
front it is scanned and read, and runs without a fault, in any state and from any file, to show
the same text again. By itself the text is one numeral if the number is not below zero, else a
minus and a numeral, and stands for a number that is equal to it. -/
theorem a_shown_number_shows_itself {x : Float} (finite : x.isFinite = true) :
    (∃ ts, tokens ("show " ++ numberText x) = .ok ts) ∧
    (∃ ss, parse ("show " ++ numberText x) = .ok ss) ∧
    (∀ host fuel origin st, 3 ≤ fuel → runSource host fuel ("show " ++ numberText x) origin st =
      .ok () { st with output := st.output.push ⟨.info, numberText x⟩ }) ∧
    (0.0 ≤ x → ∃ v, (v == x) = true ∧
      tokens (numberText x) = .ok [⟨.number v, ⟨0, (numberText x).utf8ByteSize⟩⟩]) ∧
    (x < 0.0 → ∃ v, (-v == x) = true ∧ tokens (numberText x) =
      .ok [⟨.sign .minus, ⟨0, 1⟩⟩, ⟨.number v, ⟨1, (numberText x).utf8ByteSize⟩⟩]) := by
  obtain ⟨q, hx⟩ := Number.isFinite_iff.1 finite
  obtain ⟨n, text, value, same⟩ := Number.exists_spelling hx
  have nonneg := Number.le_iff Number.value?_nought hx
  have below := Number.lt_iff hx Number.value?_nought
  have equal := (Number.beq_iff value hx).2 rfl
  have items := n.scanFrom_spelling (q < 0)
  have spelled : tokens (numberText x) = .ok (n.tokens (q < 0)) := by
    rw [tokens_eq_ok_iff, scan_of_le (Number.utf8ByteSize_numberText_le x), text,
      String.toList_ofList, items]
  have size : (numberText x).utf8ByteSize = byteLength (n.spelling (q < 0)) := by
    rw [text, ← byteLength_toList, String.toList_ofList]
  have program := (programAt_show_slice (by rwa [n.span_expr_start])
    (n.derives_expr (q < 0))).parse_eq
  rw [← text] at program
  obtain ⟨ts, hts, -⟩ := (parse_eq_ok_iff _ _).1 program
  refine ⟨⟨ts, hts⟩, ⟨_, program⟩, fun host fuel origin st enough => ?_, fun h => ?_, fun h => ?_⟩
  · obtain ⟨fuel, rfl⟩ : ∃ more, fuel = more + 2 + 1 := ⟨fuel - 3, by omega⟩
    have value (st : State) := n.evalExpr_expr (q < 0) host
      (fun offset => Span.hold (offset - (n.expr (q < 0)).span.start + 5)) fuel st
    rw [runSource_print program (fun st => by rw [Expr.move_move]; exact value st), Heap.shown,
      same]
  · have sign : decide (q < 0) = false := by simpa using nonneg.1 h
    rw [sign] at spelled size equal
    rw [size]
    exact ⟨n.value, equal, spelled⟩
  · have sign : decide (q < 0) = true := by simpa using below.1 h
    rw [sign] at spelled size equal
    have minus : byteLength (n.spelling true) = 1 + byteLength n.chars := byteLength_cons '-' _
    rw [size, minus]
    exact ⟨n.value, equal, spelled⟩

/-- The double nearest to a tenth below zero, which is not quite that. -/
theorem a_tenth_below_zero_shows_itself :
    let x : Float := -0.1
    let host : Host := ⟨Files.inMemory, none⟩
    x.isFinite = true ∧ x < 0.0 ∧ "show " ++ numberText x = "show -0.1" ∧
    runSource host patience "show -0.1" none .initial =
      .ok () { State.initial with output := #[⟨.info, "-0.1"⟩] } ∧
    ∃ v, (-v == x) = true ∧
      tokens "-0.1" = .ok [⟨.sign .minus, ⟨0, 1⟩⟩, ⟨.number v, ⟨1, 4⟩⟩] := by
  intro x host
  have finite : x.isFinite = true := by decide +kernel
  have below : x < 0.0 := by decide +kernel
  have text : numberText x = "-0.1" := by decide +kernel
  obtain ⟨-, -, run, -, signed⟩ := a_shown_number_shows_itself finite
  rw [text] at run signed
  exact ⟨finite, below, congrArg _ text, run host patience none .initial (by decide), signed below⟩

end BraceScript

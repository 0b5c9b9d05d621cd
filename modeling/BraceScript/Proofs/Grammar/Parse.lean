-- What the parser accepts is what the grammar derives, and what it gives is
-- the one tree that has every operand of a value form as long as it can be.
import BraceScript.Proofs.Grammar.Longest

namespace BraceScript

open Grammar

/-! ## One tree for a text -/

/-- A text has no mistake in its tokens exactly if they are all there. -/
theorem untilMistake_of_tokens {source : String} {ts : List Token} (h : tokens source = .ok ts) :
    untilMistake (scan source) = (ts, none) := by
  unfold tokens at h
  split at h
  · next heq => cases h; exact heq
  · cases h

/-- A text is read as these statements if its tokens make them up. -/
theorem parse_eq_ok_iff (source : String) (ss : List Stmt) :
    parse source = .ok ss ↔ ∃ ts, tokens source = .ok ts ∧ Program true ts ss := by
  constructor
  · intro h
    unfold parse at h
    split at h
    · next ts heq => exact ⟨ts, by simp [tokens, heq], (parseTokens_sound h).2⟩
    · obtain ⟨⟨_, ⟨⟩⟩, -⟩ := parseTokens_sound h
  · rintro ⟨ts, hts, hss⟩
    unfold parse
    rw [untilMistake_of_tokens hts]
    exact parseTokens_complete _ hss

theorem exists_of_isOk {read : Except SyntaxError (List Stmt)} (h : read.isOk = true) :
    ∃ ss, read = .ok ss := by
  cases read with
  | ok ss => exact ⟨ss, rfl⟩
  | error e => cases h

theorem eq_error_of_refused {read : Except SyntaxError (List Stmt)} {e : SyntaxError}
    (h : (match read with | .error e => some e | .ok _ => none) = some e) : read = .error e := by
  cases read with
  | ok ss => cases h
  | error e' =>
    cases h
    rfl

/-- Tokens make up a program in one way only, if all operands are long. -/
theorem program_unique {ts : List Token} {ss ss' : List Stmt} (h : Program true ts ss)
    (h' : Program true ts ss') : ss = ss' := by
  have := (parseTokens_complete 0 h).symm.trans (parseTokens_complete 0 h')
  exact Except.ok.inj this

/-- An expression behind which no operator stands, nor anything that goes on with a name,
cannot be made longer: with some of the tokens behind it, it is not an expression. -/
theorem expression_is_longest {ts us : List Token} {e : Expr}
    (h : DerivesExpr true (ahead us none) ts (.expr e)) (ends : EndsExpr (ahead us none))
    (endsName : EndsName (ahead us none)) (some : us ≠ []) (next : Option Token.Kind) (e' : Expr) :
    ¬ DerivesExpr false next (ts ++ us) (.expr e') := by
  intro h'
  obtain ⟨e'', h''⟩ := h'.regrows.alone none rfl
  let n := 4 * (ts ++ us).length + 3
  have enough : Reader.expr n (.complete 0) ⟨ts ++ us, 0⟩ ≠ .outOfFuel := by
    intro out
    have := (@Reader.takes_expressions (.complete 0) n).1 ⟨ts ++ us, 0⟩ (Nat.le_refl n)
    simp [Reader.Takes, out] at this
  have short : Reader.Yields 0 (Reader.expr n) ts us 0 e :=
    (Reader.isRead_of_derives h endsName).yields ends n rfl
  have long : Reader.Yields 0 (Reader.expr n) (ts ++ us) [] 0 e'' :=
    (Reader.isRead_of_derives h'' ⟨by simp, by simp⟩).yields rfl n rfl
  unfold Reader.Yields at short long
  rw [List.append_nil] at long
  rw [short.resolve_left enough] at long
  rcases long with long | long
  · cases long
  · simp only [Parsed.done.injEq, Cursor.mk.injEq] at long
    exact some long.2.1

/-! ## Parsing and the grammar -/

/-- A text is accepted exactly if its tokens make up a program by the rules of the language,
and what it is read as is the program with long operands that all of its tokens make up. -/
theorem what_parses_is_what_the_grammar_derives (source : String) :
    ((∃ ss, parse source = .ok ss) ↔ ∃ ts ss, tokens source = .ok ts ∧ Program false ts ss) ∧
    ∀ ss, parse source = .ok ss ↔ ∃ ts, tokens source = .ok ts ∧ Program true ts ss := by
  refine ⟨⟨?_, ?_⟩, parse_eq_ok_iff source⟩
  · rintro ⟨ss, h⟩
    obtain ⟨ts, hts, hss⟩ := (parse_eq_ok_iff source ss).1 h
    exact ⟨ts, ss, hts, hss.relax⟩
  · rintro ⟨ts, ss, hts, hss⟩
    obtain ⟨ss', hss'⟩ := exists_program hss
    exact ⟨ss', (parse_eq_ok_iff source ss').2 ⟨ts, hts, hss'⟩⟩

end BraceScript

-- The error of a text is the leftmost one. The tokens in front of it can be
-- completed to a program, and with the one that it is about they cannot.
import BraceScript.Proofs.Grammar.Ranges
import BraceScript.Proofs.Grammar.Tracks

namespace BraceScript

open Grammar

/-! ## Tokens that can be completed -/

/-- Tokens may be added behind these ones to make a program. -/
def Viable (ts : List Token) : Prop :=
  ∃ us length ss, parseTokens (ts ++ us) (.complete length) = .ok ss

theorem Viable.of_prefix {us ts : List Token} (h : Viable ts) (le : us <+: ts) : Viable us := by
  obtain ⟨vs, rfl⟩ := le
  obtain ⟨ws, length, ss, h⟩ := h
  exact ⟨vs ++ ws, length, ss, by rwa [← List.append_assoc]⟩

theorem viable_of_mem {ts us : List Token} (h : ts ++ us ∈ stmtRows false none) : Viable ts := by
  obtain ⟨ss, h⟩ := h
  obtain ⟨ss', h'⟩ := exists_program h
  exact ⟨us, 0, ss', parseTokens_complete 0 h'⟩

/-- Tokens that are refused wherever they are in front make no program. -/
theorem not_viable_of_refused {ts : List Token} {e : SyntaxError} (n : Nat)
    (h : ∀ ending us, Reader.program n ending ⟨ts ++ us, 0⟩ = .refused e) : ¬ Viable ts := by
  rintro ⟨us, length, ss, read⟩
  have program := (parseTokens_sound read).2
  have yields : Reader.Yields 0 (Reader.program n) (ts ++ us) [] 0 ss :=
    Reader.yields_program program n
  rw [Reader.Yields, List.append_nil, h] at yields
  rcases yields with out | done
  · cases out
  · cases done

/-- What is wrong with tokens is wrong with the first one that cannot be there. -/
theorem parseTokens_leftmost {ts : List Token} {ending : Ending} {e : SyntaxError}
    (h : parseTokens ts ending = .error e) :
    ∃ us rest, ts = us ++ rest ∧ Viable us ∧ e.IsAbout rest ending ∧
      ∀ t vs, rest = t :: vs → ¬ Viable (us ++ [t]) := by
  unfold parseTokens at h
  split at h
  · cases h
    have none : [] ++ [] ∈ stmtRows false none := nil_mem_stmtRows
    exact ⟨[], [], rfl, viable_of_mem none, rfl, nofun⟩
  · split at h
    · cases h
    · next hread =>
      cases h
      have tracksAll : Reader.TracksAll ending _ _ := Reader.tracks_program (enoughFuel ts.length)
      cases tracksAll ⟨ts, 0⟩ with
      | done v after us hread' => rw [hread] at hread'; cases hread'
      | outOfFuel hread' => rw [hread] at hread'; cases hread'
      | refused e' us rest hread' hts hus about same =>
        rw [hread] at hread'
        cases hread'
        obtain ⟨vs, hvs⟩ := hus
        refine ⟨us, rest, hts, viable_of_mem hvs, about, ?_⟩
        rintro t vs rfl
        refine not_viable_of_refused (e := e) (enoughFuel ts.length) fun ending' us' => ?_
        rw [List.append_assoc]
        exact same ending' _ (beginAlike_cons t vs us')
    · next hread => exact absurd hread (Reader.program_enoughFuel ts ending 0)

/-! ## A whole text -/

theorem SyntaxError.code_ofLexical_ne (m : LexicalError) :
    (ofLexical m).cause.code ≠ .unexpectedEnd := by
  obtain ⟨cause, span⟩ := m
  cases cause <;> simp [ofLexical, Cause.code, LexicalError.Cause.code]

/-- What stands behind the tokens of a text. -/
def endingOf (source : String) : Ending :=
  match (untilMistake (scan source)).2 with
  | none => .complete (Span.hold source.utf8ByteSize)
  | some m => .mistake m

theorem parse_eq_parseTokens (source : String) :
    parse source = parseTokens (untilMistake (scan source)).1 (endingOf source) := by
  unfold parse endingOf
  split <;> simp_all

/-- What is wrong with a text is the leftmost thing that can be said to be wrong. The tokens in
front of the first mistake of the scanner count. If they cannot all be completed to a program,
the error is about the first one with which they cannot. Else it is that mistake or, if there is
none, the end of the text, which is so exactly if tokens may be added to make a program. -/
theorem the_leftmost_error_is_reported {source : String} {e : SyntaxError}
    (rejected : parse source = .error e) :
    let ts := (untilMistake (scan source)).1
    let mistake := (untilMistake (scan source)).2
    ((∃ us, us <+: ts ∧ ¬ Viable us) → ∃ us t vs, ts = us ++ t :: vs ∧ Viable us ∧
      ¬ Viable (us ++ [t]) ∧ e.span = t.span ∧
      (e.cause.code = .unexpectedToken ∨ e.cause.code = .strayReturn)) ∧
    ((∀ us, us <+: ts → Viable us) → ∀ m, mistake = some m → e = SyntaxError.ofLexical m) ∧
    ((∀ us, us <+: ts → Viable us) → mistake = none →
      e.cause.code = .unexpectedEnd ∧ e.span = Span.point (Span.hold source.utf8ByteSize)) ∧
    (e.cause.code = .unexpectedEnd ↔ mistake = none ∧ Viable ts) := by
  intro ts mistake
  rw [parse_eq_parseTokens] at rejected
  obtain ⟨us, rest, hts, viable, about, leftmost⟩ := parseTokens_leftmost rejected
  change ts = us ++ rest at hts
  cases rest with
  | cons t vs =>
    have stuck := leftmost t vs rfl
    have le : us ++ [t] <+: ts := ⟨vs, by simp [hts]⟩
    obtain ⟨span, code⟩ := about
    refine ⟨fun _ => ⟨us, t, vs, hts, viable, stuck, span, code⟩,
      fun all => absurd (all _ le) stuck, fun all => absurd (all _ le) stuck, ?_⟩
    constructor
    · intro h
      rw [h] at code
      rcases code with code | code <;> cases code
    · exact fun ⟨_, whole⟩ => absurd (whole.of_prefix le) stuck
  | nil =>
    rw [List.append_nil] at hts
    refine ⟨fun ⟨us', le, stuck⟩ => absurd (viable.of_prefix (hts ▸ le)) stuck, ?_⟩
    rw [endingOf] at about
    change e.IsAbout [] (match mistake with | none => _ | some m => _) at about
    cases hm : mistake with
    | none =>
      rw [hm] at about
      exact ⟨nofun, fun _ _ => about, fun _ => ⟨rfl, hts ▸ viable⟩, fun _ => about.1⟩
    | some m =>
      rw [hm] at about
      refine ⟨?_, nofun, ?_⟩
      · rintro - m' ⟨⟩
        exact about
      · rw [about]
        exact ⟨fun h => absurd h (SyntaxError.code_ofLexical_ne m), nofun⟩

/-- The end of this text lies behind the last offset that a span can hold, so it is not there that
the error is reported. -/
theorem an_end_beyond_the_limit :
    let source := indented (Span.limit + 1) "if ("
    (untilMistake (scan source)).2 = none ∧ Viable (untilMistake (scan source)).1 ∧
      ∃ e, parse source = .error e ∧ e.cause.code = .unexpectedEnd ∧
        e.span = Span.point Span.limit ∧ e.span ≠ Span.point source.utf8ByteSize := by
  intro source
  have size : source.utf8ByteSize = Span.limit + 5 := utf8ByteSize_indented _ _
  let here := Span.point Span.limit
  let ts : List Token := [⟨.keyword .ifThen, here⟩, ⟨.sign .leftParen, here⟩]
  let error : SyntaxError := ⟨.incomplete .expression, here⟩
  have spelled : scan source = ts.map .token := by
    rw [scan_indented (Nat.le_succ _)]
    decide +kernel
  have viable : Viable ts := by
    let us : List Token := [⟨.keyword .void, here⟩, ⟨.sign .rightParen, here⟩,
      ⟨.sign .leftBrace, here⟩, ⟨.sign .rightBrace, here⟩]
    exact ⟨us, 0, exists_of_isOk (by decide +kernel)⟩
  have ending : endingOf source = .complete Span.limit := by
    rw [endingOf, spelled, size]
    rfl
  have rejected : parse source = .error error := by
    rw [parse_eq_parseTokens, ending, spelled]
    exact eq_error_of_refused (by decide +kernel)
  rw [spelled]
  refine ⟨rfl, viable, error, rejected, rfl, rfl, ?_⟩
  rw [size]
  decide

/-- The second `show` stands where a parenthesis has to be closed. The mistake of the scanner
behind it is not reported. -/
theorem an_error_in_front_of_a_mistake : ∃ e us t vs,
    parse "show (1 show @" = .error e ∧
      (untilMistake (scan "show (1 show @")).1 = us ++ t :: vs ∧ Viable us ∧
      ¬ Viable (us ++ [t]) ∧ t.span = ⟨8, 12⟩ ∧ e.span = t.span := by
  let error : SyntaxError := ⟨.unexpected (.sign .rightParen) (.keyword .show), ⟨8, 12⟩⟩
  let m : LexicalError := ⟨.unexpected '@', ⟨13, 14⟩⟩
  have mistake : (untilMistake (scan "show (1 show @")).2 = some m := by decide +kernel
  have rejected : parse "show (1 show @" = .error error := eq_error_of_refused (by decide +kernel)
  obtain ⟨first, later, -, -⟩ := the_leftmost_error_is_reported rejected
  have stuck : ∃ us, us <+: (untilMistake (scan "show (1 show @")).1 ∧ ¬ Viable us := by
    by_contra! all
    have same : error = SyntaxError.ofLexical m := later all m mistake
    exact absurd same (by decide)
  obtain ⟨us, t, vs, hts, viable, not_viable, span, -⟩ := first stuck
  exact ⟨error, us, t, vs, rejected, hts, viable, not_viable, span.symm, span⟩

end BraceScript

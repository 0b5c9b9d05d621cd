-- Where reading stops short. A reader that refuses a text names a token that
-- it has not taken yet, or what stands behind the last one.
import BraceScript.Proofs.Grammar.Places

namespace BraceScript

/-- What stands behind the last token. -/
def Ending.span : Ending → Span
  | .complete length => Span.point length
  | .mistake e => e.span

namespace Reader

variable {α β : Type} {ending : Ending}

/-- The span is that of a token still to be read, or of what stands behind them all. -/
def IsAhead (ending : Ending) (c : Cursor) (s : Span) : Prop :=
  (∃ t ∈ c.rest, s = t.span) ∨ s = ending.span

theorem IsAhead.mono {c c' : Cursor} {s : Span} (h : IsAhead ending c s)
    (sub : c.rest <:+ c'.rest) : IsAhead ending c' s := by
  rcases h with ⟨t, ht, h⟩ | h
  · exact Or.inl ⟨t, sub.subset ht, h⟩
  · exact Or.inr h

/-- The reader leaves an end of the tokens, and if it refuses them, it names what is ahead. -/
def NamesAhead (ending : Ending) (x : Reader α) : Prop :=
  ∀ c, match x ending c with
    | .done _ after => after.rest <:+ c.rest
    | .refused e => IsAhead ending c e.span
    | .outOfFuel => True

theorem NamesAhead.andThen {x : Reader α} {f : α → Reader β} (hx : NamesAhead ending x)
    (hf : ∀ v, NamesAhead ending (f v)) : NamesAhead ending (x >>= f) := by
  intro c
  have first := hx c
  cases hxc : x ending c with
  | done v mid =>
    rw [hxc] at first
    rw [bind_done hxc]
    have second := hf v mid
    cases hfc : f v ending mid with
    | done w after => rw [hfc] at second; exact second.trans first
    | refused e => rw [hfc] at second; exact second.mono first
    | outOfFuel => trivial
  | refused e =>
    rw [hxc] at first
    rw [bind_refused hxc]
    exact first
  | outOfFuel =>
    rw [bind_outOfFuel hxc]
    trivial

theorem namesAhead_pure (v : α) : NamesAhead ending (Pure.pure v : Reader α) :=
  fun _ => List.suffix_refl _

theorem namesAhead_outOfFuel : NamesAhead ending (outOfFuel : Reader α) := fun _ => trivial

theorem namesAhead_peek : NamesAhead ending peek := fun _ => List.suffix_refl _

theorem namesAhead_here : NamesAhead ending here := by
  rintro ⟨_ | ⟨t, rest⟩, stop⟩ <;> cases ending <;> exact List.suffix_refl _

theorem namesAhead_spanFrom (start : Span) : NamesAhead ending (spanFrom start) :=
  fun _ => List.suffix_refl _

theorem namesAhead_skip : NamesAhead ending skip := by
  rintro ⟨_ | ⟨t, _ | ⟨u, rest⟩⟩, stop⟩
  · exact List.suffix_refl _
  · cases ending with
    | complete length => exact List.suffix_cons _ _
    | mistake e => exact Or.inr rfl
  · exact List.suffix_cons _ _

theorem namesAhead_expected (e : Expectation) : NamesAhead ending (expected e : Reader α) := by
  rintro ⟨_ | ⟨t, rest⟩, stop⟩
  · cases ending <;> exact Or.inr rfl
  · exact Or.inl ⟨t, by simp, rfl⟩

theorem namesAhead_at? (s : Sign) : NamesAhead ending (at? s) :=
  namesAhead_peek.andThen fun _ => namesAhead_pure _

theorem namesAhead_sign (s : Sign) : NamesAhead ending (sign s) := by
  apply (namesAhead_at? s).andThen
  intro b
  split
  · exact namesAhead_skip
  · exact namesAhead_expected _

theorem namesAhead_name : NamesAhead ending name := by
  apply namesAhead_peek.andThen
  intro k
  split
  · exact namesAhead_skip.andThen fun _ => namesAhead_pure _
  · exact namesAhead_expected _

/-- A stray `return` is named itself. -/
theorem namesAhead_refuseHere (cause : SyntaxError.Cause) :
    NamesAhead ending (do refuse cause (← here) : Reader α) := by
  rintro ⟨_ | ⟨t, rest⟩, stop⟩
  · cases ending <;> exact Or.inr rfl
  · exact Or.inl ⟨t, by simp, rfl⟩

/-! ## Parts of expressions -/

variable {e : Reader Expr} {es : Reader (List Expr)}

theorem namesAhead_exprFrom (start : Span) (form : ExprForm) :
    NamesAhead ending (exprFrom start form) :=
  (namesAhead_spanFrom start).andThen fun _ => namesAhead_pure _

theorem namesAhead_parenthesized (he : NamesAhead ending e) :
    NamesAhead ending (parenthesized e) :=
  (namesAhead_sign _).andThen fun _ => he.andThen fun _ =>
    (namesAhead_sign _).andThen fun _ => namesAhead_pure _

theorem namesAhead_bracketed (he : NamesAhead ending e) : NamesAhead ending (bracketed e) :=
  (namesAhead_sign _).andThen fun _ => he.andThen fun _ =>
    (namesAhead_sign _).andThen fun _ => namesAhead_pure _

theorem namesAhead_listUntil (close : Sign) (hes : NamesAhead ending es) :
    NamesAhead ending (listUntil close es) := by
  apply (namesAhead_at? close).andThen
  intro b
  split
  · exact (namesAhead_sign _).andThen fun _ => namesAhead_pure _
  · exact hes.andThen fun _ => (namesAhead_sign _).andThen fun _ => namesAhead_pure _

theorem namesAhead_arguments (hes : NamesAhead ending es) : NamesAhead ending (arguments es) :=
  (namesAhead_sign _).andThen fun _ => namesAhead_listUntil _ hes

theorem namesAhead_nameTail (s : String) (he : NamesAhead ending e)
    (hes : NamesAhead ending es) : NamesAhead ending (nameTail e es s) := by
  apply namesAhead_peek.andThen
  intro k
  split
  · exact (namesAhead_arguments hes).andThen fun _ => namesAhead_pure _
  · exact (namesAhead_bracketed he).andThen fun _ => namesAhead_pure _
  · exact namesAhead_pure _

theorem namesAhead_valueForm (he : NamesAhead ending e) : NamesAhead ending (valueForm e) := by
  have operand {form : Expr → ExprForm} (start : Span) :
      NamesAhead ending (do skip; let v ← e; exprFrom start (form v)) :=
    namesAhead_skip.andThen fun _ => he.andThen fun _ => namesAhead_exprFrom _ _
  have named {form : String → Expr → ExprForm} (start : Span) :
      NamesAhead ending (do skip; let a ← name; let v ← e; exprFrom start (form a v)) :=
    namesAhead_skip.andThen fun _ => namesAhead_name.andThen fun _ =>
      he.andThen fun _ => namesAhead_exprFrom _ _
  refine namesAhead_here.andThen fun start => namesAhead_peek.andThen fun k => ?_
  split
  · exact operand start
  · exact named start
  · exact named start
  · exact namesAhead_skip.andThen fun _ => namesAhead_name.andThen fun _ => namesAhead_exprFrom _ _
  · exact operand start
  · exact operand start
  · exact operand start
  · exact operand start
  · exact namesAhead_expected _

/-! ## Expressions -/

theorem namesAhead_expressions (n : Nat) :
    NamesAhead ending (expr n) ∧ (∀ left, NamesAhead ending (operations n left)) ∧
    NamesAhead ending (unary n) ∧ NamesAhead ending (primary n) ∧ NamesAhead ending (items n) := by
  induction n with
  | zero =>
    exact ⟨namesAhead_outOfFuel, fun _ => namesAhead_outOfFuel, namesAhead_outOfFuel,
      namesAhead_outOfFuel, namesAhead_outOfFuel⟩
  | succ n ih =>
    obtain ⟨hExpr, hOperations, hUnary, hPrimary, hItems⟩ := ih
    have literal (start : Span) (form : ExprForm) :
        NamesAhead ending (do skip; exprFrom start form) :=
      namesAhead_skip.andThen fun _ => namesAhead_exprFrom _ _
    refine ⟨?_, fun left => ?_, ?_, ?_, ?_⟩
    · exact hUnary.andThen hOperations
    · unfold operations
      apply (namesAhead_peek.andThen fun _ => namesAhead_pure _).andThen
      intro op
      split
      · exact namesAhead_pure _
      · exact namesAhead_skip.andThen fun _ => hUnary.andThen fun _ => hOperations _
    · unfold unary
      apply (namesAhead_peek.andThen fun _ => namesAhead_pure _).andThen
      intro op
      split
      · exact hPrimary
      · exact namesAhead_here.andThen fun _ => namesAhead_skip.andThen fun _ =>
          hUnary.andThen fun _ => namesAhead_pure _
    · unfold primary
      refine namesAhead_here.andThen fun start => namesAhead_peek.andThen fun k => ?_
      split
      · exact literal _ _
      · exact literal _ _
      · exact literal _ _
      · exact literal _ _
      · exact namesAhead_skip.andThen fun _ =>
          (namesAhead_nameTail _ hExpr hItems).andThen fun _ => namesAhead_exprFrom _ _
      · exact namesAhead_skip.andThen fun _ =>
          (namesAhead_listUntil _ hItems).andThen fun _ => namesAhead_exprFrom _ _
      · exact (namesAhead_parenthesized hExpr).andThen fun _ => namesAhead_exprFrom _ _
      · exact namesAhead_valueForm hExpr
      · exact namesAhead_expected _
    · unfold items
      refine hExpr.andThen fun e => (namesAhead_at? _).andThen fun b => ?_
      split
      · exact namesAhead_skip.andThen fun _ => hItems.andThen fun _ => namesAhead_pure _
      · exact namesAhead_pure _

/-! ## Statements -/

theorem namesAhead_names (n : Nat) : NamesAhead ending (names n) := by
  induction n with
  | zero => exact namesAhead_outOfFuel
  | succ n ih =>
    unfold names
    refine namesAhead_name.andThen fun s => (namesAhead_at? _).andThen fun b => ?_
    split
    · exact namesAhead_skip.andThen fun _ => ih.andThen fun _ => namesAhead_pure _
    · exact namesAhead_pure _

theorem namesAhead_params {ns : Reader (List String)} (h : NamesAhead ending ns) :
    NamesAhead ending (params ns) := by
  refine (namesAhead_sign _).andThen fun _ => (namesAhead_at? _).andThen fun b => ?_
  split
  · exact (namesAhead_sign _).andThen fun _ => namesAhead_pure _
  · exact h.andThen fun _ => (namesAhead_sign _).andThen fun _ => namesAhead_pure _

variable {body functionBody : Reader (List Stmt)} {ns : Reader (List String)}

theorem namesAhead_block (h : NamesAhead ending body) : NamesAhead ending (block body) :=
  (namesAhead_sign _).andThen fun _ => h.andThen fun _ =>
    (namesAhead_sign _).andThen fun _ => namesAhead_pure _

theorem namesAhead_branching (he : NamesAhead ending e) (hb : NamesAhead ending body) :
    NamesAhead ending (branching e body) := by
  refine namesAhead_skip.andThen fun _ => (namesAhead_parenthesized he).andThen fun _ =>
    (namesAhead_block hb).andThen fun _ => namesAhead_peek.andThen fun k => ?_
  split
  · exact namesAhead_skip.andThen fun _ => (namesAhead_block hb).andThen fun _ => namesAhead_pure _
  · exact namesAhead_pure _

theorem namesAhead_counting (he : NamesAhead ending e) (hb : NamesAhead ending body) :
    NamesAhead ending (counting e body) :=
  namesAhead_skip.andThen fun _ => (namesAhead_sign _).andThen fun _ =>
    namesAhead_name.andThen fun _ => (namesAhead_sign _).andThen fun _ =>
    he.andThen fun _ => (namesAhead_sign _).andThen fun _ =>
    he.andThen fun _ => (namesAhead_sign _).andThen fun _ =>
    (namesAhead_block hb).andThen fun _ => namesAhead_pure _

theorem namesAhead_returning (inFunction : Bool) (he : NamesAhead ending e) :
    NamesAhead ending (returning e inFunction) := by
  have value : NamesAhead ending (do return StmtForm.return (some (← e))) :=
    he.andThen fun _ => namesAhead_pure _
  unfold returning
  split
  · refine namesAhead_skip.andThen fun _ => namesAhead_peek.andThen fun k => ?_
    split
    · exact namesAhead_pure _
    · exact namesAhead_pure _
    · split
      · exact namesAhead_pure _
      · exact value
    · exact value
  · exact namesAhead_refuseHere _

theorem namesAhead_connecting : NamesAhead ending connecting := by
  refine namesAhead_skip.andThen fun _ => namesAhead_peek.andThen fun k => ?_
  split
  · exact namesAhead_skip.andThen fun _ => namesAhead_pure _
  · exact namesAhead_expected _

theorem namesAhead_nameStatement (s : String) (he : NamesAhead ending e)
    (hes : NamesAhead ending es) : NamesAhead ending (nameStatement e es s) := by
  refine namesAhead_here.andThen fun start => namesAhead_skip.andThen fun _ =>
    namesAhead_peek.andThen fun k => ?_
  split
  · exact (namesAhead_arguments hes).andThen fun _ =>
      (namesAhead_exprFrom _ _).andThen fun _ => namesAhead_pure _
  · exact (namesAhead_bracketed he).andThen fun _ =>
      (namesAhead_exprFrom _ _).andThen fun _ => namesAhead_pure _
  · exact namesAhead_skip.andThen fun _ => he.andThen fun _ => namesAhead_pure _
  · exact namesAhead_expected _

theorem namesAhead_keywordStatement (inFunction : Bool) (k : Keyword)
    (he : NamesAhead ending e) (hns : NamesAhead ending ns) (hb : NamesAhead ending body)
    (hfb : NamesAhead ending functionBody) :
    NamesAhead ending (keywordStatement e ns body functionBody inFunction k) := by
  have declaration (immutable : Bool) : NamesAhead ending (declaration e immutable) :=
    namesAhead_skip.andThen fun _ => namesAhead_name.andThen fun _ =>
      (namesAhead_sign _).andThen fun _ => he.andThen fun _ => namesAhead_pure _
  have printing (channel : Channel) : NamesAhead ending (printing e channel) :=
    namesAhead_skip.andThen fun _ => he.andThen fun _ => namesAhead_pure _
  unfold keywordStatement
  split
  · exact declaration _
  · exact declaration _
  · exact printing _
  · exact printing _
  · exact printing _
  · exact namesAhead_branching he hb
  · exact namesAhead_counting he hb
  · exact namesAhead_skip.andThen fun _ => (namesAhead_parenthesized he).andThen fun _ =>
      (namesAhead_block hb).andThen fun _ => namesAhead_pure _
  · exact namesAhead_skip.andThen fun _ => namesAhead_name.andThen fun _ =>
      (namesAhead_params hns).andThen fun _ => (namesAhead_block hfb).andThen fun _ =>
      namesAhead_pure _
  · exact namesAhead_returning _ he
  · exact namesAhead_skip.andThen fun _ => namesAhead_name.andThen fun _ => namesAhead_pure _
  · exact namesAhead_skip.andThen fun _ => namesAhead_name.andThen fun _ => namesAhead_pure _
  · exact namesAhead_connecting
  · exact namesAhead_skip.andThen fun _ => (namesAhead_block hb).andThen fun _ => namesAhead_pure _
  · split
    · exact (namesAhead_valueForm he).andThen fun _ => namesAhead_pure _
    · exact namesAhead_expected _

theorem namesAhead_statements (n : Nat) :
    (∀ inFunction, NamesAhead ending (stmt n inFunction)) ∧
    (∀ inFunction, NamesAhead ending (stmts n inFunction)) := by
  induction n with
  | zero => exact ⟨fun _ => namesAhead_outOfFuel, fun _ => namesAhead_outOfFuel⟩
  | succ n ih =>
    obtain ⟨ihStmt, ihStmts⟩ := ih
    obtain ⟨hExpr, -, -, -, hItems⟩ := @namesAhead_expressions ending n
    refine ⟨fun inFunction => ?_, fun inFunction => ?_⟩
    · unfold stmt
      refine namesAhead_here.andThen fun start => namesAhead_peek.andThen fun k => ?_
      have whole (form : StmtForm) :
          NamesAhead ending (do return Stmt.at (← spanFrom start) form) :=
        (namesAhead_spanFrom _).andThen fun _ => namesAhead_pure _
      split
      · exact (namesAhead_keywordStatement _ _ hExpr (namesAhead_names n) (ihStmts _)
          (ihStmts _)).andThen whole
      · exact (namesAhead_nameStatement _ hExpr hItems).andThen whole
      · exact (namesAhead_expected _).andThen whole
    · unfold stmts
      apply namesAhead_peek.andThen
      intro k
      split
      · exact namesAhead_expected _
      · exact namesAhead_pure _
      · exact (ihStmt _).andThen fun _ => (ihStmts _).andThen fun _ => namesAhead_pure _

theorem namesAhead_program (n : Nat) : NamesAhead ending (program n) := by
  induction n with
  | zero => exact namesAhead_outOfFuel
  | succ n ih =>
    unfold program
    apply namesAhead_peek.andThen
    intro k
    split
    · exact namesAhead_pure _
    · exact ((namesAhead_statements n).1 _).andThen fun _ => ih.andThen fun _ => namesAhead_pure _

end Reader

/-- What is wrong with a text has a place in it. -/
theorem place_of_parse_error {source : String} {e : SyntaxError}
    (h : parse source = .error e) : Place source e.span := by
  have ofTokens {ts : List Token} {ending : Ending} (h : parseTokens ts ending = .error e) :
      (∃ t ∈ ts, e.span = t.span) ∨ e.span = ending.span := by
    unfold parseTokens at h
    split at h
    · cases h
      exact Or.inr rfl
    · split at h
      · cases h
      · next hread =>
        cases h
        have ahead := @Reader.namesAhead_program ending (enoughFuel ts.length) ⟨ts, 0⟩
        rw [hread] at ahead
        exact ahead
      · next hread => exact absurd hread (Reader.program_enoughFuel ts ending 0)
  have ofToken {ts : List Token} (hts : (untilMistake (scan source)).1 = ts) {s : Span}
      (h : ∃ t ∈ ts, s = t.span) : Place source s := by
    obtain ⟨t, ht, rfl⟩ := h
    rw [← hts] at ht
    exact .item (mem_of_untilMistake ht)
  unfold parse at h
  split at h
  · next ts hscan =>
    rcases ofTokens h with h | h
    · exact ofToken (by rw [hscan]) h
    · rw [h]
      exact .ending
  · next ts mistake hscan =>
    rcases ofTokens h with h | h
    · exact ofToken (by rw [hscan]) h
    · rw [h]
      exact .item (mistake_mem_of_untilMistake (e := mistake) (by rw [hscan]))

end BraceScript

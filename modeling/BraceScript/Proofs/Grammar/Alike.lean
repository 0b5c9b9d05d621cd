-- Reading tokens does not look at where they stand. Two rows of tokens of the
-- same kinds are read to trees that differ in nothing but their places, or
-- both are refused for the same cause.
import BraceScript.Proofs.Moved
import BraceScript.Tree.Progress

namespace BraceScript

variable {α β : Type}

/-! ## Up to places -/

/-- Tokens of the same kinds are left. -/
def Cursor.Alike (c c' : Cursor) : Prop := c.rest.map Token.kind = c'.rest.map Token.kind

/-- Nothing is wrong behind either row of tokens, or the same thing is. -/
inductive Ending.Alike : Ending → Ending → Prop where
  | complete {length length'} : Alike (.complete length) (.complete length')
  | mistake {e e'} : e.cause = e'.cause → Alike (.mistake e) (.mistake e')

/-- Both are read to related values, or refused for the same cause. -/
inductive Parsed.Alike (R : α → α → Prop) : Parsed α → Parsed α → Prop where
  | done {v v' c c'} : R v v' → c.Alike c' → Alike R (.done v c) (.done v' c')
  | refused {e e'} : e.cause = e'.cause → Alike R (.refused e) (.refused e')
  | outOfFuel : Alike R .outOfFuel .outOfFuel

/-- The two readers find related values in tokens of the same kinds. -/
def Reader.Alike (R : α → α → Prop) (x x' : Reader α) : Prop :=
  ∀ ending ending' c c', ending.Alike ending' → c.Alike c' →
    (x ending c).Alike R (x' ending' c')

/-- Any two values are related. -/
def Any (_ _ : α) : Prop := True

/-- Expressions that differ in nothing but their places. -/
def SameExpr (e e' : Expr) : Prop := e.bare = e'.bare

def SameExprs (es es' : List Expr) : Prop := es.map Expr.bare = es'.map Expr.bare

/-- Statements that differ in nothing but their places. -/
def SameStmt (s s' : Stmt) : Prop := s.bare = s'.bare

def SameStmts (ss ss' : List Stmt) : Prop := ss.map Stmt.bare = ss'.map Stmt.bare

theorem SameExprs.cons {e e' : Expr} {es es' : List Expr} (h : SameExpr e e')
    (hs : SameExprs es es') : SameExprs (e :: es) (e' :: es') :=
  List.cons_eq_cons.2 ⟨h, hs⟩

theorem SameStmts.cons {s s' : Stmt} {ss ss' : List Stmt} (h : SameStmt s s')
    (hs : SameStmts ss ss') : SameStmts (s :: ss) (s' :: ss') :=
  List.cons_eq_cons.2 ⟨h, hs⟩

theorem SameExpr.form {e e' : Expr} (h : SameExpr e e') : e.form.Alike e'.form := by
  cases e
  cases e'
  simp only [SameExpr, Expr.bare, Expr.move_at, Expr.at.injEq] at h
  exact ExprForm.alike_of_bare h.2

theorem Cursor.Alike.head? {c c' : Cursor} (h : c.Alike c') :
    c.rest.head?.map Token.kind = c'.rest.head?.map Token.kind := by
  rw [← List.head?_map, ← List.head?_map, h]

/-- The next tokens are of one kind, and there are as many. -/
theorem Cursor.Alike.cases {c c' : Cursor} (h : c.Alike c') :
    (c.rest = [] ∧ c'.rest = []) ∨ ∃ t t' rest rest', c.rest = t :: rest ∧ c'.rest = t' :: rest' ∧
      t.kind = t'.kind ∧ rest.map Token.kind = rest'.map Token.kind := by
  obtain ⟨rest, stop⟩ := c
  obtain ⟨rest', stop'⟩ := c'
  cases rest with
  | nil => exact .inl ⟨rfl, List.map_eq_nil_iff.1 h.symm⟩
  | cons t rest =>
    cases rest' with
    | nil => cases h
    | cons t' rest' =>
      obtain ⟨kind, kinds⟩ := List.cons.inj h
      exact .inr ⟨t, t', rest, rest', rfl, rfl, kind, kinds⟩

namespace Reader

variable {R : α → α → Prop} {S : β → β → Prop}

/-! ## Single steps -/

theorem Alike.andThen {x x' : Reader α} {f f' : α → Reader β} (hx : Alike R x x')
    (hf : ∀ v v', R v v' → Alike S (f v) (f' v')) : Alike S (x >>= f) (x' >>= f') := by
  intro ending ending' c c' endings cursors
  have first := hx ending ending' c c' endings cursors
  cases hxc : x ending c with
  | done v mid =>
    rw [hxc] at first
    cases hxc' : x' ending' c' with
    | done v' mid' =>
      rw [hxc'] at first
      cases first with
      | done values mids =>
        rw [bind_done hxc, bind_done hxc']
        exact hf v v' values ending ending' mid mid' endings mids
    | refused | outOfFuel => rw [hxc'] at first; cases first
  | refused e =>
    rw [hxc] at first
    cases hxc' : x' ending' c' with
    | refused e' =>
      rw [hxc'] at first
      cases first with
      | refused causes =>
        rw [bind_refused hxc, bind_refused hxc']
        exact .refused causes
    | done | outOfFuel => rw [hxc'] at first; cases first
  | outOfFuel =>
    rw [hxc] at first
    cases hxc' : x' ending' c' with
    | outOfFuel =>
      rw [bind_outOfFuel hxc, bind_outOfFuel hxc']
      exact .outOfFuel
    | done | refused => rw [hxc'] at first; cases first

/-- The values of the first step are equal. -/
theorem Alike.followed {x : Reader α} {f f' : α → Reader β} (hx : Alike Eq x x)
    (hf : ∀ v, Alike S (f v) (f' v)) : Alike S (x >>= f) (x >>= f') :=
  hx.andThen fun v _ same => same ▸ hf v

theorem alike_pure {v v' : α} (h : R v v') : Alike R (Pure.pure v : Reader α) (Pure.pure v') :=
  fun _ _ _ _ _ cursors => .done h cursors

theorem alike_outOfFuel : Alike R outOfFuel outOfFuel := fun _ _ _ _ _ _ => .outOfFuel

theorem alike_refuse (cause : SyntaxError.Cause) (span span' : Span) :
    Alike R (refuse cause span) (refuse cause span') := fun _ _ _ _ _ _ => .refused rfl

theorem alike_peek : Alike Eq peek peek :=
  fun _ _ _ _ _ cursors => .done cursors.head? cursors

theorem alike_spanFrom (start start' : Span) : Alike Any (spanFrom start) (spanFrom start') :=
  fun _ _ _ _ _ cursors => .done trivial cursors

theorem alike_here : Alike Any here here := by
  intro ending ending' c c' endings cursors
  obtain ⟨rest, stop⟩ := c
  obtain ⟨rest', stop'⟩ := c'
  rcases cursors.cases with ⟨rfl, rfl⟩ | ⟨t, t', rest, rest', rfl, rfl, -, -⟩
  · cases endings <;> exact .done trivial cursors
  · exact .done trivial cursors

theorem alike_skip : Alike Eq skip skip := by
  intro ending ending' c c' endings cursors
  obtain ⟨rest, stop⟩ := c
  obtain ⟨rest', stop'⟩ := c'
  rcases cursors.cases with ⟨rfl, rfl⟩ | ⟨t, t', rest, rest', rfl, rfl, -, kinds⟩
  · exact .done rfl cursors
  · cases rest with
    | nil =>
      obtain rfl : rest' = [] := List.map_eq_nil_iff.1 kinds.symm
      cases endings with
      | complete => exact .done rfl rfl
      | mistake causes => exact .refused (congrArg SyntaxError.Cause.lexical causes)
    | cons u rest =>
      cases rest' with
      | nil => cases kinds
      | cons u' rest' => exact .done rfl kinds

theorem alike_expected (e : Expectation) : Alike R (expected e) (expected e) := by
  intro ending ending' c c' endings cursors
  obtain ⟨rest, stop⟩ := c
  obtain ⟨rest', stop'⟩ := c'
  rcases cursors.cases with ⟨rfl, rfl⟩ | ⟨t, t', rest, rest', rfl, rfl, kind, -⟩
  · cases endings with
    | complete => exact .refused rfl
    | mistake causes => exact .refused (congrArg SyntaxError.Cause.lexical causes)
  · exact .refused (congrArg (SyntaxError.Cause.unexpected e) kind)

theorem alike_at? (s : Sign) : Alike Eq (at? s) (at? s) :=
  alike_peek.followed fun _ => alike_pure rfl

theorem alike_sign (s : Sign) : Alike Eq (sign s) (sign s) := by
  apply (alike_at? s).followed
  intro b
  split
  · exact alike_skip
  · exact alike_expected _

theorem alike_name : Alike Eq name name := by
  apply alike_peek.followed
  intro k
  split
  · exact alike_skip.followed fun _ => alike_pure rfl
  · exact alike_expected _

/-! ## Parts of expressions -/

variable {e e' : Reader Expr} {es es' : Reader (List Expr)}

theorem alike_exprFrom {form form' : ExprForm} (start start' : Span) (h : form.Alike form') :
    Alike SameExpr (exprFrom start form) (exprFrom start' form') :=
  (alike_spanFrom start start').andThen fun p p' _ => alike_pure (h.bare_at p p')

theorem alike_parenthesized (he : Alike SameExpr e e') :
    Alike SameExpr (parenthesized e) (parenthesized e') :=
  (alike_sign _).followed fun _ => he.andThen fun _ _ same =>
    (alike_sign _).followed fun _ => alike_pure same

theorem alike_bracketed (he : Alike SameExpr e e') :
    Alike SameExpr (bracketed e) (bracketed e') :=
  (alike_sign _).followed fun _ => he.andThen fun _ _ same =>
    (alike_sign _).followed fun _ => alike_pure same

theorem alike_listUntil (close : Sign) (hes : Alike SameExprs es es') :
    Alike SameExprs (listUntil close es) (listUntil close es') := by
  apply (alike_at? close).followed
  intro b
  split
  · exact (alike_sign _).followed fun _ => alike_pure rfl
  · exact hes.andThen fun _ _ same => (alike_sign _).followed fun _ => alike_pure same

theorem alike_arguments (hes : Alike SameExprs es es') :
    Alike SameExprs (arguments es) (arguments es') :=
  (alike_sign _).followed fun _ => alike_listUntil _ hes

theorem alike_nameTail (s : String) (he : Alike SameExpr e e') (hes : Alike SameExprs es es') :
    Alike ExprForm.Alike (nameTail e es s) (nameTail e' es' s) := by
  apply alike_peek.followed
  intro k
  split
  · exact (alike_arguments hes).andThen fun _ _ same => alike_pure (.call same)
  · exact (alike_bracketed he).andThen fun _ _ same => alike_pure (.index same)
  · exact alike_pure .name

theorem alike_valueForm (he : Alike SameExpr e e') :
    Alike SameExpr (valueForm e) (valueForm e') := by
  have operand {form : Expr → ExprForm} (start start' : Span)
      (h : ∀ {v v'}, SameExpr v v' → (form v).Alike (form v')) :
      Alike SameExpr (do skip; let v ← e; exprFrom start (form v))
        (do skip; let v ← e'; exprFrom start' (form v)) :=
    alike_skip.followed fun _ => he.andThen fun _ _ same => alike_exprFrom _ _ (h same)
  have named {form : String → Expr → ExprForm} (start start' : Span)
      (h : ∀ {s v v'}, SameExpr v v' → (form s v).Alike (form s v')) :
      Alike SameExpr (do skip; let a ← name; let v ← e; exprFrom start (form a v))
        (do skip; let a ← name; let v ← e'; exprFrom start' (form a v)) :=
    alike_skip.followed fun _ => alike_name.followed fun _ => he.andThen fun _ _ same =>
      alike_exprFrom _ _ (h same)
  refine alike_here.andThen fun start start' _ => alike_peek.followed fun k => ?_
  split
  · exact operand _ _ .read
  · exact named _ _ .append
  · exact named _ _ .remove
  · exact alike_skip.followed fun _ => alike_name.followed fun _ => alike_exprFrom _ _ .size
  · exact operand _ _ .toJson
  · exact operand _ _ .parseJson
  · exact operand _ _ .math
  · exact operand _ _ .textual
  · exact alike_expected _

/-! ## Expressions -/

theorem alike_expressions (n : Nat) :
    Alike SameExpr (expr n) (expr n) ∧
    (∀ left left', SameExpr left left' → Alike SameExpr (operations n left) (operations n left')) ∧
    Alike SameExpr (unary n) (unary n) ∧ Alike SameExpr (primary n) (primary n) ∧
    Alike SameExprs (items n) (items n) := by
  induction n with
  | zero =>
    exact ⟨alike_outOfFuel, fun _ _ _ => alike_outOfFuel, alike_outOfFuel, alike_outOfFuel,
      alike_outOfFuel⟩
  | succ n ih =>
    obtain ⟨hExpr, hOperations, hUnary, hPrimary, hItems⟩ := ih
    have literal {form : ExprForm} (start start' : Span) (h : form.Alike form) :
        Alike SameExpr (do skip; exprFrom start form) (do skip; exprFrom start' form) :=
      alike_skip.followed fun _ => alike_exprFrom _ _ h
    refine ⟨?_, fun left left' same => ?_, ?_, ?_, ?_⟩
    · exact hUnary.andThen hOperations
    · unfold operations
      apply (alike_peek.followed fun _ => alike_pure rfl).followed
      intro op
      split
      · exact alike_pure same
      · exact alike_skip.followed fun _ => hUnary.andThen fun _ _ same' =>
          hOperations _ _ (ExprForm.Alike.bare_at (.binary same same') _ _)
    · unfold unary
      apply (alike_peek.followed fun _ => alike_pure rfl).followed
      intro op
      split
      · exact hPrimary
      · exact alike_here.andThen fun _ _ _ => alike_skip.followed fun _ =>
          hUnary.andThen fun _ _ same => alike_pure (ExprForm.Alike.bare_at (.unary same) _ _)
    · unfold primary
      refine alike_here.andThen fun start start' _ => alike_peek.followed fun k => ?_
      split
      · exact literal _ _ .number
      · exact literal _ _ .text
      · exact literal _ _ .boolean
      · exact literal _ _ .void
      · exact alike_skip.followed fun _ => (alike_nameTail _ hExpr hItems).andThen
          fun _ _ same => alike_exprFrom _ _ same
      · exact alike_skip.followed fun _ => (alike_listUntil _ hItems).andThen
          fun _ _ same => alike_exprFrom _ _ (.array same)
      · exact (alike_parenthesized hExpr).andThen fun _ _ same => alike_exprFrom _ _ same.form
      · exact alike_valueForm hExpr
      · exact alike_expected _
    · unfold items
      refine hExpr.andThen fun e e' same => (alike_at? _).followed fun b => ?_
      split
      · exact alike_skip.followed fun _ => hItems.andThen fun _ _ more =>
          alike_pure (.cons same more)
      · exact alike_pure (.cons same rfl)

/-! ## Statements -/

theorem alike_names (n : Nat) : Alike Eq (names n) (names n) := by
  induction n with
  | zero => exact alike_outOfFuel
  | succ n ih =>
    unfold names
    refine alike_name.followed fun s => (alike_at? _).followed fun b => ?_
    split
    · exact alike_skip.followed fun _ => ih.followed fun _ => alike_pure rfl
    · exact alike_pure rfl

theorem alike_params {ns : Reader (List String)} (h : Alike Eq ns ns) :
    Alike Eq (params ns) (params ns) := by
  refine (alike_sign _).followed fun _ => (alike_at? _).followed fun b => ?_
  split
  · exact (alike_sign _).followed fun _ => alike_pure rfl
  · exact h.followed fun _ => (alike_sign _).followed fun _ => alike_pure rfl

variable {body body' functionBody functionBody' : Reader (List Stmt)} {ns : Reader (List String)}

theorem alike_block (h : Alike SameStmts body body') : Alike SameStmts (block body) (block body') :=
  (alike_sign _).followed fun _ => h.andThen fun _ _ same =>
    (alike_sign _).followed fun _ => alike_pure same

theorem alike_branching (he : Alike SameExpr e e') (hb : Alike SameStmts body body') :
    Alike StmtForm.Alike (branching e body) (branching e' body') := by
  refine alike_skip.followed fun _ => (alike_parenthesized he).andThen fun _ _ same =>
    (alike_block hb).andThen fun _ _ thens => alike_peek.followed fun k => ?_
  split
  · exact alike_skip.followed fun _ => (alike_block hb).andThen fun _ _ elses =>
      alike_pure (.branch same thens (congrArg some elses))
  · exact alike_pure (.branch same thens rfl)

theorem alike_counting (he : Alike SameExpr e e') (hb : Alike SameStmts body body') :
    Alike StmtForm.Alike (counting e body) (counting e' body') :=
  alike_skip.followed fun _ => (alike_sign _).followed fun _ =>
    alike_name.followed fun _ => (alike_sign _).followed fun _ =>
    he.andThen fun _ _ first => (alike_sign _).followed fun _ =>
    he.andThen fun _ _ last => (alike_sign _).followed fun _ =>
    (alike_block hb).andThen fun _ _ same => alike_pure (.loop first last same)

theorem alike_returning (inFunction : Bool) (he : Alike SameExpr e e') :
    Alike StmtForm.Alike (returning e inFunction) (returning e' inFunction) := by
  have value : Alike StmtForm.Alike (do return StmtForm.return (some (← e)))
      (do return StmtForm.return (some (← e'))) :=
    he.andThen fun _ _ same => alike_pure (.return (congrArg some same))
  unfold returning
  split
  · refine alike_skip.followed fun _ => alike_peek.followed fun k => ?_
    split
    · exact alike_pure (.return rfl)
    · exact alike_pure (.return rfl)
    · split
      · exact alike_pure (.return rfl)
      · exact value
    · exact value
  · exact alike_here.andThen fun _ _ _ => alike_refuse _ _ _

theorem alike_connecting : Alike StmtForm.Alike connecting connecting := by
  refine alike_skip.followed fun _ => alike_peek.followed fun k => ?_
  split
  · exact alike_skip.followed fun _ => alike_pure .connect
  · exact alike_expected _

theorem alike_nameStatement (s : String) (he : Alike SameExpr e e')
    (hes : Alike SameExprs es es') :
    Alike StmtForm.Alike (nameStatement e es s) (nameStatement e' es' s) := by
  refine alike_here.andThen fun start start' _ => alike_skip.followed fun _ =>
    alike_peek.followed fun k => ?_
  split
  · exact (alike_arguments hes).andThen fun _ _ same =>
      (alike_exprFrom _ _ (.call same)).andThen fun _ _ same' => alike_pure (.value same')
  · exact (alike_bracketed he).andThen fun _ _ same =>
      (alike_exprFrom _ _ (.index same)).andThen fun _ _ same' => alike_pure (.value same')
  · exact alike_skip.followed fun _ => he.andThen fun _ _ same => alike_pure (.assign same)
  · exact alike_expected _

theorem alike_keywordStatement (inFunction : Bool) (k : Keyword) (he : Alike SameExpr e e')
    (hns : Alike Eq ns ns) (hb : Alike SameStmts body body')
    (hfb : Alike SameStmts functionBody functionBody') :
    Alike StmtForm.Alike (keywordStatement e ns body functionBody inFunction k)
      (keywordStatement e' ns body' functionBody' inFunction k) := by
  have declaration (immutable : Bool) :
      Alike StmtForm.Alike (declaration e immutable) (declaration e' immutable) :=
    alike_skip.followed fun _ => alike_name.followed fun _ => (alike_sign _).followed fun _ =>
      he.andThen fun _ _ same => alike_pure (.declare same)
  have printing (channel : Channel) :
      Alike StmtForm.Alike (printing e channel) (printing e' channel) :=
    alike_skip.followed fun _ => he.andThen fun _ _ same => alike_pure (.print same)
  unfold keywordStatement
  split
  · exact declaration _
  · exact declaration _
  · exact printing _
  · exact printing _
  · exact printing _
  · exact alike_branching he hb
  · exact alike_counting he hb
  · exact alike_skip.followed fun _ => (alike_parenthesized he).andThen fun _ _ same =>
      (alike_block hb).andThen fun _ _ same' => alike_pure (.while same same')
  · exact alike_skip.followed fun _ => alike_name.followed fun _ =>
      (alike_params hns).followed fun _ => (alike_block hfb).andThen fun _ _ same =>
      alike_pure (.function same)
  · exact alike_returning _ he
  · exact alike_skip.followed fun _ => alike_name.followed fun _ => alike_pure .deleteVariable
  · exact alike_skip.followed fun _ => alike_name.followed fun _ => alike_pure .deleteFunction
  · exact alike_connecting
  · exact alike_skip.followed fun _ => (alike_block hb).andThen fun _ _ same =>
      alike_pure (.async same)
  · split
    · exact (alike_valueForm he).andThen fun _ _ same => alike_pure (.value same)
    · exact alike_expected _

theorem alike_statements (n : Nat) :
    (∀ inFunction, Alike SameStmt (stmt n inFunction) (stmt n inFunction)) ∧
    (∀ inFunction, Alike SameStmts (stmts n inFunction) (stmts n inFunction)) := by
  induction n with
  | zero => exact ⟨fun _ => alike_outOfFuel, fun _ => alike_outOfFuel⟩
  | succ n ih =>
    obtain ⟨ihStmt, ihStmts⟩ := ih
    obtain ⟨hExpr, -, -, -, hItems⟩ := alike_expressions n
    refine ⟨fun inFunction => ?_, fun inFunction => ?_⟩
    · unfold stmt
      refine alike_here.andThen fun start start' _ => alike_peek.followed fun k => ?_
      have whole {form form' : StmtForm} (same : form.Alike form') :
          Alike SameStmt (do return Stmt.at (← spanFrom start) form)
            (do return Stmt.at (← spanFrom start') form') :=
        (alike_spanFrom _ _).andThen fun p p' _ => alike_pure (same.bare_at p p')
      split
      · exact (alike_keywordStatement _ _ hExpr (alike_names n) (ihStmts _)
          (ihStmts _)).andThen fun _ _ => whole
      · exact (alike_nameStatement _ hExpr hItems).andThen fun _ _ => whole
      · exact (alike_expected _).andThen fun _ _ => whole
    · unfold stmts
      apply alike_peek.followed
      intro k
      split
      · exact alike_expected _
      · exact alike_pure rfl
      · exact (ihStmt _).andThen fun _ _ same => (ihStmts _).andThen fun _ _ more =>
          alike_pure (.cons same more)

theorem alike_program (n : Nat) : Alike SameStmts (program n) (program n) := by
  induction n with
  | zero => exact alike_outOfFuel
  | succ n ih =>
    unfold program
    apply alike_peek.followed
    intro k
    split
    · exact alike_pure rfl
    · exact ((alike_statements n).1 _).andThen fun _ _ same => ih.andThen fun _ _ more =>
        alike_pure (.cons same more)

end Reader

/-! ## Whole rows -/

/-- Both are programs that differ in nothing but their places, or neither is one, and for the
same cause. -/
inductive SameProgram : Except SyntaxError (List Stmt) → Except SyntaxError (List Stmt) → Prop where
  | ok {ss ss'} : ss.map Stmt.bare = ss'.map Stmt.bare → SameProgram (.ok ss) (.ok ss')
  | error {e e'} : e.cause = e'.cause → SameProgram (.error e) (.error e')

/-- What a program is made of, and what is wrong with one that is none, is a matter of the kinds
of its tokens. -/
theorem sameProgram_parseTokens {ts ts' : List Token} {ending ending' : Ending}
    (kinds : ts.map Token.kind = ts'.map Token.kind) (endings : ending.Alike ending') :
    SameProgram (parseTokens ts ending) (parseTokens ts' ending') := by
  have length : ts.length = ts'.length := by simpa using congrArg List.length kinds
  have alike := Reader.alike_program (enoughFuel ts.length) ending ending' ⟨ts, 0⟩ ⟨ts', 0⟩
    endings kinds
  by_cases early : ∃ e, ts = [] ∧ ending = .mistake e
  · obtain ⟨e, rfl, rfl⟩ := early
    obtain rfl : ts' = [] := List.map_eq_nil_iff.1 kinds.symm
    cases endings with
    | mistake causes => exact .error (congrArg SyntaxError.Cause.lexical causes)
  · have early' : ∀ e, ts' = [] → ending' = .mistake e → False := by
      rintro e rfl rfl
      obtain rfl : ts = [] := List.map_eq_nil_iff.1 kinds
      cases endings with
      | mistake => exact early ⟨_, rfl, rfl⟩
    rw [parseTokens.eq_2 ts ending fun e none mistake => early ⟨e, none, mistake⟩,
      parseTokens.eq_2 ts' ending' early', ← length]
    generalize Reader.program (enoughFuel ts.length) ending ⟨ts, 0⟩ = parsed at alike ⊢
    generalize Reader.program (enoughFuel ts.length) ending' ⟨ts', 0⟩ = parsed' at alike ⊢
    cases alike with
    | done same => exact .ok same
    | refused causes => exact .error causes
    | outOfFuel => exact .error rfl

end BraceScript

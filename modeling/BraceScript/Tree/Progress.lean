-- Reading a program comes to an end. Every reader that is given enough depth
-- either takes at least so many tokens or refuses what it finds, and
-- `enoughFuel` is enough for a whole text.
import BraceScript.Tree.Parse

namespace BraceScript

namespace Reader

variable {α β : Type} {ending : Ending} {c : Cursor} {k j l : Nat}

/-! ## Readers that take tokens -/

/-- From this cursor on the reader takes `k` tokens or more, or refuses. -/
def Takes (ending : Ending) (c : Cursor) (k : Nat) (x : Reader α) : Prop :=
  match x ending c with
  | .done _ after => after.rest.length + k ≤ c.rest.length
  | .refused _ => True
  | .outOfFuel => False

theorem Takes.done (v : α) : Takes ending c 0 (Pure.pure v : Reader α) := Nat.le_refl _

theorem Takes.andThen {x : Reader α} {f : α → Reader β} (hx : Takes ending c k x)
    (hf : ∀ v after, after.rest.length + k ≤ c.rest.length → Takes ending after j (f v))
    (le : l ≤ k + j) : Takes ending c l (x >>= f) := by
  show (match (match x ending c with
      | .done v after => f v ending after
      | .refused error => .refused error
      | .outOfFuel => .outOfFuel : Parsed β) with
    | .done _ after => after.rest.length + l ≤ c.rest.length
    | .refused _ => True
    | .outOfFuel => False)
  unfold Takes at hx
  cases hxc : x ending c with
  | done v after =>
    rw [hxc] at hx
    have hfv := hf v after hx
    unfold Takes at hfv
    cases hfc : f v ending after with
    | done w last =>
      rw [hfc] at hfv
      simp only [hfc] at hfv hx ⊢
      omega
    | refused error => simp only [hfc]
    | outOfFuel => simp [hfc] at hfv
  | refused error => trivial
  | outOfFuel => simp [hxc] at hx

/-- The tokens that the first of two readers takes, given that the second ends. -/
theorem Takes.first {x : Reader α} {f : α → Reader β} (hx : Takes ending c k x)
    (hf : ∀ v after, after.rest.length + k ≤ c.rest.length → Takes ending after 0 (f v)) :
    Takes ending c k (x >>= f) := hx.andThen hf (Nat.le_refl _)

/-- The tokens that the second of two readers takes. -/
theorem Takes.second {x : Reader α} {f : α → Reader β} (hx : Takes ending c k x)
    (hf : ∀ v after, after.rest.length + k ≤ c.rest.length → Takes ending after j (f v)) :
    Takes ending c j (x >>= f) := hx.andThen hf (Nat.le_add_left _ _)

/-- Looking at the next token takes nothing, and what is seen is there. -/
theorem Takes.afterPeek {f : Option Token.Kind → Reader α}
    (h : Takes ending c k (f (c.rest.head?.map Token.kind))) :
    Takes ending c k (peek >>= f) := h

theorem takes_expected (e : Expectation) : Takes ending c k (expected e : Reader α) := by
  unfold Takes expected
  rcases c with ⟨_ | ⟨t, rest⟩, stop⟩
  · cases ending <;> trivial
  · trivial

theorem takes_refuse (cause : SyntaxError.Cause) (span : Span) :
    Takes ending c k (refuse cause span : Reader α) := trivial

/-- Asking where the next token stands takes nothing. -/
theorem Takes.afterHere {f : Span → Reader α} (h : ∀ start, Takes ending c k (f start)) :
    Takes ending c k (here >>= f) := by
  rcases c with ⟨_ | ⟨t, rest⟩, stop⟩
  · cases ending <;> exact h _
  · exact h _

theorem takes_exprFrom (start : Span) (form : ExprForm) :
    Takes ending c 0 (exprFrom start form) := Nat.le_refl _

theorem takes_stmtFrom (start : Span) (form : StmtForm) :
    Takes ending c 0 (do return Stmt.at (← spanFrom start) form) := Nat.le_refl _

/-- One token is taken if there is one. -/
theorem takes_skip (some : c.rest ≠ []) : Takes ending c 1 skip := by
  unfold Takes skip
  rcases c with ⟨_ | ⟨t, _ | ⟨u, rest⟩⟩, stop⟩
  · exact absurd rfl some
  · cases ending <;> simp
  · simp

theorem takes_sign (s : Sign) : Takes ending c 1 (sign s) := by
  unfold sign at?
  rcases c with ⟨_ | ⟨t, rest⟩, stop⟩
  · exact takes_expected _
  · show Takes ending _ 1 (if _ then skip else expected (.sign s))
    split
    · exact takes_skip (by simp)
    · exact takes_expected _

theorem takes_name : Takes ending c 1 name := by
  unfold name
  refine Takes.afterPeek ?_
  rcases c with ⟨_ | ⟨t, rest⟩, stop⟩
  · exact takes_expected _
  · simp only [List.head?_cons, Option.map_some]
    split
    · exact Takes.first (takes_skip (by simp)) (fun _ _ _ => Takes.done _)
    · exact takes_expected _

theorem Takes.afterAt {s : Sign} {f : Bool → Reader α}
    (yes : c.rest ≠ [] → Takes ending c k (f true)) (no : Takes ending c k (f false)) :
    Takes ending c k (at? s >>= f) := by
  show Takes ending c k (f (decide (c.rest.head?.map Token.kind = some (.sign s))))
  rcases c with ⟨_ | ⟨t, rest⟩, stop⟩
  · exact no
  · by_cases h : t.kind = .sign s
    · simpa [h] using yes (by simp)
    · simpa [h] using no

/-! ## Parts of expressions -/

/-- Wherever fewer tokens are left than here, the reader takes one or more. -/
def TakesLater (ending : Ending) (c : Cursor) (x : Reader α) : Prop :=
  ∀ after : Cursor, after.rest.length < c.rest.length → Takes ending after 1 x

theorem TakesLater.at {x : Reader α} (h : TakesLater ending c x) {after : Cursor}
    (lt : after.rest.length + 1 ≤ c.rest.length) : Takes ending after 1 x := h after lt

theorem TakesLater.from {x : Reader α} (h : TakesLater ending c x) {after : Cursor}
    (le : after.rest.length ≤ c.rest.length) : TakesLater ending after x :=
  fun last lt => h last (Nat.lt_of_lt_of_le lt le)

theorem takes_parenthesized {e : Reader Expr} (he : TakesLater ending c e) :
    Takes ending c 1 (parenthesized e) := by
  refine Takes.first (takes_sign _) (fun _ after h => ?_)
  refine Takes.second (he.at h) (fun _ last _ => ?_)
  exact Takes.second (takes_sign _) (fun _ _ _ => Takes.done _)

theorem takes_bracketed {e : Reader Expr} (he : TakesLater ending c e) :
    Takes ending c 1 (bracketed e) := by
  refine Takes.first (takes_sign _) (fun _ after h => ?_)
  refine Takes.second (he.at h) (fun _ last _ => ?_)
  exact Takes.second (takes_sign _) (fun _ _ _ => Takes.done _)

theorem takes_listUntil {close : Sign} {es : Reader (List Expr)} (hes : Takes ending c 1 es) :
    Takes ending c 0 (listUntil close es) := by
  refine Takes.afterAt (fun _ => ?_) ?_
  · exact Takes.second (takes_sign _) (fun _ _ _ => Takes.done _)
  · refine Takes.second hes (fun _ _ _ => ?_)
    exact Takes.second (takes_sign _) (fun _ _ _ => Takes.done _)

theorem takes_arguments {es : Reader (List Expr)} (hes : TakesLater ending c es) :
    Takes ending c 1 (arguments es) :=
  Takes.first (takes_sign _) (fun _ _ h => takes_listUntil (hes.at h))

theorem takes_nameTail {e : Reader Expr} {es : Reader (List Expr)} (s : String)
    (he : TakesLater ending c e) (hes : TakesLater ending c es) :
    Takes ending c 0 (nameTail e es s) := by
  refine Takes.afterPeek ?_
  rcases c with ⟨_ | ⟨t, rest⟩, stop⟩
  · exact Takes.done _
  · simp only [List.head?_cons, Option.map_some]
    split
    · exact Takes.second (takes_arguments hes) (fun _ _ _ => Takes.done _)
    · exact Takes.second (takes_bracketed he) (fun _ _ _ => Takes.done _)
    · exact Takes.done _

/-- A keyword with one operand behind it. -/
theorem takes_operand {e : Reader Expr} (some : c.rest ≠ []) (he : TakesLater ending c e)
    (start : Span) (form : Expr → ExprForm) :
    Takes ending c 1 (do skip; let v ← e; exprFrom start (form v)) := by
  refine Takes.first (takes_skip some) (fun _ after h => ?_)
  exact Takes.second (he.at h) (fun _ _ _ => takes_exprFrom _ _)

/-- A keyword with the name of an array and an operand behind it. -/
theorem takes_namedOperand {e : Reader Expr} (some : c.rest ≠ []) (he : TakesLater ending c e)
    (start : Span) (form : String → Expr → ExprForm) :
    Takes ending c 1 (do skip; let a ← name; let v ← e; exprFrom start (form a v)) := by
  refine Takes.first (takes_skip some) (fun _ after h => ?_)
  refine Takes.second takes_name (fun _ last h' => ?_)
  exact Takes.second (he.at (by omega)) (fun _ _ _ => takes_exprFrom _ _)

theorem takes_valueForm {e : Reader Expr} (he : TakesLater ending c e) :
    Takes ending c 1 (valueForm e) := by
  refine Takes.afterHere fun start => Takes.afterPeek ?_
  rcases c with ⟨_ | ⟨t, rest⟩, stop⟩
  · exact takes_expected _
  · simp only [List.head?_cons, Option.map_some]
    have some : (⟨t :: rest, stop⟩ : Cursor).rest ≠ [] := by simp
    split
    · exact takes_operand some he start _
    · exact takes_namedOperand some he start _
    · exact takes_namedOperand some he start _
    · refine Takes.first (takes_skip some) (fun _ _ _ => ?_)
      exact Takes.second takes_name (fun _ _ _ => takes_exprFrom _ _)
    · exact takes_operand some he start _
    · exact takes_operand some he start _
    · exact takes_operand some he start _
    · exact takes_operand some he start _
    · exact takes_expected _

theorem Takes.afterUnaryOperator {f : Option UnaryOperator → Reader α}
    (some : ∀ op, c.rest ≠ [] → Takes ending c k (f (some op)))
    (none : Takes ending c k (f none)) : Takes ending c k (unaryOperator? >>= f) := by
  show Takes ending c k (f ((c.rest.head?.map Token.kind).bind Token.Kind.unaryOperator?))
  rcases c with ⟨_ | ⟨t, rest⟩, stop⟩
  · exact none
  · cases h : t.kind.unaryOperator? with
    | none => simpa [h] using none
    | some op => simpa [h] using some op (by simp)

theorem Takes.afterBinaryOperator {f : Option BinaryOperator → Reader α}
    (some : ∀ op, c.rest ≠ [] → Takes ending c k (f (some op)))
    (none : Takes ending c k (f none)) : Takes ending c k (binaryOperator? >>= f) := by
  show Takes ending c k (f ((c.rest.head?.map Token.kind).bind Token.Kind.binaryOperator?))
  rcases c with ⟨_ | ⟨t, rest⟩, stop⟩
  · exact none
  · cases h : t.kind.binaryOperator? with
    | none => simpa [h] using none
    | some op => simpa [h] using some op (by simp)

/-! ## Expressions -/

/-- With this depth every reader of an expression comes to an end. -/
theorem takes_expressions (n : Nat) :
    (∀ c, 4 * c.rest.length + 3 ≤ n → Takes ending c 1 (expr n)) ∧
    (∀ c left, 4 * c.rest.length + 1 ≤ n → Takes ending c 0 (operations n left)) ∧
    (∀ c, 4 * c.rest.length + 2 ≤ n → Takes ending c 1 (unary n)) ∧
    (∀ c, 4 * c.rest.length + 1 ≤ n → Takes ending c 1 (primary n)) ∧
    (∀ c, 4 * c.rest.length + 4 ≤ n → Takes ending c 1 (items n)) := by
  induction n with
  | zero => refine ⟨?_, ?_, ?_, ?_, ?_⟩ <;> intros <;> omega
  | succ n ih =>
    obtain ⟨ihExpr, ihOperations, ihUnary, ihPrimary, ihItems⟩ := ih
    refine ⟨fun c h => ?_, fun c left h => ?_, fun c h => ?_, fun c h => ?_, fun c h => ?_⟩
    · unfold expr
      exact (ihUnary c (by omega)).first fun left after h' => ihOperations after left (by omega)
    · unfold operations
      refine Takes.afterBinaryOperator (fun op some => ?_) (Takes.done _)
      refine (takes_skip some).second fun _ after h' => ?_
      exact (ihUnary after (by omega)).second fun _ last h'' => ihOperations last _ (by omega)
    · unfold unary
      refine Takes.afterUnaryOperator (fun op some => ?_) (ihPrimary c (by omega))
      refine Takes.afterHere fun start => (takes_skip some).first fun _ after h' => ?_
      exact (ihUnary after (by omega)).second fun _ _ _ => Takes.done _
    · unfold primary
      have later : TakesLater ending c (expr n) := fun after lt => ihExpr after (by omega)
      have laterItems : TakesLater ending c (items n) := fun after lt => ihItems after (by omega)
      refine Takes.afterHere fun start => Takes.afterPeek ?_
      rcases c with ⟨_ | ⟨t, rest⟩, stop⟩
      · exact takes_expected _
      · simp only [List.head?_cons, Option.map_some]
        have some : (⟨t :: rest, stop⟩ : Cursor).rest ≠ [] := by simp
        split
        · exact (takes_skip some).first fun _ _ _ => takes_exprFrom _ _
        · exact (takes_skip some).first fun _ _ _ => takes_exprFrom _ _
        · exact (takes_skip some).first fun _ _ _ => takes_exprFrom _ _
        · exact (takes_skip some).first fun _ _ _ => takes_exprFrom _ _
        · refine (takes_skip some).first fun _ after h' => ?_
          refine (takes_nameTail _ (later.from (by omega)) (laterItems.from (by omega))).second ?_
          exact fun _ _ _ => takes_exprFrom _ _
        · refine (takes_skip some).first fun _ after h' => ?_
          refine (takes_listUntil (laterItems.at h')).second fun _ _ _ => takes_exprFrom _ _
        · exact (takes_parenthesized later).first fun _ _ _ => takes_exprFrom _ _
        · exact takes_valueForm later
        · exact takes_expected _
    · unfold items
      refine (ihExpr c (by omega)).first fun e after h' => ?_
      refine Takes.afterAt (fun some => ?_) (Takes.done _)
      refine (takes_skip some).second fun _ last h'' => ?_
      exact (ihItems last (by omega)).second fun _ _ _ => Takes.done _

/-! ## Parts of statements -/

/-- Wherever fewer tokens are left than here, the reader comes to an end. -/
def EndsLater (ending : Ending) (c : Cursor) (x : Reader α) : Prop :=
  ∀ after : Cursor, after.rest.length < c.rest.length → Takes ending after 0 x

theorem takes_names (n : Nat) : ∀ c : Cursor, c.rest.length + 1 ≤ n →
    Takes ending c 1 (names n) := by
  induction n with
  | zero => intros; omega
  | succ n ih =>
    intro c h
    unfold names
    refine takes_name.first fun s after h' => ?_
    refine Takes.afterAt (fun some => ?_) (Takes.done _)
    refine (takes_skip some).second fun _ last h'' => ?_
    exact (ih last (by omega)).second fun _ _ _ => Takes.done _

theorem takes_params {ns : Reader (List String)} (hns : TakesLater ending c ns) :
    Takes ending c 1 (params ns) := by
  refine (takes_sign _).first fun _ after h => ?_
  refine Takes.afterAt (fun _ => ?_) ?_
  · exact (takes_sign _).second fun _ _ _ => Takes.done _
  · refine (hns.at h).second fun _ _ _ => ?_
    exact (takes_sign _).second fun _ _ _ => Takes.done _

theorem takes_block {body : Reader (List Stmt)} (hb : EndsLater ending c body) :
    Takes ending c 1 (block body) := by
  refine (takes_sign _).first fun _ after h => ?_
  refine (hb after h).second fun _ _ _ => ?_
  exact (takes_sign _).second fun _ _ _ => Takes.done _

theorem takes_declaration {e : Reader Expr} (some : c.rest ≠ []) (he : TakesLater ending c e)
    (immutable : Bool) : Takes ending c 1 (declaration e immutable) := by
  refine (takes_skip some).first fun _ after h => ?_
  refine takes_name.second fun _ after' h' => ?_
  refine (takes_sign _).second fun _ after'' h'' => ?_
  exact (he.at (by omega)).second fun _ _ _ => Takes.done _

theorem takes_printing {e : Reader Expr} (some : c.rest ≠ []) (he : TakesLater ending c e)
    (channel : Channel) : Takes ending c 1 (printing e channel) := by
  refine (takes_skip some).first fun _ after h => ?_
  exact (he.at h).second fun _ _ _ => Takes.done _

theorem takes_branching {e : Reader Expr} {body : Reader (List Stmt)} (some : c.rest ≠ [])
    (he : TakesLater ending c e) (hb : EndsLater ending c body) :
    Takes ending c 1 (branching e body) := by
  refine (takes_skip some).first fun _ after h => ?_
  refine (takes_parenthesized (he.from (by omega))).second fun _ after' h' => ?_
  refine (takes_block fun last lt => hb last (by omega)).second fun _ after'' h'' => ?_
  refine Takes.afterPeek ?_
  split
  · next isElse =>
    have some : after''.rest ≠ [] := fun none => by simp [none] at isElse
    refine (takes_skip some).second fun _ last h''' => ?_
    exact (takes_block fun _ lt => hb _ (by omega)).second fun _ _ _ => Takes.done _
  · exact Takes.done _

theorem takes_counting {e : Reader Expr} {body : Reader (List Stmt)} (some : c.rest ≠ [])
    (he : TakesLater ending c e) (hb : EndsLater ending c body) :
    Takes ending c 1 (counting e body) := by
  refine (takes_skip some).first fun _ c₁ h₁ => ?_
  refine (takes_sign _).second fun _ c₂ h₂ => ?_
  refine takes_name.second fun _ c₃ h₃ => ?_
  refine (takes_sign _).second fun _ c₄ h₄ => ?_
  refine (he.at (by omega)).second fun _ c₅ h₅ => ?_
  refine (takes_sign _).second fun _ c₆ h₆ => ?_
  refine (he.at (by omega)).second fun _ c₇ h₇ => ?_
  refine (takes_sign _).second fun _ c₈ h₈ => ?_
  exact (takes_block fun last lt => hb last (by omega)).second fun _ _ _ => Takes.done _

theorem takes_repeating {e : Reader Expr} {body : Reader (List Stmt)} (some : c.rest ≠ [])
    (he : TakesLater ending c e) (hb : EndsLater ending c body) :
    Takes ending c 1 (repeating e body) := by
  refine (takes_skip some).first fun _ after h => ?_
  refine (takes_parenthesized (he.from (by omega))).second fun _ after' h' => ?_
  exact (takes_block fun last lt => hb last (by omega)).second fun _ _ _ => Takes.done _

theorem takes_definition {ns : Reader (List String)} {body : Reader (List Stmt)}
    (some : c.rest ≠ []) (hns : TakesLater ending c ns) (hb : EndsLater ending c body) :
    Takes ending c 1 (definition ns body) := by
  refine (takes_skip some).first fun _ after h => ?_
  refine takes_name.second fun _ after' h' => ?_
  refine (takes_params (hns.from (by omega))).second fun _ after'' h'' => ?_
  exact (takes_block fun last lt => hb last (by omega)).second fun _ _ _ => Takes.done _

theorem takes_returning {e : Reader Expr} (some : c.rest ≠ []) (he : TakesLater ending c e)
    (inFunction : Bool) : Takes ending c 1 (returning e inFunction) := by
  unfold returning
  split
  · refine (takes_skip some).first fun _ after h => Takes.afterPeek ?_
    have value : Takes ending after 0 (do return StmtForm.return (.some (← e))) :=
      (he.at h).second fun _ _ _ => Takes.done _
    split
    · exact Takes.done _
    · exact Takes.done _
    · split
      · exact Takes.done _
      · exact value
    · exact value
  · exact Takes.afterHere fun _ => takes_refuse _ _

theorem takes_connecting (some : c.rest ≠ []) : Takes ending c 1 connecting := by
  refine (takes_skip some).first fun _ after h => Takes.afterPeek ?_
  rcases after with ⟨_ | ⟨t, rest⟩, stop⟩
  · exact takes_expected _
  · simp only [List.head?_cons, Option.map_some]
    split
    · exact (takes_skip (by simp)).second fun _ _ _ => Takes.done _
    · exact takes_expected _

theorem takes_nameStatement {e : Reader Expr} {es : Reader (List Expr)} (some : c.rest ≠ [])
    (he : TakesLater ending c e) (hes : TakesLater ending c es) (s : String) :
    Takes ending c 1 (nameStatement e es s) := by
  refine Takes.afterHere fun start => (takes_skip some).first fun _ after h => ?_
  refine Takes.afterPeek ?_
  replace he := he.from (Nat.le_of_succ_le h)
  replace hes := hes.from (Nat.le_of_succ_le h)
  rcases after with ⟨_ | ⟨t, rest⟩, stop⟩
  · exact takes_expected _
  · simp only [List.head?_cons, Option.map_some]
    split
    · refine (takes_arguments hes).second fun _ _ _ => ?_
      exact (takes_exprFrom _ _).second fun _ _ _ => Takes.done _
    · refine (takes_bracketed he).second fun _ _ _ => ?_
      exact (takes_exprFrom _ _).second fun _ _ _ => Takes.done _
    · refine (takes_skip (by simp)).second fun _ last h' => ?_
      exact (he.at h').second fun _ _ _ => Takes.done _
    · exact takes_expected _

theorem takes_keywordStatement {e : Reader Expr} {ns : Reader (List String)}
    {body functionBody : Reader (List Stmt)} (some : c.rest ≠ []) (he : TakesLater ending c e)
    (hns : TakesLater ending c ns) (hb : EndsLater ending c body)
    (hf : EndsLater ending c functionBody) (inFunction : Bool) (k : Keyword) :
    Takes ending c 1 (keywordStatement e ns body functionBody inFunction k) := by
  unfold keywordStatement
  split
  · exact takes_declaration some he _
  · exact takes_declaration some he _
  · exact takes_printing some he _
  · exact takes_printing some he _
  · exact takes_printing some he _
  · exact takes_branching some he hb
  · exact takes_counting some he hb
  · exact takes_repeating some he hb
  · exact takes_definition some hns hf
  · exact takes_returning some he _
  · refine (takes_skip some).first fun _ _ _ => ?_
    exact takes_name.second fun _ _ _ => Takes.done _
  · refine (takes_skip some).first fun _ _ _ => ?_
    exact takes_name.second fun _ _ _ => Takes.done _
  · exact takes_connecting some
  · refine (takes_skip some).first fun _ after h => ?_
    exact (takes_block fun last lt => hb last (by omega)).second fun _ _ _ => Takes.done _
  · split
    · exact (takes_valueForm he).first fun _ _ _ => Takes.done _
    · exact takes_expected _

/-! ## Statements -/

/-- With this depth every reader of statements comes to an end. -/
theorem takes_statements (n : Nat) :
    (∀ c inFunction, 4 * c.rest.length + 1 ≤ n → Takes ending c 1 (stmt n inFunction)) ∧
    (∀ c inFunction, 4 * c.rest.length + 2 ≤ n → Takes ending c 0 (stmts n inFunction)) := by
  induction n with
  | zero => refine ⟨?_, ?_⟩ <;> intros <;> omega
  | succ n ih =>
    obtain ⟨ihStmt, ihStmts⟩ := ih
    obtain ⟨hExpr, _, _, _, hItems⟩ := @takes_expressions ending n
    refine ⟨fun c inFunction h => ?_, fun c inFunction h => ?_⟩
    · have later : TakesLater ending c (expr n) := fun after lt => hExpr after (by omega)
      have laterItems : TakesLater ending c (items n) := fun after lt => hItems after (by omega)
      have laterNames : TakesLater ending c (names n) := fun after lt =>
        takes_names n after (by omega)
      have laterStmts : ∀ b, EndsLater ending c (stmts n b) := fun b after lt =>
        ihStmts after b (by omega)
      unfold stmt
      refine Takes.afterHere fun start => Takes.afterPeek ?_
      rcases c with ⟨_ | ⟨t, rest⟩, stop⟩
      · exact Takes.first (takes_expected _) fun _ _ _ => takes_stmtFrom _ _
      · simp only [List.head?_cons, Option.map_some]
        have some : (⟨t :: rest, stop⟩ : Cursor).rest ≠ [] := by simp
        split
        · refine (takes_keywordStatement some later laterNames (laterStmts _) (laterStmts _)
            _ _).first fun _ _ _ => takes_stmtFrom _ _
        · exact (takes_nameStatement some later laterItems _).first fun _ _ _ => takes_stmtFrom _ _
        · exact Takes.first (takes_expected _) fun _ _ _ => takes_stmtFrom _ _
    · unfold stmts
      refine Takes.afterPeek ?_
      split
      · exact takes_expected _
      · exact Takes.done _
      · refine (ihStmt c inFunction (by omega)).second fun _ after h' => ?_
        exact (ihStmts after inFunction (by omega)).second fun _ _ _ => Takes.done _

theorem takes_program (n : Nat) : ∀ c : Cursor, 4 * c.rest.length + 2 ≤ n →
    Takes ending c 0 (program n) := by
  induction n with
  | zero => intros; omega
  | succ n ih =>
    intro c h
    unfold program
    refine Takes.afterPeek ?_
    split
    · exact Takes.done _
    · refine ((takes_statements n).1 c false (by omega)).second fun _ after h' => ?_
      exact (ih after (by omega)).second fun _ _ _ => Takes.done _

/-- The depth that `parseTokens` gives is never used up. -/
theorem program_enoughFuel (tokens : List Token) (ending : Ending) (stop : Nat) :
    program (enoughFuel tokens.length) ending ⟨tokens, stop⟩ ≠ .outOfFuel := by
  intro h
  have := @takes_program ending (enoughFuel tokens.length) ⟨tokens, stop⟩
    (by simp only [enoughFuel]; omega)
  simp [Takes, h] at this

end Reader

end BraceScript

-- The grammar of the language. Its rules say which tokens make up a phrase
-- and which tree the phrase has:
--
--   program     stmt*
--   block       '{' stmt* '}'
--   expression  unary (operator unary)*            all operators on one level
--   unary       ('!' | '-') unary | primary
--   primary     literal, name, name(…), name[…], […], (…), or a value form
--
-- A rule looks at the kinds of tokens only; where they stand goes into the
-- tree. `next` is what stands right behind a phrase, if anything does.
import BraceScript.Tree.Parse

namespace BraceScript

namespace Grammar

/-! ## Tokens in a row -/

/-- What stands first: one of the tokens or, if there are none, what is next. -/
def ahead (ts : List Token) (next : Option Token.Kind) : Option Token.Kind :=
  (ts.head?.map Token.kind).or next

@[simp] theorem ahead_nil (next : Option Token.Kind) : ahead [] next = next := rfl

@[simp] theorem ahead_cons (t : Token) (ts : List Token) (next : Option Token.Kind) :
    ahead (t :: ts) next = some t.kind := rfl

theorem ahead_append (ts us : List Token) (next : Option Token.Kind) :
    ahead (ts ++ us) next = ahead ts (ahead us next) := by
  cases ts <;> rfl

/-- Where the last of the tokens ends or, if there are none, `stop`. -/
def lastStop (stop : Nat) (ts : List Token) : Nat := ts.foldl (fun _ t => t.span.stop) stop

@[simp] theorem lastStop_nil (stop : Nat) : lastStop stop [] = stop := rfl

@[simp] theorem lastStop_cons (stop : Nat) (t : Token) (ts : List Token) :
    lastStop stop (t :: ts) = lastStop t.span.stop ts := rfl

@[simp] theorem lastStop_append (stop : Nat) (ts us : List Token) :
    lastStop stop (ts ++ us) = lastStop (lastStop stop ts) us := by
  simp [lastStop]

/-- From the first of the tokens to the last. -/
def cover : List Token → Span
  | [] => Span.point 0
  | t :: ts => ⟨t.span.start, max (lastStop t.span.stop ts) t.span.stop⟩

@[simp] theorem cover_single (k : Token.Kind) (p : Span) : cover [⟨k, p⟩] = p := by
  simp [cover]

/-! ## Expressions -/

/-- The form that a keyword makes of one operand. -/
def operandForm? : Keyword → Option (Expr → ExprForm)
  | .read => some .read
  | .tojson => some .toJson
  | .parjson => some .parseJson
  | .math function => some (.math function)
  | .text function => some (.textual function)
  | _ => none

/-- The form that a keyword makes of a named array and one operand. -/
def arrayForm? : Keyword → Option (String → Expr → ExprForm)
  | .arradd => some .append
  | .arrdel => some .remove
  | _ => none

/-- No binary operator is next, so an expression can be over. -/
def EndsExpr (next : Option Token.Kind) : Prop := next.bind Token.Kind.binaryOperator? = none

/-- A phrase within an expression, with its tree. -/
inductive Phrase where
  | expr (e : Expr)
  | unary (e : Expr)
  | primary (form : ExprForm)
  | valueForm (form : ExprForm)
  | items (es : List Expr)
  | list (es : List Expr)

/-- The rules of expressions. If `longest` is set, the operand of a value form
reaches as far to the right as it can. -/
inductive DerivesExpr (longest : Bool) : Option Token.Kind → List Token → Phrase → Prop where
  | operand {next ts e} :
    DerivesExpr longest next ts (.unary e) → DerivesExpr longest next ts (.expr e)
  | operation {next ls rs l r k p op} :
    DerivesExpr longest (some k) ls (.expr l) → k.binaryOperator? = some op →
    DerivesExpr longest next rs (.unary r) →
    DerivesExpr longest next (ls ++ ⟨k, p⟩ :: rs)
      (.expr (.at (l.span.merge r.span) (.binary op l r)))
  | operator {next ts e k p op} :
    k.unaryOperator? = some op → DerivesExpr longest next ts (.unary e) →
    DerivesExpr longest next (⟨k, p⟩ :: ts) (.unary (.at (p.merge e.span) (.unary op e)))
  | primary {next ts form} :
    DerivesExpr longest next ts (.primary form) →
    DerivesExpr longest next ts (.unary (.at (cover ts) form))
  | number {next x p} : DerivesExpr longest next [⟨.number x, p⟩] (.primary (.number x))
  | text {next s p} : DerivesExpr longest next [⟨.text s, p⟩] (.primary (.text s))
  | boolean {next b p} : DerivesExpr longest next [⟨.boolean b, p⟩] (.primary (.boolean b))
  | void {next p} : DerivesExpr longest next [⟨.keyword .void, p⟩] (.primary .void)
  | name {next s p} : DerivesExpr longest next [⟨.name s, p⟩] (.primary (.name s))
  | call {next s ts es p q r} :
    DerivesExpr longest (some (.sign .rightParen)) ts (.list es) →
    DerivesExpr longest next
      (⟨.name s, p⟩ :: ⟨.sign .leftParen, q⟩ :: (ts ++ [⟨.sign .rightParen, r⟩]))
      (.primary (.call s es))
  | index {next s ts e p q r} :
    DerivesExpr longest (some (.sign .rightBracket)) ts (.expr e) →
    DerivesExpr longest next
      (⟨.name s, p⟩ :: ⟨.sign .leftBracket, q⟩ :: (ts ++ [⟨.sign .rightBracket, r⟩]))
      (.primary (.index s e))
  | array {next ts es p q} :
    DerivesExpr longest (some (.sign .rightBracket)) ts (.list es) →
    DerivesExpr longest next (⟨.sign .leftBracket, p⟩ :: (ts ++ [⟨.sign .rightBracket, q⟩]))
      (.primary (.array es))
  | parens {next ts e p q} :
    DerivesExpr longest (some (.sign .rightParen)) ts (.expr e) →
    DerivesExpr longest next (⟨.sign .leftParen, p⟩ :: (ts ++ [⟨.sign .rightParen, q⟩]))
      (.primary e.form)
  | valueForm {next ts form} :
    DerivesExpr longest next ts (.valueForm form) → DerivesExpr longest next ts (.primary form)
  | operandForm {next ts e k p form} :
    operandForm? k = some form → (longest = true → EndsExpr next) →
    DerivesExpr longest next ts (.expr e) →
    DerivesExpr longest next (⟨.keyword k, p⟩ :: ts) (.valueForm (form e))
  | arrayForm {next ts e k s p q form} :
    arrayForm? k = some form → (longest = true → EndsExpr next) →
    DerivesExpr longest next ts (.expr e) →
    DerivesExpr longest next (⟨.keyword k, p⟩ :: ⟨.name s, q⟩ :: ts) (.valueForm (form s e))
  | size {next s p q} :
    DerivesExpr longest next [⟨.keyword .arrsize, p⟩, ⟨.name s, q⟩] (.valueForm (.size s))
  | lastItem {next ts e} :
    DerivesExpr longest next ts (.expr e) → DerivesExpr longest next ts (.items [e])
  | moreItems {next ts us e es p} :
    DerivesExpr longest (some (.sign .comma)) ts (.expr e) →
    DerivesExpr longest next us (.items es) →
    DerivesExpr longest next (ts ++ ⟨.sign .comma, p⟩ :: us) (.items (e :: es))
  | noItems {next} : DerivesExpr longest next [] (.list [])
  | someItems {next ts es} :
    DerivesExpr longest next ts (.items es) → DerivesExpr longest next ts (.list es)

/-! ## Statements -/

/-- A phrase made of statements, with its tree. -/
inductive Sentence where
  | form (form : StmtForm)
  | stmt (s : Stmt)
  | stmts (ss : List Stmt)
  | block (ss : List Stmt)

/-- The keyword of a declaration. -/
def declarer (immutable : Bool) : Keyword := if immutable then .make else .letVar

/-- The keyword that prints on a channel. -/
def printer : Channel → Keyword
  | .info => .show
  | .error => .error
  | .warning => .alert

/-- A `return` has no value before a closing brace, at the end of the text, and
before a keyword that can only begin a statement. -/
def omitsValue : Option Token.Kind → Bool
  | none => true
  | some (.sign .rightBrace) => true
  | some (.keyword k) => k.onlyBeginsStatement
  | some _ => false

/-- Names with commas between them. -/
inductive DerivesNames : List Token → List String → Prop where
  | last {s p} : DerivesNames [⟨.name s, p⟩] [s]
  | more {s ts ss p q} :
    DerivesNames ts ss → DerivesNames (⟨.name s, p⟩ :: ⟨.sign .comma, q⟩ :: ts) (s :: ss)

/-- The names between the parentheses of a definition. -/
inductive DerivesParams : List Token → List String → Prop where
  | none : DerivesParams [] []
  | some {ts ss} : DerivesNames ts ss → DerivesParams ts ss

/-- The rules of statements. The first index says whether they are in the body
of a function. -/
inductive DerivesStmt (longest : Bool) :
    Bool → Option Token.Kind → List Token → Sentence → Prop where
  | declare {inFunction next immutable s ts e p q r} :
    DerivesExpr longest next ts (.expr e) →
    DerivesStmt longest inFunction next
      (⟨.keyword (declarer immutable), p⟩ :: ⟨.name s, q⟩ :: ⟨.sign .assign, r⟩ :: ts)
      (.form (.declare s e immutable))
  | print {inFunction next channel ts e p} :
    DerivesExpr longest next ts (.expr e) →
    DerivesStmt longest inFunction next (⟨.keyword (printer channel), p⟩ :: ts)
      (.form (.print channel e))
  | branch {inFunction next cs ts c ss p q r} :
    DerivesExpr longest (some (.sign .rightParen)) cs (.expr c) →
    DerivesStmt longest inFunction next ts (.block ss) →
    DerivesStmt longest inFunction next
      (⟨.keyword .ifThen, p⟩ :: ⟨.sign .leftParen, q⟩ ::
        (cs ++ ⟨.sign .rightParen, r⟩ :: ts))
      (.form (.branch c ss none))
  | branchElse {inFunction next cs ts us c ss ss' p q r o} :
    DerivesExpr longest (some (.sign .rightParen)) cs (.expr c) →
    DerivesStmt longest inFunction (some (.keyword .otherwise)) ts (.block ss) →
    DerivesStmt longest inFunction next us (.block ss') →
    DerivesStmt longest inFunction next
      (⟨.keyword .ifThen, p⟩ :: ⟨.sign .leftParen, q⟩ ::
        (cs ++ ⟨.sign .rightParen, r⟩ :: (ts ++ ⟨.keyword .otherwise, o⟩ :: us)))
      (.form (.branch c ss (some ss')))
  | loop {inFunction next s as bs ts a b ss p q r o m l} :
    DerivesExpr longest (some (.sign .comma)) as (.expr a) →
    DerivesExpr longest (some (.sign .rightParen)) bs (.expr b) →
    DerivesStmt longest inFunction next ts (.block ss) →
    DerivesStmt longest inFunction next
      (⟨.keyword .loop, p⟩ :: ⟨.sign .leftParen, q⟩ :: ⟨.name s, r⟩ :: ⟨.sign .comma, o⟩ ::
        (as ++ ⟨.sign .comma, m⟩ :: (bs ++ ⟨.sign .rightParen, l⟩ :: ts)))
      (.form (.loop s a b ss))
  | while {inFunction next cs ts c ss p q r} :
    DerivesExpr longest (some (.sign .rightParen)) cs (.expr c) →
    DerivesStmt longest inFunction next ts (.block ss) →
    DerivesStmt longest inFunction next
      (⟨.keyword .while, p⟩ :: ⟨.sign .leftParen, q⟩ ::
        (cs ++ ⟨.sign .rightParen, r⟩ :: ts))
      (.form (.while c ss))
  | function {inFunction next s as ts ss params p q r o} :
    DerivesParams as params → DerivesStmt longest true next ts (.block ss) →
    DerivesStmt longest inFunction next
      (⟨.keyword .func, p⟩ :: ⟨.name s, q⟩ :: ⟨.sign .leftParen, r⟩ ::
        (as ++ ⟨.sign .rightParen, o⟩ :: ts))
      (.form (.function s params ss))
  | returnNothing {next p} :
    omitsValue next = true →
    DerivesStmt longest true next [⟨.keyword .return, p⟩] (.form (.return none))
  | returnValue {next ts e p} :
    omitsValue (ahead ts next) = false → DerivesExpr longest next ts (.expr e) →
    DerivesStmt longest true next (⟨.keyword .return, p⟩ :: ts) (.form (.return (some e)))
  | deleteVariable {inFunction next s p q} :
    DerivesStmt longest inFunction next [⟨.keyword .delvar, p⟩, ⟨.name s, q⟩]
      (.form (.deleteVariable s))
  | deleteFunction {inFunction next s p q} :
    DerivesStmt longest inFunction next [⟨.keyword .delfunc, p⟩, ⟨.name s, q⟩]
      (.form (.deleteFunction s))
  | connect {inFunction next s p q} :
    DerivesStmt longest inFunction next [⟨.keyword .connect, p⟩, ⟨.text s, q⟩]
      (.form (.connect s))
  | async {inFunction next ts ss p} :
    DerivesStmt longest inFunction next ts (.block ss) →
    DerivesStmt longest inFunction next (⟨.keyword .async, p⟩ :: ts) (.form (.async ss))
  | call {inFunction next s ts es p q r} :
    DerivesExpr longest (some (.sign .rightParen)) ts (.list es) →
    DerivesStmt longest inFunction next
      (⟨.name s, p⟩ :: ⟨.sign .leftParen, q⟩ :: (ts ++ [⟨.sign .rightParen, r⟩]))
      (.form (.value (.at (cover
        (⟨.name s, p⟩ :: ⟨.sign .leftParen, q⟩ :: (ts ++ [⟨.sign .rightParen, r⟩])))
        (.call s es))))
  | index {inFunction next s ts e p q r} :
    DerivesExpr longest (some (.sign .rightBracket)) ts (.expr e) →
    DerivesStmt longest inFunction next
      (⟨.name s, p⟩ :: ⟨.sign .leftBracket, q⟩ :: (ts ++ [⟨.sign .rightBracket, r⟩]))
      (.form (.value (.at (cover
        (⟨.name s, p⟩ :: ⟨.sign .leftBracket, q⟩ :: (ts ++ [⟨.sign .rightBracket, r⟩])))
        (.index s e))))
  | assign {inFunction next s ts e p q} :
    DerivesExpr longest next ts (.expr e) →
    DerivesStmt longest inFunction next (⟨.name s, p⟩ :: ⟨.sign .assign, q⟩ :: ts)
      (.form (.assign s e))
  | valueForm {inFunction next ts form} :
    DerivesExpr longest next ts (.valueForm form) →
    DerivesStmt longest inFunction next ts (.form (.value (.at (cover ts) form)))
  | stmt {inFunction next ts form} :
    DerivesStmt longest inFunction next ts (.form form) →
    DerivesStmt longest inFunction next ts (.stmt (.at (cover ts) form))
  | nil {inFunction next} : DerivesStmt longest inFunction next [] (.stmts [])
  | cons {inFunction next ts us s ss} :
    DerivesStmt longest inFunction (ahead us next) ts (.stmt s) →
    DerivesStmt longest inFunction next us (.stmts ss) →
    DerivesStmt longest inFunction next (ts ++ us) (.stmts (s :: ss))
  | block {inFunction next ts ss p q} :
    DerivesStmt longest inFunction (some (.sign .rightBrace)) ts (.stmts ss) →
    DerivesStmt longest inFunction next
      (⟨.sign .leftBrace, p⟩ :: (ts ++ [⟨.sign .rightBrace, q⟩])) (.block ss)

/-- The tokens make up a whole program with the given statements. -/
def Program (longest : Bool) (ts : List Token) (ss : List Stmt) : Prop :=
  DerivesStmt longest false none ts (.stmts ss)

/-! ## How phrases begin -/

/-- The token can be the first one of an expression. -/
def beginsExpr : Token.Kind → Bool
  | .number _ | .text _ | .boolean _ | .name _ => true
  | .keyword k => k = .void || k.beginsValueForm
  | .sign s => s = .leftParen || s = .leftBracket || s = .bang || s = .minus

/-- The token can be the first one of a statement. -/
def beginsStmt : Token.Kind → Bool
  | .name _ => true
  | .keyword k => k.onlyBeginsStatement || k.beginsValueForm
  | _ => false

theorem beginsValueForm_of_operandForm? {k : Keyword} {form : Expr → ExprForm}
    (h : operandForm? k = some form) : k.beginsValueForm = true := by
  cases k <;> simp_all [operandForm?, Keyword.beginsValueForm]

theorem beginsValueForm_of_arrayForm? {k : Keyword} {form : String → Expr → ExprForm}
    (h : arrayForm? k = some form) : k.beginsValueForm = true := by
  cases k <;> simp_all [arrayForm?, Keyword.beginsValueForm]

theorem beginsExpr_of_unaryOperator? {k : Token.Kind} {op : UnaryOperator}
    (h : k.unaryOperator? = some op) : beginsExpr k = true := by
  cases k with
  | sign s => cases s <;> simp_all [Token.Kind.unaryOperator?, Sign.unaryOperator?, beginsExpr]
  | _ => simp [Token.Kind.unaryOperator?] at h

variable {longest inFunction : Bool} {next : Option Token.Kind} {ts : List Token}

theorem DerivesExpr.begins_valueForm {form : ExprForm}
    (h : DerivesExpr longest next ts (.valueForm form)) :
    ∃ k p us, ts = ⟨.keyword k, p⟩ :: us ∧ k.beginsValueForm = true := by
  cases h with
  | operandForm hk => exact ⟨_, _, _, rfl, beginsValueForm_of_operandForm? hk⟩
  | arrayForm hk => exact ⟨_, _, _, rfl, beginsValueForm_of_arrayForm? hk⟩
  | size => exact ⟨_, _, _, rfl, rfl⟩

/-- Every phrase of an expression but an empty list begins with a token that can begin
an expression. -/
theorem DerivesExpr.begins {phrase : Phrase} (h : DerivesExpr longest next ts phrase)
    (some : phrase ≠ .list []) : ∃ t us, ts = t :: us ∧ beginsExpr t.kind = true := by
  induction h with
  | operand _ ih => exact ih (by simp)
  | operation _ _ _ ih _ =>
    obtain ⟨t, us, rfl, ht⟩ := ih (by simp)
    exact ⟨t, _, rfl, ht⟩
  | operator hop _ _ => exact ⟨_, _, rfl, beginsExpr_of_unaryOperator? hop⟩
  | primary _ ih => exact ih (by simp)
  | valueForm h _ =>
    obtain ⟨k, p, us, rfl, hk⟩ := h.begins_valueForm
    exact ⟨_, _, rfl, by simp [beginsExpr, hk]⟩
  | operandForm hk _ _ _ =>
    exact ⟨_, _, rfl, by simp [beginsExpr, beginsValueForm_of_operandForm? hk]⟩
  | arrayForm hk _ _ _ =>
    exact ⟨_, _, rfl, by simp [beginsExpr, beginsValueForm_of_arrayForm? hk]⟩
  | lastItem _ ih => exact ih (by simp)
  | moreItems _ _ ih _ =>
    obtain ⟨t, us, rfl, ht⟩ := ih (by simp)
    exact ⟨t, _, rfl, ht⟩
  | noItems => exact absurd rfl some
  | someItems _ ih => exact ih (by simp)
  | _ => exact ⟨_, _, rfl, rfl⟩

theorem DerivesStmt.begins_form {form : StmtForm}
    (h : DerivesStmt longest inFunction next ts (.form form)) :
    ∃ t us, ts = t :: us ∧ beginsStmt t.kind = true := by
  cases h with
  | @declare _ _ immutable => exact ⟨_, _, rfl, by cases immutable <;> rfl⟩
  | @print _ _ channel => exact ⟨_, _, rfl, by cases channel <;> rfl⟩
  | valueForm h =>
    obtain ⟨k, p, us, rfl, hk⟩ := h.begins_valueForm
    exact ⟨_, _, rfl, by simp [beginsStmt, hk]⟩
  | _ => exact ⟨_, _, rfl, rfl⟩

theorem DerivesStmt.begins {s : Stmt} (h : DerivesStmt longest inFunction next ts (.stmt s)) :
    ∃ t us, ts = t :: us ∧ beginsStmt t.kind = true := by
  cases h with
  | stmt h => exact h.begins_form

/-! ## Where phrases end -/

/-- A name that this follows is neither called nor indexed. -/
def EndsName (next : Option Token.Kind) : Prop :=
  next ≠ some (.sign .leftParen) ∧ next ≠ some (.sign .leftBracket)

theorem endsName_of_binaryOperator? {k : Token.Kind} {op : BinaryOperator}
    (h : k.binaryOperator? = some op) : EndsName (some k) := by
  constructor <;> rintro ⟨⟩ <;> simp [Token.Kind.binaryOperator?, Sign.binaryOperator?] at h

/-- Statements are followed by the end of the text, by a closing brace or by another
statement. -/
def EndsStmt (next : Option Token.Kind) : Prop :=
  ∀ k, next = some k → k = .sign .rightBrace ∨ beginsStmt k = true

theorem endsStmt_none : EndsStmt none := by
  rintro k ⟨⟩

theorem endsStmt_rightBrace : EndsStmt (some (.sign .rightBrace)) := by
  rintro k ⟨⟩
  exact Or.inl rfl

theorem EndsStmt.endsExpr (h : EndsStmt next) : EndsExpr next := by
  cases next with
  | none => rfl
  | some k =>
    rcases h k rfl with rfl | hk
    · rfl
    · cases k <;> simp_all [EndsExpr, Token.Kind.binaryOperator?, beginsStmt]

theorem EndsStmt.endsName (h : EndsStmt next) : EndsName next := by
  constructor <;> rintro rfl <;> rcases h _ rfl with h | h <;> cases h

theorem EndsStmt.ne_otherwise (h : EndsStmt next) : next ≠ some (.keyword .otherwise) := by
  rintro rfl
  rcases h _ rfl with h | h <;> cases h

/-- Where a `return` has no value, a statement is over. -/
theorem endsStmt_of_omitsValue (h : omitsValue next = true) : EndsStmt next := by
  rintro k rfl
  cases k with
  | keyword k =>
    have only : k.onlyBeginsStatement = true := h
    exact Or.inr (by simp [beginsStmt, only])
  | sign s => cases s <;> simp_all [omitsValue]
  | _ => simp [omitsValue] at h

theorem omitsValue_of_beginsExpr {k : Token.Kind} (h : beginsExpr k = true) :
    omitsValue (some k) = false := by
  cases k with
  | keyword k => cases k <;> first | rfl | cases h
  | sign s => cases s <;> first | rfl | cases h
  | _ => rfl

/-- What follows a statement in a row of them ends it. -/
theorem DerivesStmt.endsStmt_ahead {ss : List Stmt}
    (h : DerivesStmt longest inFunction next ts (.stmts ss)) (ends : EndsStmt next) :
    EndsStmt (ahead ts next) := by
  cases h with
  | nil => exact ends
  | cons hs _ =>
    obtain ⟨t, us, rfl, ht⟩ := hs.begins
    rintro k ⟨⟩
    exact Or.inr ht

end Grammar

end BraceScript

-- The rules of the language leave it open how far the operand of a value form
-- reaches. What they derive can also be derived with operands that reach as
-- far as they can: an operator that stands behind a value form moves into its
-- operand, and the operators of one level are put in order again.
import BraceScript.Proofs.Grammar.Completeness

namespace BraceScript

namespace Grammar

variable {inFunction : Bool} {next : Option Token.Kind} {ts us : List Token}

/-! ## Long operands follow the rules -/

theorem DerivesExpr.relax {phrase : Phrase} (h : DerivesExpr true next ts phrase) :
    DerivesExpr false next ts phrase := by
  induction h with
  | operand _ ih => exact .operand ih
  | operation _ hop _ ihl ihr => exact .operation ihl hop ihr
  | operator hop _ ih => exact .operator hop ih
  | primary _ ih => exact .primary ih
  | call _ ih => exact .call ih
  | index _ ih => exact .index ih
  | array _ ih => exact .array ih
  | parens _ ih => exact .parens ih
  | valueForm _ ih => exact .valueForm ih
  | operandForm hk _ _ ih => exact .operandForm hk (by simp) ih
  | arrayForm hk _ _ ih => exact .arrayForm hk (by simp) ih
  | lastItem _ ih => exact .lastItem ih
  | moreItems _ _ ihe ihes => exact .moreItems ihe ihes
  | someItems _ ih => exact .someItems ih
  | _ => constructor

theorem DerivesStmt.relax {sentence : Sentence} (h : DerivesStmt true inFunction next ts sentence) :
    DerivesStmt false inFunction next ts sentence := by
  induction h with
  | declare he => exact .declare he.relax
  | print he => exact .print he.relax
  | branch hc _ ih => exact .branch hc.relax ih
  | branchElse hc _ _ ih ih' => exact .branchElse hc.relax ih ih'
  | loop ha hb _ ih => exact .loop ha.relax hb.relax ih
  | «while» hc _ ih => exact .while hc.relax ih
  | function has _ ih => exact .function has ih
  | returnNothing omitted => exact .returnNothing omitted
  | returnValue given he => exact .returnValue given he.relax
  | deleteVariable => exact .deleteVariable
  | deleteFunction => exact .deleteFunction
  | connect => exact .connect
  | async _ ih => exact .async ih
  | call hes => exact .call hes.relax
  | index he => exact .index he.relax
  | assign he => exact .assign he.relax
  | valueForm h => exact .valueForm h.relax
  | stmt _ ih => exact .stmt ih
  | nil => exact .nil
  | cons _ _ ihs ihss => exact .cons ihs ihss
  | block _ ih => exact .block ih

/-! ## Putting operators in order -/

/-- An operation whose right side is an expression too goes from left to right. -/
theorem exists_operation {k : Token.Kind} {p : Span} {op : BinaryOperator} {l r : Expr}
    (hl : DerivesExpr true (some k) ts (.expr l)) (hop : k.binaryOperator? = some op)
    (hr : DerivesExpr true next us (.expr r)) :
    ∃ e, DerivesExpr true next (ts ++ ⟨k, p⟩ :: us) (.expr e) := by
  generalize hphrase : Phrase.expr r = phrase at hr
  induction hr generalizing r with
  | operand hr _ => exact ⟨_, .operation hl hop hr⟩
  | operation _ hop' hr' ih _ =>
    obtain ⟨e, he⟩ := ih rfl
    exact ⟨_, by simpa using DerivesExpr.operation he hop' hr'⟩
  | _ => cases hphrase

/-- A unary operator in front of an expression goes with the first operand. -/
theorem exists_operator {k : Token.Kind} {p : Span} {op : UnaryOperator} {e : Expr}
    (hop : k.unaryOperator? = some op) (he : DerivesExpr true next ts (.expr e)) :
    ∃ e', DerivesExpr true next (⟨k, p⟩ :: ts) (.expr e') := by
  generalize hphrase : Phrase.expr e = phrase at he
  induction he generalizing e with
  | operand he _ => exact ⟨_, .operand (.operator hop he)⟩
  | operation _ hop' hr ih _ =>
    obtain ⟨l, hl⟩ := ih rfl
    exact ⟨_, .operation hl hop' hr⟩
  | _ => cases hphrase

/-- What can stand behind an operand within an expression: nothing more of the
expression, or an operator with the rest of it. -/
inductive Tail : Option Token.Kind → List Token → Prop where
  | done {next : Option Token.Kind} : EndsExpr next → Tail next []
  | more {next : Option Token.Kind} {us : List Token} {k p op e} :
    EndsExpr next → k.binaryOperator? = some op → DerivesExpr true next us (.expr e) →
    Tail next (⟨k, p⟩ :: us)

theorem Tail.ends (h : Tail next us) : EndsExpr next := by
  cases h <;> assumption

/-- A primary that stays one whatever comes next goes on with the tail. -/
theorem Tail.behind {form : ExprForm}
    (h : ∀ next, DerivesExpr true next ts (.primary form)) (tail : Tail next us) :
    ∃ e, DerivesExpr true next (ts ++ us) (.expr e) := by
  cases tail with
  | done _ => exact ⟨_, by simpa using (DerivesExpr.operand (.primary (h next)))⟩
  | more _ hop he => exact exists_operation (.operand (.primary (h _))) hop he

/-- With a tail, or without one, the phrase can be derived anew. -/
def Regrows (ts : List Token) : Phrase → Prop
  | .expr _ | .unary _ | .primary _ =>
    ∀ next us, Tail next us → ∃ e, DerivesExpr true next (ts ++ us) (.expr e)
  | .valueForm _ => (∀ next, EndsExpr next → ∃ form, DerivesExpr true next ts (.valueForm form)) ∧
    ∀ next us, Tail next us → ∃ e, DerivesExpr true next (ts ++ us) (.expr e)
  | .items _ => ∀ next, EndsExpr next → ∃ es, DerivesExpr true next ts (.items es)
  | .list _ => ∀ next, EndsExpr next → ∃ es, DerivesExpr true next ts (.list es)

/-- Without a tail. -/
theorem Regrows.alone {e : Expr} (h : Regrows ts (.expr e)) (next : Option Token.Kind)
    (ends : EndsExpr next) :
    ∃ e', DerivesExpr true next ts (.expr e') := by
  simpa using h next [] (.done ends)

theorem regrows_operandForm {e : Expr} {k : Keyword} {p : Span} {form : Expr → ExprForm}
    (hk : operandForm? k = some form) (h : Regrows ts (.expr e)) :
    Regrows (⟨.keyword k, p⟩ :: ts) (.valueForm (form e)) := by
  refine ⟨fun next ends => ?_, fun next us tail => ?_⟩
  · obtain ⟨e', he⟩ := h.alone _ ends
    exact ⟨_, .operandForm hk (fun _ => ends) he⟩
  · obtain ⟨e', he⟩ := h next us tail
    exact ⟨_, .operand (.primary (.valueForm (.operandForm hk (fun _ => tail.ends) he)))⟩

theorem regrows_arrayForm {e : Expr} {k : Keyword} {s : String} {p q : Span}
    {form : String → Expr → ExprForm} (hk : arrayForm? k = some form)
    (h : Regrows ts (.expr e)) :
    Regrows (⟨.keyword k, p⟩ :: ⟨.name s, q⟩ :: ts) (.valueForm (form s e)) := by
  refine ⟨fun next ends => ?_, fun next us tail => ?_⟩
  · obtain ⟨e', he⟩ := h.alone _ ends
    exact ⟨_, .arrayForm hk (fun _ => ends) he⟩
  · obtain ⟨e', he⟩ := h next us tail
    exact ⟨_, .operand (.primary (.valueForm (.arrayForm hk (fun _ => tail.ends) he)))⟩

/-- Each rule of expressions can be followed with operands that are as long as they can be. -/
theorem DerivesExpr.regrows {phrase : Phrase} (h : DerivesExpr false next ts phrase) :
    Regrows ts phrase := by
  induction h with
  | operand _ ih => exact ih
  | @operation _ ls rs l r k p op _ hop _ ihl ihr =>
    intro next us tail
    obtain ⟨e, he⟩ := ihr next us tail
    simpa using ihl next (⟨k, p⟩ :: (rs ++ us)) (.more tail.ends hop he)
  | operator hop _ ih =>
    intro next us tail
    obtain ⟨e, he⟩ := ih next us tail
    exact exists_operator hop he
  | primary _ ih => exact ih
  | number => exact fun _ _ => Tail.behind fun _ => .number
  | text => exact fun _ _ => Tail.behind fun _ => .text
  | boolean => exact fun _ _ => Tail.behind fun _ => .boolean
  | void => exact fun _ _ => Tail.behind fun _ => .void
  | name => exact fun _ _ => Tail.behind fun _ => .name
  | call _ ih =>
    obtain ⟨es, hes⟩ := ih (some (.sign .rightParen)) rfl
    intro _ _
    exact Tail.behind fun _ => .call hes
  | index _ ih =>
    obtain ⟨e, he⟩ := ih.alone (some (.sign .rightBracket)) rfl
    intro _ _
    exact Tail.behind fun _ => .index he
  | array _ ih =>
    obtain ⟨es, hes⟩ := ih (some (.sign .rightBracket)) rfl
    intro _ _
    exact Tail.behind fun _ => .array hes
  | parens _ ih =>
    obtain ⟨e, he⟩ := ih.alone (some (.sign .rightParen)) rfl
    intro _ _
    exact Tail.behind fun _ => .parens he
  | valueForm _ ih => exact ih.2
  | operandForm hk _ _ ih => exact regrows_operandForm hk ih
  | arrayForm hk _ _ ih => exact regrows_arrayForm hk ih
  | size =>
    exact ⟨fun _ _ => ⟨_, .size⟩, fun _ _ => Tail.behind fun _ => .valueForm .size⟩
  | lastItem _ ih =>
    intro next ends
    obtain ⟨e, he⟩ := ih.alone _ ends
    exact ⟨_, .lastItem he⟩
  | moreItems _ _ ihe ihes =>
    intro next ends
    obtain ⟨e, he⟩ := ihe.alone (some (.sign .comma)) rfl
    obtain ⟨es, hes⟩ := ihes next ends
    exact ⟨_, .moreItems he hes⟩
  | noItems => exact fun _ _ => ⟨_, .noItems⟩
  | someItems _ ih =>
    intro next ends
    obtain ⟨es, hes⟩ := ih next ends
    exact ⟨_, .someItems hes⟩

/-- The same kind of phrase can be derived with long operands. -/
def StmtRegrows (inFunction : Bool) (next : Option Token.Kind) (ts : List Token) : Sentence → Prop
  | .form _ => EndsStmt next → ∃ form, DerivesStmt true inFunction next ts (.form form)
  | .stmt _ => EndsStmt next → ∃ s, DerivesStmt true inFunction next ts (.stmt s)
  | .stmts _ => EndsStmt next → ∃ ss, DerivesStmt true inFunction next ts (.stmts ss)
  | .block _ => ∃ ss, DerivesStmt true inFunction next ts (.block ss)

/-- Each rule of statements can be followed with operands that are as long as they can be. -/
theorem DerivesStmt.regrows {sentence : Sentence}
    (h : DerivesStmt false inFunction next ts sentence) :
    StmtRegrows inFunction next ts sentence := by
  induction h with
  | declare he =>
    intro ends
    obtain ⟨e, he⟩ := he.regrows.alone _ ends.endsExpr
    exact ⟨_, .declare he⟩
  | print he =>
    intro ends
    obtain ⟨e, he⟩ := he.regrows.alone _ ends.endsExpr
    exact ⟨_, .print he⟩
  | branch hc _ ih =>
    intro _
    obtain ⟨c, hc⟩ := hc.regrows.alone (some (.sign .rightParen)) rfl
    obtain ⟨ss, hss⟩ := ih
    exact ⟨_, .branch hc hss⟩
  | branchElse hc _ _ ih ih' =>
    intro _
    obtain ⟨c, hc⟩ := hc.regrows.alone (some (.sign .rightParen)) rfl
    obtain ⟨ss, hss⟩ := ih
    obtain ⟨ss', hss'⟩ := ih'
    exact ⟨_, .branchElse hc hss hss'⟩
  | loop ha hb _ ih =>
    intro _
    obtain ⟨a, ha⟩ := ha.regrows.alone (some (.sign .comma)) rfl
    obtain ⟨b, hb⟩ := hb.regrows.alone (some (.sign .rightParen)) rfl
    obtain ⟨ss, hss⟩ := ih
    exact ⟨_, .loop ha hb hss⟩
  | «while» hc _ ih =>
    intro _
    obtain ⟨c, hc⟩ := hc.regrows.alone (some (.sign .rightParen)) rfl
    obtain ⟨ss, hss⟩ := ih
    exact ⟨_, .while hc hss⟩
  | function has _ ih =>
    intro _
    obtain ⟨ss, hss⟩ := ih
    exact ⟨_, .function has hss⟩
  | returnNothing omitted => exact fun _ => ⟨_, .returnNothing omitted⟩
  | returnValue given he =>
    intro ends
    obtain ⟨e, he⟩ := he.regrows.alone _ ends.endsExpr
    exact ⟨_, .returnValue given he⟩
  | deleteVariable => exact fun _ => ⟨_, .deleteVariable⟩
  | deleteFunction => exact fun _ => ⟨_, .deleteFunction⟩
  | connect => exact fun _ => ⟨_, .connect⟩
  | async _ ih =>
    intro _
    obtain ⟨ss, hss⟩ := ih
    exact ⟨_, .async hss⟩
  | call hes =>
    intro _
    obtain ⟨es, hes⟩ := hes.regrows (some (.sign .rightParen)) rfl
    exact ⟨_, .call hes⟩
  | index he =>
    intro _
    obtain ⟨e, he⟩ := he.regrows.alone (some (.sign .rightBracket)) rfl
    exact ⟨_, .index he⟩
  | assign he =>
    intro ends
    obtain ⟨e, he⟩ := he.regrows.alone _ ends.endsExpr
    exact ⟨_, .assign he⟩
  | valueForm h =>
    intro ends
    obtain ⟨form, hform⟩ := h.regrows.1 _ ends.endsExpr
    exact ⟨_, .valueForm hform⟩
  | stmt _ ih =>
    intro ends
    obtain ⟨form, hform⟩ := ih ends
    exact ⟨_, .stmt hform⟩
  | nil => exact fun _ => ⟨_, .nil⟩
  | cons _ hss ihs ihss =>
    intro ends
    obtain ⟨s, hs⟩ := ihs (hss.endsStmt_ahead ends)
    obtain ⟨ss, hss⟩ := ihss ends
    exact ⟨_, .cons hs hss⟩
  | block _ ih =>
    obtain ⟨ss, hss⟩ := ih endsStmt_rightBrace
    exact ⟨_, .block hss⟩

/-- Tokens that make up a program by the rules do so with long operands. -/
theorem exists_program {ss : List Stmt} (h : Program false ts ss) :
    ∃ ss', Program true ts ss' :=
  DerivesStmt.regrows h endsStmt_none

end Grammar

end BraceScript

-- A printer of programs: the tokens of the statements in a row, with one blank
-- between any two of them. Parentheses are written only where the tree could
-- not be read back without them.
import BraceScript.Proofs.Grammar

namespace BraceScript

open Grammar

/-! ## Operators and parentheses -/

/-- The sign that spells the operator. -/
def BinaryOperator.sign : BinaryOperator → Sign
  | .add => .plus
  | .sub => .minus
  | .mul => .star
  | .div => .slash
  | .mod => .percent
  | .pow => .starStar
  | .bitXor => .caret
  | .eq => .eqEq
  | .strictEq => .eqEqEq
  | .notEq => .notEq
  | .strictNotEq => .notEqEq
  | .lt => .lt
  | .ltEq => .ltEq
  | .gt => .gt
  | .gtEq => .gtEq
  | .and => .ampAmp
  | .or => .pipePipe

theorem BinaryOperator.binaryOperator?_sign (op : BinaryOperator) :
    (Token.Kind.sign op.sign).binaryOperator? = some op := by
  cases op <;> rfl

def UnaryOperator.sign : UnaryOperator → Sign
  | .not => .bang
  | .neg => .minus

theorem UnaryOperator.unaryOperator?_sign (op : UnaryOperator) :
    (Token.Kind.sign op.sign).unaryOperator? = some op := by
  cases op <;> rfl

/-- The expression is an operator with two operands. -/
def Expr.isBinary : Expr → Bool
  | .at _ (.binary ..) => true
  | _ => false

mutual

/-- The text of the expression ends in a keyword form with an operand and not in parentheses
around one, so an operator behind it would belong to that operand. -/
@[simp] def Expr.endsOpen : Expr → Bool
  | .at _ form => form.endsOpen

@[simp] def ExprForm.endsOpen : ExprForm → Bool
  | .binary _ _ right => !right.isBinary && right.endsOpen
  | .unary _ operand => !operand.isBinary && operand.endsOpen
  | .read _ | .append .. | .remove .. | .toJson _ | .parseJson _ | .math .. | .textual .. => true
  | _ => false

end

/-- The tokens, in parentheses if that is asked for. -/
def parensIf (needed : Bool) (ks : List Token.Kind) : List Token.Kind :=
  if needed then .sign .leftParen :: (ks ++ [.sign .rightParen]) else ks

/-! ## The tokens of a tree -/

mutual

/-- The tokens of an expression. A right operand is in parentheses if it has two operands
itself, and so is the operand of a unary operator; a left operand is if it ends open. -/
@[simp] def Expr.kinds : Expr → List Token.Kind
  | .at _ form => form.kinds

@[simp] def ExprForm.kinds : ExprForm → List Token.Kind
  | .number x => [.number x]
  | .text s => [.text s]
  | .boolean b => [.boolean b]
  | .void => [.keyword .void]
  | .name s => [.name s]
  | .array es => .sign .leftBracket :: (kindsOfItems es ++ [.sign .rightBracket])
  | .binary op left right =>
    parensIf left.endsOpen left.kinds ++ .sign op.sign :: parensIf right.isBinary right.kinds
  | .unary op operand => .sign op.sign :: parensIf operand.isBinary operand.kinds
  | .call s es => .name s :: .sign .leftParen :: (kindsOfItems es ++ [.sign .rightParen])
  | .index s e => .name s :: .sign .leftBracket :: (e.kinds ++ [.sign .rightBracket])
  | .read e => .keyword .read :: e.kinds
  | .append s e => .keyword .arradd :: .name s :: e.kinds
  | .remove s e => .keyword .arrdel :: .name s :: e.kinds
  | .size s => [.keyword .arrsize, .name s]
  | .toJson e => .keyword .tojson :: e.kinds
  | .parseJson e => .keyword .parjson :: e.kinds
  | .math function e => .keyword (.math function) :: e.kinds
  | .textual function e => .keyword (.text function) :: e.kinds

/-- Expressions with commas between them. -/
@[simp] def kindsOfItems : List Expr → List Token.Kind
  | [] => []
  | [e] => e.kinds
  | e :: next :: es => e.kinds ++ .sign .comma :: kindsOfItems (next :: es)

end

/-- Names with commas between them. -/
@[simp] def kindsOfNames : List String → List Token.Kind
  | [] => []
  | [s] => [.name s]
  | s :: next :: ss => .name s :: .sign .comma :: kindsOfNames (next :: ss)

/-- The tokens in braces. -/
def inBraces (ks : List Token.Kind) : List Token.Kind :=
  .sign .leftBrace :: (ks ++ [.sign .rightBrace])

mutual

/-- The tokens of a statement. -/
@[simp] def Stmt.kinds : Stmt → List Token.Kind
  | .at _ form => form.kinds

@[simp] def StmtForm.kinds : StmtForm → List Token.Kind
  | .declare s e immutable =>
    .keyword (declarer immutable) :: .name s :: .sign .assign :: e.kinds
  | .assign s e => .name s :: .sign .assign :: e.kinds
  | .print channel e => .keyword (printer channel) :: e.kinds
  | .branch e ss other =>
    .keyword .ifThen :: .sign .leftParen ::
      (e.kinds ++ .sign .rightParen :: (inBraces (kindsOfStmts ss) ++ kindsOfOther other))
  | .loop s a b ss =>
    .keyword .loop :: .sign .leftParen :: .name s :: .sign .comma ::
      (a.kinds ++ .sign .comma :: (b.kinds ++ .sign .rightParen :: inBraces (kindsOfStmts ss)))
  | .while e ss =>
    .keyword .while :: .sign .leftParen ::
      (e.kinds ++ .sign .rightParen :: inBraces (kindsOfStmts ss))
  | .function s params ss =>
    .keyword .func :: .name s :: .sign .leftParen ::
      (kindsOfNames params ++ .sign .rightParen :: inBraces (kindsOfStmts ss))
  | .return none => [.keyword .return]
  | .return (some e) => .keyword .return :: e.kinds
  | .deleteVariable s => [.keyword .delvar, .name s]
  | .deleteFunction s => [.keyword .delfunc, .name s]
  | .connect s => [.keyword .connect, .text s]
  | .async ss => .keyword .async :: inBraces (kindsOfStmts ss)
  | .value e => e.kinds

@[simp] def kindsOfStmts : List Stmt → List Token.Kind
  | [] => []
  | s :: ss => s.kinds ++ kindsOfStmts ss

@[simp] def kindsOfOther : Option (List Stmt) → List Token.Kind
  | none => []
  | some ss => .keyword .otherwise :: inBraces (kindsOfStmts ss)

end

/-! ## The text of a tree -/

/-- A quote that does not occur in the text, if there is one. -/
def quoteFor (s : String) : Char :=
  if s.toList.contains '"' then if s.toList.contains '\x27' then '\x60' else '\x27' else '"'

/-- How a token is written. -/
def Token.Kind.written : Token.Kind → List Char
  | .number x => (numberLayout.write x).toList
  | .text s => quoteFor s :: (s.toList ++ [quoteFor s])
  | .boolean b => (booleanText b).toList
  | .name s => s.toList
  | .keyword k => k.spelling.toList
  | .sign s => s.chars

/-- A program as a text. -/
def printed (ss : List Stmt) : String :=
  String.ofList ([' '].intercalate ((kindsOfStmts ss).map Token.Kind.written))

end BraceScript

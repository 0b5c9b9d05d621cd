-- The syntax tree: statements and expressions, each with the stretch of
-- source text that it was read from.
import BraceScript.Token

namespace BraceScript

/-- Where printed lines go: what a program has to show, the errors it
reports, and its warnings. -/
inductive Channel where
  | info | error | warning
deriving DecidableEq, Repr

mutual

/-- An expression and where it stands. -/
inductive Expr where
  | at (span : Span) (form : ExprForm)

/-- The forms of expressions. Arrays that are indexed, extended or cut are
always named. -/
inductive ExprForm where
  | number (value : Float)
  | text (value : String)
  | boolean (value : Bool)
  | void
  | name (name : String)
  | array (items : List Expr)
  | binary (op : BinaryOperator) (left right : Expr)
  | unary (op : UnaryOperator) (operand : Expr)
  | call (function : String) (arguments : List Expr)
  | index (array : String) (index : Expr)
  | read (path : Expr)
  | append (array : String) (value : Expr)
  | remove (array : String) (key : Expr)
  | size (array : String)
  | toJson (value : Expr)
  | parseJson (text : Expr)
  | math (function : MathFunction) (argument : Expr)
  | textual (function : TextFunction) (argument : Expr)

end

def Expr.span : Expr → Span
  | .at span _ => span

def Expr.form : Expr → ExprForm
  | .at _ form => form

mutual

/-- A statement and where it stands. -/
inductive Stmt where
  | at (span : Span) (form : StmtForm)

/-- The forms of statements. A counting loop includes both of its ends. -/
inductive StmtForm where
  | declare (name : String) (value : Expr) (immutable : Bool)
  | assign (name : String) (value : Expr)
  | print (channel : Channel) (value : Expr)
  | branch (condition : Expr) (thenBlock : List Stmt) (elseBlock : Option (List Stmt))
  | loop (counter : String) (first last : Expr) (body : List Stmt)
  | while (condition : Expr) (body : List Stmt)
  | function (name : String) (params : List String) (body : List Stmt)
  | return (value : Option Expr)
  | deleteVariable (name : String)
  | deleteFunction (name : String)
  | connect (path : String)
  | async (body : List Stmt)
  | value (value : Expr)

end

def Stmt.span : Stmt → Span
  | .at span _ => span

def Stmt.form : Stmt → StmtForm
  | .at _ form => form

end BraceScript

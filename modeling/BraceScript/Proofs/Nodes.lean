-- The nodes of a program: its statements and expressions, and which of them
-- stand right below which. A text that is no program is a node by itself.
import BraceScript.Tree.Parse

namespace BraceScript

/-- A statement, an expression, or a whole text that is no program. -/
inductive Node where
  | expr (e : Expr)
  | stmt (s : Stmt)
  | text (source : String)

/-- Where a node stands. A text that is no program stands for what is wrong with it. -/
def Node.span : Node → Span
  | .expr e => e.span
  | .stmt s => s.span
  | .text source =>
    match parse source with
    | .ok _ => Span.point 0
    | .error e => e.span

/-- The nodes right below an expression, in the order in which they stand there. -/
def ExprForm.parts : ExprForm → List Node
  | .array es | .call _ es => es.map .expr
  | .binary _ e e' => [.expr e, .expr e']
  | .unary _ e | .index _ e | .read e | .append _ e | .remove _ e | .toJson e | .parseJson e
  | .math _ e | .textual _ e => [.expr e]
  | _ => []

/-- The nodes right below a statement, in the order in which they stand there. -/
def StmtForm.parts : StmtForm → List Node
  | .declare _ e _ | .assign _ e | .print _ e | .value e => [.expr e]
  | .branch e ss ss' => .expr e :: (ss ++ ss'.getD []).map .stmt
  | .loop _ e e' ss => .expr e :: .expr e' :: ss.map .stmt
  | .while e ss => .expr e :: ss.map .stmt
  | .function _ _ ss | .async ss => ss.map .stmt
  | .return e => e.toList.map .expr
  | _ => []

/-- The nodes right below a node. -/
def Node.parts : Node → List Node
  | .expr e => e.form.parts
  | .stmt s => s.form.parts
  | .text _ => []

/-- A node is within another one: it is that node, or stands somewhere below it. -/
inductive Node.Within : Node → Node → Prop where
  | self {p} : Within p p
  | under {p q r} : Within p q → q ∈ r.parts → Within p r

theorem Node.Within.trans {p q r : Node} (h : p.Within q) (h' : q.Within r) : p.Within r := by
  induction h' with
  | self => exact h
  | under _ hpart ih => exact .under ih hpart

theorem Node.Within.part {p q : Node} (h : p ∈ q.parts) : p.Within q := .under .self h

end BraceScript

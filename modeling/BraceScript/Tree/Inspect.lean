-- The outlines of tokens and trees, as the listings of the command line
-- show them: every part by its title, with its span.
import BraceScript.Tree
import BraceScript.Tree.Outline

namespace BraceScript

/-- Numbers in listings: always with a point or an exponent, which is used
from 10^16 on and below 10^-4. -/
def inspectedLayout : Number.Layout where
  tie := .up
  positional := fun point => -3 ≤ point && point ≤ 16
  pointZero := true
  plusSign := false
  zero := "0.0"
  negativeZero := "-0.0"
  infinity := "inf"
  negativeInfinity := "-inf"
  nan := "NaN"

def Outline.ofNumber (x : Float) : Outline := .atom (inspectedLayout.write x)

/-! ## Titles -/

def MathFunction.title : MathFunction → String
  | .floor => "Floor"
  | .round => "Round"
  | .sqrt => "Sqrt"
  | .sin => "Sin"
  | .cos => "Cos"
  | .tan => "Tan"

def TextFunction.title : TextFunction → String
  | .tokenize => "Tokenize"
  | .uppercase => "Uppercase"
  | .lowercase => "Lowercase"
  | .reverse => "Reverse"

def BinaryOperator.title : BinaryOperator → String
  | .add => "Add"
  | .sub => "Sub"
  | .mul => "Mul"
  | .div => "Div"
  | .mod => "Mod"
  | .pow => "Pow"
  | .bitXor => "BitXor"
  | .eq => "Eq"
  | .strictEq => "StrictEq"
  | .notEq => "NotEq"
  | .strictNotEq => "StrictNotEq"
  | .lt => "Lt"
  | .ltEq => "LtEq"
  | .gt => "Gt"
  | .gtEq => "GtEq"
  | .and => "And"
  | .or => "Or"

def UnaryOperator.title : UnaryOperator → String
  | .not => "Not"
  | .neg => "Neg"

def Keyword.outline : Keyword → Outline
  | .letVar => .atom "Let"
  | .make => .atom "Make"
  | .show => .atom "Show"
  | .error => .atom "Error"
  | .alert => .atom "Alert"
  | .ifThen => .atom "If"
  | .otherwise => .atom "Else"
  | .loop => .atom "Loop"
  | .while => .atom "While"
  | .func => .atom "Func"
  | .return => .atom "Return"
  | .async => .atom "Async"
  | .delvar => .atom "DelVar"
  | .delfunc => .atom "DelFunc"
  | .connect => .atom "Connect"
  | .read => .atom "Read"
  | .arradd => .atom "ArrAdd"
  | .arrdel => .atom "ArrDel"
  | .arrsize => .atom "ArrSize"
  | .tojson => .atom "ToJson"
  | .parjson => .atom "ParJson"
  | .math function => .tuple "Math" [.atom function.title]
  | .text function => .tuple "Text" [.atom function.title]
  | .void => .atom "Void"

def Sign.title : Sign → String
  | .leftParen => "LParen"
  | .rightParen => "RParen"
  | .leftBrace => "LBrace"
  | .rightBrace => "RBrace"
  | .leftBracket => "LBracket"
  | .rightBracket => "RBracket"
  | .comma => "Comma"
  | .assign => "Assign"
  | .eqEq => "EqEq"
  | .eqEqEq => "EqEqEq"
  | .notEq => "NotEq"
  | .notEqEq => "NotEqEq"
  | .lt => "Lt"
  | .ltEq => "LtEq"
  | .gt => "Gt"
  | .gtEq => "GtEq"
  | .plus => "Plus"
  | .minus => "Minus"
  | .star => "Star"
  | .starStar => "StarStar"
  | .slash => "Slash"
  | .percent => "Percent"
  | .caret => "Caret"
  | .ampAmp => "AmpAmp"
  | .pipePipe => "PipePipe"
  | .bang => "Bang"

/-! ## Tokens -/

def Token.Kind.outline : Token.Kind → Outline
  | .number x => .tuple "Number" [.ofNumber x]
  | .text s => .tuple "Str" [.ofText s]
  | .boolean b => .tuple "Bool" [.ofBool b]
  | .name s => .tuple "Ident" [.ofText s]
  | .keyword k => k.outline
  | .sign s => .atom s.title

/-! ## Expressions -/

mutual

def Expr.outline : Expr → Outline
  | .at span form => .record "Expr" ["kind", "span"] [ExprForm.outline form, .atom span.write]

def ExprForm.outline : ExprForm → Outline
  | .number x => .tuple "Number" [.ofNumber x]
  | .text s => .tuple "Str" [.ofText s]
  | .boolean b => .tuple "Bool" [.ofBool b]
  | .void => .atom "Void"
  | .name s => .tuple "Ident" [.ofText s]
  | .array items => .tuple "Array" [.list (exprOutlines items)]
  | .binary op left right =>
    .record "Binary" ["op", "left", "right"] [.atom op.title, left.outline, right.outline]
  | .unary op operand => .record "Unary" ["op", "operand"] [.atom op.title, operand.outline]
  | .call function arguments =>
    .record "Call" ["name", "args"] [.ofText function, .list (exprOutlines arguments)]
  | .index array index => .record "Index" ["array", "index"] [.ofText array, index.outline]
  | .read path => .tuple "Read" [path.outline]
  | .append array value => .record "ArrAdd" ["array", "value"] [.ofText array, value.outline]
  | .remove array key => .record "ArrDel" ["array", "value"] [.ofText array, key.outline]
  | .size array => .tuple "ArrSize" [.ofText array]
  | .toJson value => .tuple "ToJson" [value.outline]
  | .parseJson text => .tuple "ParJson" [text.outline]
  | .math function argument =>
    .record "Math" ["func", "arg"] [.atom function.title, argument.outline]
  | .textual function argument =>
    .record "Text" ["func", "arg"] [.atom function.title, argument.outline]

def exprOutlines : List Expr → List Outline
  | [] => []
  | e :: es => e.outline :: exprOutlines es

end

/-! ## Statements -/

def Channel.title : Channel → String
  | .info => "Show"
  | .error => "Error"
  | .warning => "Alert"

mutual

def Stmt.outline : Stmt → Outline
  | .at span form => .record "Stmt" ["kind", "span"] [StmtForm.outline form, .atom span.write]

def StmtForm.outline : StmtForm → Outline
  | .declare name value immutable =>
    .record "VarDecl" ["name", "value", "immutable"]
      [.ofText name, value.outline, .ofBool immutable]
  | .assign name value => .record "Assign" ["name", "value"] [.ofText name, value.outline]
  | .print channel value =>
    .record "Print" ["kind", "value"] [.atom channel.title, value.outline]
  | .branch condition thenBlock none =>
    .record "If" ["condition", "then_block", "else_block"]
      [condition.outline, .list (stmtOutlines thenBlock), .ofOption none]
  | .branch condition thenBlock (some elseBlock) =>
    .record "If" ["condition", "then_block", "else_block"]
      [condition.outline, .list (stmtOutlines thenBlock),
       .ofOption (some (.list (stmtOutlines elseBlock)))]
  | .loop counter first last body =>
    .record "Repeat" ["var", "start", "end", "body"]
      [.ofText counter, first.outline, last.outline, .list (stmtOutlines body)]
  | .while condition body =>
    .record "While" ["condition", "body"] [condition.outline, .list (stmtOutlines body)]
  | .function name params body =>
    .tuple "FuncDecl"
      [.record "FuncDecl" ["name", "params", "body"]
        [.ofText name, .ofTexts params, .list (stmtOutlines body)]]
  | .return value => .tuple "Return" [.ofOption (value.map Expr.outline)]
  | .deleteVariable name => .tuple "DeleteVar" [.ofText name]
  | .deleteFunction name => .tuple "DeleteFunc" [.ofText name]
  | .connect path => .tuple "Connect" [.ofText path]
  | .async body => .tuple "Async" [.list (stmtOutlines body)]
  | .value value => .tuple "Expr" [value.outline]

def stmtOutlines : List Stmt → List Outline
  | [] => []
  | s :: ss => s.outline :: stmtOutlines ss

end

end BraceScript

-- The tokens of the language: literals, names, keywords and signs, each
-- with the words that error messages use for it.
import BraceScript.Number.Layout
import BraceScript.Span
import BraceScript.Text.Quoted

namespace BraceScript

/-! ## The operations that tokens spell -/

/-- The functions of one number that are written as a keyword. -/
inductive MathFunction where
  | floor | round | sqrt | sin | cos | tan
deriving DecidableEq, Repr

/-- The functions of one text that are written as a keyword. -/
inductive TextFunction where
  | tokenize | uppercase | lowercase | reverse
deriving DecidableEq, Repr

/-- The operators between two operands. -/
inductive BinaryOperator where
  | add | sub | mul | div | mod | pow | bitXor
  | eq | strictEq | notEq | strictNotEq
  | lt | ltEq | gt | gtEq
  | and | or
deriving DecidableEq, Repr

/-- The operators before one operand. -/
inductive UnaryOperator where
  | not | neg
deriving DecidableEq, Repr

def MathFunction.keyword : MathFunction → String
  | .floor => "floor"
  | .round => "round"
  | .sqrt => "sqrt"
  | .sin => "sin"
  | .cos => "cos"
  | .tan => "tan"

def TextFunction.keyword : TextFunction → String
  | .tokenize => "tokenize"
  | .uppercase => "uppercase"
  | .lowercase => "lowercase"
  | .reverse => "reverse"

def BinaryOperator.symbol : BinaryOperator → String
  | .add => "+"
  | .sub => "-"
  | .mul => "*"
  | .div => "/"
  | .mod => "%"
  | .pow => "**"
  | .bitXor => "^"
  | .eq => "=="
  | .strictEq => "==="
  | .notEq => "!="
  | .strictNotEq => "!=="
  | .lt => "<"
  | .ltEq => "<="
  | .gt => ">"
  | .gtEq => ">="
  | .and => "&&"
  | .or => "||"

def UnaryOperator.symbol : UnaryOperator → String
  | .not => "!"
  | .neg => "-"

/-! ## Keywords -/

/-- The words with a meaning of their own, other than the two truth values. -/
inductive Keyword where
  | letVar | make | show | error | alert
  | ifThen | otherwise | loop | while | func | return | async
  | delvar | delfunc | connect
  | read | arradd | arrdel | arrsize | tojson | parjson
  | math (function : MathFunction)
  | text (function : TextFunction)
  | void
deriving DecidableEq, Repr

def Keyword.spelling : Keyword → String
  | .letVar => "let"
  | .make => "make"
  | .show => "show"
  | .error => "error"
  | .alert => "alert"
  | .ifThen => "if"
  | .otherwise => "else"
  | .loop => "loop"
  | .while => "while"
  | .func => "func"
  | .return => "return"
  | .async => "async"
  | .delvar => "delvar"
  | .delfunc => "delfunc"
  | .connect => "connect"
  | .read => "read"
  | .arradd => "arradd"
  | .arrdel => "arrdel"
  | .arrsize => "arrsize"
  | .tojson => "tojson"
  | .parjson => "parjson"
  | .math function => function.keyword
  | .text function => function.keyword
  | .void => "void"

/-- Every keyword, once. -/
def Keyword.all : List Keyword :=
  [.letVar, .make, .show, .error, .alert, .ifThen, .otherwise, .loop, .while, .func, .return,
   .async, .delvar, .delfunc, .connect, .read, .arradd, .arrdel, .arrsize, .tojson, .parjson,
   .math .floor, .math .round, .math .sqrt, .math .sin, .math .cos, .math .tan,
   .text .tokenize, .text .uppercase, .text .lowercase, .text .reverse, .void]

theorem Keyword.mem_all (k : Keyword) : k ∈ Keyword.all := by
  cases k with
  | math f => cases f <;> decide
  | text f => cases f <;> decide
  | _ => decide

/-- The keyword that a word spells. -/
def Keyword.ofWord? (word : String) : Option Keyword :=
  Keyword.all.find? fun k => k.spelling == word

theorem Keyword.ofWord?_spelling (k : Keyword) : Keyword.ofWord? k.spelling = some k := by
  cases k with
  | math f => cases f <;> rfl
  | text f => cases f <;> rfl
  | _ => rfl

/-- The keyword begins a statement and never an expression. -/
def Keyword.onlyBeginsStatement : Keyword → Bool
  | .letVar | .make | .show | .error | .alert | .ifThen | .loop | .while | .func | .return
  | .delvar | .delfunc | .connect | .async => true
  | _ => false

/-- The keyword begins a form that has a value. -/
def Keyword.beginsValueForm : Keyword → Bool
  | .read | .arradd | .arrdel | .arrsize | .tojson | .parjson | .math _ | .text _ => true
  | _ => false

/-! ## Signs -/

/-- Punctuation and operators. -/
inductive Sign where
  | leftParen | rightParen | leftBrace | rightBrace | leftBracket | rightBracket | comma
  | assign | eqEq | eqEqEq | notEq | notEqEq | lt | ltEq | gt | gtEq
  | plus | minus | star | starStar | slash | percent | caret | ampAmp | pipePipe | bang
deriving DecidableEq, Repr

/-- Every sign, the longer ones first, so that the first one that begins a
text is the longest. -/
def Sign.all : List Sign :=
  [.eqEqEq, .notEqEq, .eqEq, .notEq, .ltEq, .gtEq, .starStar, .ampAmp, .pipePipe,
   .leftParen, .rightParen, .leftBrace, .rightBrace, .leftBracket, .rightBracket, .comma,
   .assign, .lt, .gt, .plus, .minus, .star, .slash, .percent, .caret, .bang]

theorem Sign.mem_all (s : Sign) : s ∈ Sign.all := by
  cases s <;> decide

/-- The characters of a sign. -/
def Sign.chars : Sign → List Char
  | .leftParen => ['(']
  | .rightParen => [')']
  | .leftBrace => ['{']
  | .rightBrace => ['}']
  | .leftBracket => ['[']
  | .rightBracket => [']']
  | .comma => [',']
  | .assign => ['=']
  | .eqEq => ['=', '=']
  | .eqEqEq => ['=', '=', '=']
  | .notEq => ['!', '=']
  | .notEqEq => ['!', '=', '=']
  | .lt => ['<']
  | .ltEq => ['<', '=']
  | .gt => ['>']
  | .gtEq => ['>', '=']
  | .plus => ['+']
  | .minus => ['-']
  | .star => ['*']
  | .starStar => ['*', '*']
  | .slash => ['/']
  | .percent => ['%']
  | .caret => ['^']
  | .ampAmp => ['&', '&']
  | .pipePipe => ['|', '|']
  | .bang => ['!']

def Sign.spelling (s : Sign) : String := String.ofList s.chars

/-- The operator that stands between two operands when the sign does. -/
def Sign.binaryOperator? : Sign → Option BinaryOperator
  | .plus => some .add
  | .minus => some .sub
  | .star => some .mul
  | .slash => some .div
  | .percent => some .mod
  | .starStar => some .pow
  | .caret => some .bitXor
  | .eqEq => some .eq
  | .eqEqEq => some .strictEq
  | .notEq => some .notEq
  | .notEqEq => some .strictNotEq
  | .lt => some .lt
  | .ltEq => some .ltEq
  | .gt => some .gt
  | .gtEq => some .gtEq
  | .ampAmp => some .and
  | .pipePipe => some .or
  | _ => none

/-- The operator that stands before an operand when the sign does. -/
def Sign.unaryOperator? : Sign → Option UnaryOperator
  | .bang => some .not
  | .minus => some .neg
  | _ => none

/-! ## Tokens -/

/-- What a token is, with the payload of literals and names. -/
inductive Token.Kind where
  | number (value : Float)
  | text (value : String)
  | boolean (value : Bool)
  | name (value : String)
  | keyword (keyword : Keyword)
  | sign (sign : Sign)
deriving DecidableEq

/-- A token and where it stands. -/
structure Token where
  kind : Token.Kind
  span : Span
deriving DecidableEq

namespace Token.Kind

/-- Something said in a message as source text. -/
def backquoted (text : String) : String := "`" ++ text ++ "`"

/-- What a token of this kind is called when one is missing. The functions
of numbers and texts are called by their bare keywords. -/
def title : Kind → String
  | .number _ => "number"
  | .text _ => "string"
  | .boolean _ => "boolean"
  | .name _ => "identifier"
  | .keyword (.math function) => function.keyword
  | .keyword (.text function) => function.keyword
  | .keyword k => backquoted k.spelling
  | .sign s => backquoted s.spelling

/-- Numbers in messages about tokens: never with an exponent. -/
def numberLayout : Number.Layout where
  tie := .up
  positional := fun _ => true
  pointZero := false
  plusSign := false
  zero := "0"
  negativeZero := "-0"
  infinity := "inf"
  negativeInfinity := "-inf"
  nan := "NaN"

def booleanText (b : Bool) : String := if b then "true" else "false"

/-- What the token is called when it stands where it should not. -/
def description : Kind → String
  | .number x => "number " ++ numberLayout.write x
  | .text s => "string \"" ++ s ++ "\""
  | .boolean b => "boolean " ++ booleanText b
  | .name s => "identifier " ++ backquoted s
  | kind => kind.title

/-- The binary operator that the token spells. -/
def binaryOperator? : Kind → Option BinaryOperator
  | .sign s => s.binaryOperator?
  | _ => none

/-- The unary operator that the token spells. -/
def unaryOperator? : Kind → Option UnaryOperator
  | .sign s => s.unaryOperator?
  | _ => none

end Token.Kind

end BraceScript

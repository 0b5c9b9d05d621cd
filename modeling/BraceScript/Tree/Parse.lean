-- Reading a program off its tokens. The grammar is small:
--
--   expression  unary (operator unary)*            all operators on one level
--   unary       ('!' | '-')* primary
--   primary     literal, name, name(…), name[…], […], (…), or a value form
--
-- A value form is a keyword with an operand that reaches as far to the
-- right as it can. Every statement shows by its first token what it is.
import BraceScript.Tree
import BraceScript.Tree.Cursor

namespace BraceScript

namespace Reader

/-! ## Parts of expressions -/

/-- An expression from `start` to the last token taken. -/
def exprFrom (start : Span) (form : ExprForm) : Reader Expr := do
  return .at (← spanFrom start) form

/-- An expression in parentheses. -/
def parenthesized (expr : Reader Expr) : Reader Expr := do
  sign .leftParen
  let e ← expr
  sign .rightParen
  return e

/-- Expressions with commas between them, up to a closing sign. -/
def listUntil (close : Sign) (items : Reader (List Expr)) : Reader (List Expr) := do
  if ← at? close then
    sign close
    return []
  let es ← items
  sign close
  return es

/-- The arguments of a call. -/
def arguments (items : Reader (List Expr)) : Reader (List Expr) := do
  sign .leftParen
  listUntil .rightParen items

/-- The index behind the name of an array. -/
def bracketed (expr : Reader Expr) : Reader Expr := do
  sign .leftBracket
  let e ← expr
  sign .rightBracket
  return e

/-- What follows a name in an expression: a call, an index, or nothing. -/
def nameTail (expr : Reader Expr) (items : Reader (List Expr)) (name : String) :
    Reader ExprForm := do
  match ← peek with
  | some (.sign .leftParen) => return .call name (← arguments items)
  | some (.sign .leftBracket) => return .index name (← bracketed expr)
  | _ => return .name name

/-- A keyword with its operand. -/
def valueForm (expr : Reader Expr) : Reader Expr := do
  let start ← here
  match ← peek with
  | some (.keyword .read) => do
    skip
    let path ← expr
    exprFrom start (.read path)
  | some (.keyword .arradd) => do
    skip
    let array ← name
    let value ← expr
    exprFrom start (.append array value)
  | some (.keyword .arrdel) => do
    skip
    let array ← name
    let key ← expr
    exprFrom start (.remove array key)
  | some (.keyword .arrsize) => do
    skip
    let array ← name
    exprFrom start (.size array)
  | some (.keyword .tojson) => do
    skip
    let value ← expr
    exprFrom start (.toJson value)
  | some (.keyword .parjson) => do
    skip
    let text ← expr
    exprFrom start (.parseJson text)
  | some (.keyword (.math function)) => do
    skip
    let argument ← expr
    exprFrom start (.math function argument)
  | some (.keyword (.text function)) => do
    skip
    let argument ← expr
    exprFrom start (.textual function argument)
  | _ => expected .expression

/-- The unary operator that the next token spells. -/
def unaryOperator? : Reader (Option UnaryOperator) := do
  return (← peek).bind Token.Kind.unaryOperator?

/-- The binary operator that the next token spells. -/
def binaryOperator? : Reader (Option BinaryOperator) := do
  return (← peek).bind Token.Kind.binaryOperator?

/-! ## Expressions

The number is the depth to which reading may go; `enoughFuel` below is more
than any text needs. -/

mutual

def expr : Nat → Reader Expr
  | 0 => outOfFuel
  | n + 1 => do
    let left ← unary n
    operations n left

/-- The operators behind a first operand, applied from left to right. -/
def operations : Nat → Expr → Reader Expr
  | 0, _ => outOfFuel
  | n + 1, left => do
    match ← binaryOperator? with
    | none => return left
    | some op => do
      skip
      let right ← unary n
      operations n (.at (left.span.merge right.span) (.binary op left right))

def unary : Nat → Reader Expr
  | 0 => outOfFuel
  | n + 1 => do
    match ← unaryOperator? with
    | none => primary n
    | some op => do
      let start ← here
      skip
      let operand ← unary n
      return .at (start.merge operand.span) (.unary op operand)

def primary : Nat → Reader Expr
  | 0 => outOfFuel
  | n + 1 => do
    let start ← here
    match ← peek with
    | some (.number x) => do
      skip
      exprFrom start (.number x)
    | some (.text s) => do
      skip
      exprFrom start (.text s)
    | some (.boolean b) => do
      skip
      exprFrom start (.boolean b)
    | some (.keyword .void) => do
      skip
      exprFrom start .void
    | some (.name s) => do
      skip
      let form ← nameTail (expr n) (items n) s
      exprFrom start form
    | some (.sign .leftBracket) => do
      skip
      let es ← listUntil .rightBracket (items n)
      exprFrom start (.array es)
    | some (.sign .leftParen) => do
      let inner ← parenthesized (expr n)
      exprFrom start inner.form
    | some (.keyword _) => valueForm (expr n)
    | _ => expected .expression

/-- One expression or more, with commas between them. -/
def items : Nat → Reader (List Expr)
  | 0 => outOfFuel
  | n + 1 => do
    let e ← expr n
    if ← at? .comma then
      skip
      let es ← items n
      return e :: es
    return [e]

end

/-! ## Parts of statements -/

/-- One name or more, with commas between them. -/
def names : Nat → Reader (List String)
  | 0 => outOfFuel
  | n + 1 => do
    let s ← name
    if ← at? .comma then
      skip
      let ss ← names n
      return s :: ss
    return [s]

/-- The parameters of a function, in parentheses. -/
def params (names : Reader (List String)) : Reader (List String) := do
  sign .leftParen
  if ← at? .rightParen then
    sign .rightParen
    return []
  let ss ← names
  sign .rightParen
  return ss

/-- Statements between braces. -/
def block (body : Reader (List Stmt)) : Reader (List Stmt) := do
  sign .leftBrace
  let stmts ← body
  sign .rightBrace
  return stmts

/-- A new variable. -/
def declaration (expr : Reader Expr) (immutable : Bool) : Reader StmtForm := do
  skip
  let s ← name
  sign .assign
  let value ← expr
  return .declare s value immutable

def printing (expr : Reader Expr) (channel : Channel) : Reader StmtForm := do
  skip
  return .print channel (← expr)

def branching (expr : Reader Expr) (body : Reader (List Stmt)) : Reader StmtForm := do
  skip
  let condition ← parenthesized expr
  let thenBlock ← block body
  if (← peek) = some (.keyword .otherwise) then
    skip
    return .branch condition thenBlock (some (← block body))
  return .branch condition thenBlock none

def counting (expr : Reader Expr) (body : Reader (List Stmt)) : Reader StmtForm := do
  skip
  sign .leftParen
  let counter ← name
  sign .comma
  let first ← expr
  sign .comma
  let last ← expr
  sign .rightParen
  return .loop counter first last (← block body)

def repeating (expr : Reader Expr) (body : Reader (List Stmt)) : Reader StmtForm := do
  skip
  let condition ← parenthesized expr
  return .while condition (← block body)

def definition (names : Reader (List String)) (body : Reader (List Stmt)) : Reader StmtForm := do
  skip
  let s ← name
  let ss ← params names
  return .function s ss (← block body)

/-- A `return`, allowed in function bodies only. Its value is left out
before a closing brace, at the end of the text, and before a keyword that
can only begin a statement. -/
def returning (expr : Reader Expr) (inFunction : Bool) : Reader StmtForm := do
  if inFunction then
    skip
    match ← peek with
    | none => return .return none
    | some (.sign .rightBrace) => return .return none
    | some (.keyword k) =>
      if k.onlyBeginsStatement then return .return none
      return .return (some (← expr))
    | some _ => return .return (some (← expr))
  else refuse .strayReturn (← here)

def connecting : Reader StmtForm := do
  skip
  match ← peek with
  | some (.text path) => do
    skip
    return .connect path
  | _ => expected .path

/-- A statement that begins with a name: a call, an index or an assignment. -/
def nameStatement (expr : Reader Expr) (items : Reader (List Expr)) (s : String) :
    Reader StmtForm := do
  let start ← here
  skip
  match ← peek with
  | some (.sign .leftParen) => do
    let es ← arguments items
    return .value (← exprFrom start (.call s es))
  | some (.sign .leftBracket) => do
    let index ← bracketed expr
    return .value (← exprFrom start (.index s index))
  | some (.sign .assign) => do
    skip
    return .assign s (← expr)
  | _ => expected .nameTail

/-- A statement that begins with a keyword. -/
def keywordStatement (expr : Reader Expr) (names : Reader (List String))
    (body functionBody : Reader (List Stmt)) (inFunction : Bool) : Keyword → Reader StmtForm
  | .letVar => declaration expr false
  | .make => declaration expr true
  | .show => printing expr .info
  | .error => printing expr .error
  | .alert => printing expr .warning
  | .ifThen => branching expr body
  | .loop => counting expr body
  | .while => repeating expr body
  | .func => definition names functionBody
  | .return => returning expr inFunction
  | .delvar => do
    skip
    return .deleteVariable (← name)
  | .delfunc => do
    skip
    return .deleteFunction (← name)
  | .connect => connecting
  | .async => do
    skip
    return .async (← block body)
  | k => if k.beginsValueForm then return .value (← valueForm expr) else expected .statement

/-! ## Statements -/

mutual

def stmt : Nat → Bool → Reader Stmt
  | 0, _ => outOfFuel
  | n + 1, inFunction => do
    let start ← here
    let form ←
      match ← peek with
      | some (.keyword k) =>
        keywordStatement (expr n) (names n) (stmts n inFunction) (stmts n true) inFunction k
      | some (.name s) => nameStatement (expr n) (items n) s
      | _ => expected .statement
    return .at (← spanFrom start) form

/-- The statements of a block, up to its closing brace. -/
def stmts : Nat → Bool → Reader (List Stmt)
  | 0, _ => outOfFuel
  | n + 1, inFunction => do
    match ← peek with
    | none => expected (.sign .rightBrace)
    | some (.sign .rightBrace) => return []
    | some _ => do
      let s ← stmt n inFunction
      let ss ← stmts n inFunction
      return s :: ss

end

/-- The statements of a program, up to the end of the text. -/
def program : Nat → Reader (List Stmt)
  | 0 => outOfFuel
  | n + 1 => do
    match ← peek with
    | none => return []
    | some _ => do
      let s ← stmt n false
      let ss ← program n
      return s :: ss

end Reader

/-! ## A whole text -/

/-- The depth to which reading `count` tokens can go: no more than four
levels of the grammar are entered for each token taken. -/
def enoughFuel (count : Nat) : Nat := 4 * count + 8

/-- The statements of a list of tokens. A mistake right at the front is met
before anything is read. -/
def parseTokens (tokens : List Token) (ending : Ending) : Except SyntaxError (List Stmt) :=
  match tokens, ending with
  | [], .mistake e => .error (SyntaxError.ofLexical e)
  | tokens, ending =>
    match Reader.program (enoughFuel tokens.length) ending ⟨tokens, 0⟩ with
    | .done stmts _ => .ok stmts
    | .refused e => .error e
    | .outOfFuel => .error ⟨.incomplete .statement, Span.point 0⟩

/-- The statements of a source text, or the first thing that is wrong. -/
def parse (source : String) : Except SyntaxError (List Stmt) :=
  match untilMistake (scan source) with
  | (tokens, none) => parseTokens tokens (.complete (Span.hold source.utf8ByteSize))
  | (tokens, some e) => parseTokens tokens (.mistake e)

end BraceScript

-- Why a source text is no program.
import BraceScript.Token.Scan

namespace BraceScript

/-- What the grammar asks for at some place. -/
inductive Expectation where
  | statement
  | expression
  | identifier
  | path
  | nameTail
  | sign (sign : Sign)
deriving DecidableEq

def Expectation.title : Expectation → String
  | .statement => "statement"
  | .expression => "expression"
  | .identifier => "identifier"
  | .path => "string path"
  | .nameTail => "`(`, `[` or `=` after identifier"
  | .sign s => (Token.Kind.sign s).title

/-- The first thing that is wrong with a text. -/
inductive SyntaxError.Cause where
  | lexical (cause : LexicalError.Cause)
  | unexpected (expected : Expectation) (found : Token.Kind)
  | incomplete (expected : Expectation)
  | strayReturn
deriving DecidableEq

structure SyntaxError where
  cause : SyntaxError.Cause
  span : Span
deriving DecidableEq

/-- A mistake of the scanner as an error of the whole text. -/
def SyntaxError.ofLexical (e : LexicalError) : SyntaxError := ⟨.lexical e.cause, e.span⟩

def SyntaxError.Cause.code : SyntaxError.Cause → Code
  | .lexical cause => cause.code
  | .unexpected .. => .unexpectedToken
  | .incomplete _ => .unexpectedEnd
  | .strayReturn => .strayReturn

def SyntaxError.Cause.message : SyntaxError.Cause → String
  | .lexical cause => cause.message
  | .unexpected expected found => "expected " ++ expected.title ++ ", found " ++ found.description
  | .incomplete expected => "unexpected end of input, expected " ++ expected.title
  | .strayReturn => "`return` outside of a function body"

def SyntaxError.diagnostic (e : SyntaxError) : Diagnostic :=
  match e.cause with
  | .lexical cause => LexicalError.diagnostic ⟨cause, e.span⟩
  | cause =>
    { code := cause.code
      message := cause.message
      span := some e.span
      notes :=
        match cause with
        | .strayReturn => ["`return` is only valid inside a `func` body"]
        | _ => [] }

end BraceScript

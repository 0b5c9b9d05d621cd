-- Why a run fails. A fault has a cause, and it picks up where it arose while
-- it travels outward: the innermost span first, then the file, then one
-- note for each file that was being connected.
import BraceScript.Environment
import BraceScript.Tree.Error
import BraceScript.Value.Document

namespace BraceScript

/-- What a name that may not be used was to name. -/
inductive Binder where
  | variable | function | parameter
deriving DecidableEq

def Binder.title : Binder → String
  | .variable => "variable"
  | .function => "function"
  | .parameter => "parameter"

/-- What went wrong. Kinds of values are told as messages say them. -/
inductive Fault.Cause where
  | malformed (cause : SyntaxError.Cause)
  | undefinedVariable (name : String)
  | undefinedFunction (name : String)
  | immutable (name : String)
  | reserved (binder : Binder)
  | wrongOperands (op : BinaryOperator) (left right : String)
  | wrongOperand (op : UnaryOperator) (operand : String)
  | wrongKind (context expected found : String)
  | notAnArray (name found : String)
  | nonNumericIndex (found : String)
  | arity (name : String) (expected found : Nat)
  | outOfBounds (array : String) (index : Float) (length : Nat)
  | notFound (array value : String)
  | unreadable (path reason : String)
  | notConnectable (path : String)
  | circular (path : String)
  | json (trouble : JsonTrouble)
deriving DecidableEq

/-- A failure of a run. Without an origin it arose in the main source. -/
structure Fault where
  cause : Fault.Cause
  span : Option Span := none
  origin : Option String := none
  notes : List String := []
deriving DecidableEq

namespace Fault

def Cause.code : Cause → Code
  | .malformed cause => cause.code
  | .undefinedVariable _ => .undefinedVariable
  | .undefinedFunction _ => .undefinedFunction
  | .immutable _ => .immutableBinding
  | .reserved _ => .reservedName
  | .wrongOperands .. | .wrongOperand .. | .wrongKind .. => .wrongOperand
  | .notAnArray .. => .notAnArray
  | .nonNumericIndex _ => .nonNumericIndex
  | .arity .. => .arityMismatch
  | .outOfBounds .. => .indexOutOfBounds
  | .notFound .. => .valueNotFound
  | .unreadable .. => .unreadableFile
  | .notConnectable _ => .notConnectable
  | .circular _ => .circularConnect
  | .json _ => .badJson

def Cause.message : Cause → String
  | .malformed cause => cause.message
  | .undefinedVariable name => "undefined variable `" ++ name ++ "`"
  | .undefinedFunction name => "undefined function `" ++ name ++ "`"
  | .immutable name => "`" ++ name ++ "` is immutable"
  | .reserved binder =>
    "`" ++ everyName ++ "` is reserved and cannot be used as a " ++ binder.title ++ " name"
  | .wrongOperands op left right =>
    "cannot apply `" ++ op.symbol ++ "` to " ++ left ++ " and " ++ right
  | .wrongOperand op operand => "cannot apply `" ++ op.symbol ++ "` to " ++ operand
  | .wrongKind context expected found => context ++ " expects " ++ expected ++ ", found " ++ found
  | .notAnArray name found => "`" ++ name ++ "` is " ++ found ++ ", not an array"
  | .nonNumericIndex found => "array index must be a number, found " ++ found
  | .arity name expected found =>
    "`" ++ name ++ "` takes " ++ toString expected ++ " argument" ++
      (if expected = 1 then "" else "s") ++ " but " ++ toString found ++ " were supplied"
  | .outOfBounds array index length =>
    "index " ++ numberText index ++ " is out of bounds for `" ++ array ++ "` of length " ++
      toString length
  | .notFound array value => "value " ++ Text.quoted value ++ " not found in `" ++ array ++ "`"
  | .unreadable path reason => "cannot read `" ++ path ++ "`: " ++ reason
  | .notConnectable path =>
    "cannot connect `" ++ path ++ "`: only `.kq` files can be connected"
  | .circular path => "`" ++ path ++ "` is already being connected"
  | .json trouble => "JSON error: " ++ trouble.message

/-- A text that is no program, as a fault of the run that was to run it. -/
def ofSyntaxError (e : SyntaxError) : Fault := { cause := .malformed e.cause, span := some e.span }

/-- Gives a fault the span of the piece that it arose in, unless a smaller
piece has done so, or another file. -/
def within (f : Fault) (span : Span) : Fault :=
  if f.span.isNone && f.origin.isNone then { f with span := some span } else f

/-- Marks a fault as one of a connected file: the innermost file is its
origin, and each file leaves a note. -/
def connecting (f : Fault) (origin path : String) : Fault :=
  { f with
    origin := f.origin.or (some origin)
    notes := f.notes ++ ["while connecting `" ++ path ++ "`"] }

/-- The report on a fault. -/
def diagnostic (f : Fault) : Diagnostic :=
  let report : Diagnostic :=
    match f.cause with
    | .malformed cause => SyntaxError.diagnostic ⟨cause, f.span.getD (Span.point 0)⟩
    | cause => { code := cause.code, message := cause.message }
  { report with span := f.span, notes := report.notes ++ f.notes }

/-- Why a variable could not be bound, changed or removed. -/
def Cause.ofRefusal (name : String) : Refusal → Cause
  | .immutable name => .immutable name
  | .undefined => .undefinedVariable name
  | .reserved => .reserved .variable

end Fault

end BraceScript

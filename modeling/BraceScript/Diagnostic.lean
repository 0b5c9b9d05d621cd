-- Diagnostics: what went wrong, where, and what else there is to say. Each
-- kind of failure has a code, and each code belongs to one category.
import BraceScript.Span

namespace BraceScript

/-! ## Codes -/

/-- The broad kinds of failure. -/
inductive Category where
  | lexical | grammar | name | type | range | io | json
deriving DecidableEq, Repr

def Category.title : Category → String
  | .lexical => "LexicalError"
  | .grammar => "SyntaxError"
  | .name => "NameError"
  | .type => "TypeError"
  | .range => "RangeError"
  | .io => "IOError"
  | .json => "JSONError"

/-- Every kind of failure. -/
inductive Code where
  | unexpectedCharacter | unterminatedText | restrictedWord
  | unexpectedToken | unexpectedEnd | strayReturn
  | undefinedVariable | undefinedFunction | immutableBinding | reservedName
  | wrongOperand | notAnArray | nonNumericIndex | arityMismatch
  | indexOutOfBounds | valueNotFound
  | unreadableFile | notConnectable | circularConnect
  | badJson
deriving DecidableEq, Repr

namespace Code

/-- The short name that is printed: a letter, the category's digit, and a
number within the category. -/
def label : Code → String
  | unexpectedCharacter => "E0001"
  | unterminatedText => "E0002"
  | restrictedWord => "E0003"
  | unexpectedToken => "E1001"
  | unexpectedEnd => "E1002"
  | strayReturn => "E1003"
  | undefinedVariable => "E2001"
  | undefinedFunction => "E2002"
  | immutableBinding => "E2003"
  | reservedName => "E2004"
  | wrongOperand => "E3001"
  | notAnArray => "E3002"
  | nonNumericIndex => "E3003"
  | arityMismatch => "E3004"
  | indexOutOfBounds => "E4001"
  | valueNotFound => "E4002"
  | unreadableFile => "E5001"
  | notConnectable => "E5002"
  | circularConnect => "E5003"
  | badJson => "E6001"

def category : Code → Category
  | unexpectedCharacter | unterminatedText | restrictedWord => .lexical
  | unexpectedToken | unexpectedEnd | strayReturn => .grammar
  | undefinedVariable | undefinedFunction | immutableBinding | reservedName => .name
  | wrongOperand | notAnArray | nonNumericIndex | arityMismatch => .type
  | indexOutOfBounds | valueNotFound => .range
  | unreadableFile | notConnectable | circularConnect => .io
  | badJson => .json

/-- Every code, in the order of the labels. -/
def all : List Code :=
  [unexpectedCharacter, unterminatedText, restrictedWord, unexpectedToken, unexpectedEnd,
   strayReturn, undefinedVariable, undefinedFunction, immutableBinding, reservedName,
   wrongOperand, notAnArray, nonNumericIndex, arityMismatch, indexOutOfBounds, valueNotFound,
   unreadableFile, notConnectable, circularConnect, badJson]

/-- The code with a given label. -/
def ofLabel? (label : String) : Option Code :=
  all.find? fun code => code.label == label

theorem ofLabel?_label (code : Code) : ofLabel? code.label = some code := by
  cases code <;> rfl

end Code

/-! ## Diagnostics -/

inductive Severity where
  | error | warning
deriving DecidableEq, Repr

def Severity.title : Severity → String
  | .error => "error"
  | .warning => "warning"

/-- One report. Without a span it is about no particular place. -/
structure Diagnostic where
  code : Code
  severity : Severity := .error
  message : String
  span : Option Span := none
  notes : List String := []
  help : List String := []
deriving DecidableEq

/-- The report on one line, without its place and notes. -/
def Diagnostic.headline (d : Diagnostic) : String :=
  d.severity.title ++ "[" ++ d.code.label ++ "]: " ++ d.message

end BraceScript

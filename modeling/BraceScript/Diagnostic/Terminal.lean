-- Diagnostics as a terminal shows them: the headline, the place with the
-- line of source and a row of carets under it, and the notes.
--
--   error[E2001]: undefined variable `count`
--     --> demo.kq:3:6
--      |
--    3 | show count
--      |      ^^^^^
--     = note: NameError
import BraceScript.Diagnostic
import BraceScript.Diagnostic.Position

namespace BraceScript

/-! ## Colours -/

/-- When to colour: on a terminal, always, or never. -/
inductive ColorMode where
  | auto | always | never
deriving DecidableEq, Repr

/-- The mode that a word names. -/
def ColorMode.ofWord? : String → Option ColorMode
  | "auto" => some .auto
  | "always" => some .always
  | "never" => some .never
  | _ => none

def ColorMode.isOn (mode : ColorMode) (onTerminal : Bool) : Bool :=
  match mode with
  | .auto => onTerminal
  | .always => true
  | .never => false

/-- The looks that parts of a report have. -/
inductive Style where
  | red | yellow | green | bold | blue
deriving DecidableEq, Repr

/-- What switches a look on. -/
def Style.code : Style → String
  | .red => "\x1b[1;31m"
  | .yellow => "\x1b[1;33m"
  | .green => "\x1b[1;32m"
  | .bold => "\x1b[1m"
  | .blue => "\x1b[1;34m"

/-- A part of a report in some look, if looks are wanted. -/
def styled (colors : Bool) (style : Style) (text : String) : String :=
  if colors then style.code ++ text ++ "\x1b[0m" else text

def Severity.style : Severity → Style
  | .error => .red
  | .warning => .yellow

/-! ## Reports -/

/-- What is known about the source that a report is about. -/
structure Excerpt where
  source : Option String
  path : Option String

/-- The number of carets: as many as the span has bytes, but none beyond the
end of the line, and at least one. -/
def caretCount (line : List Char) (column : Nat) (span : Span) : Nat :=
  max (min (line.drop (column - 1)).length (max span.length 1)) 1

/-- The line of source that a span begins in, with carets under the span. -/
def snippet (colors : Bool) (severity : Severity) (source : String) (span : Span) : String :=
  let (line, column) := lineColumn source span.start
  let text := lineText source span.start
  let number := toString line
  let pad := "".pushn ' ' number.length
  styled colors .blue (" " ++ pad ++ " |") ++ "\n" ++
    styled colors .blue (" " ++ number ++ " |") ++ " " ++ String.ofList text ++ "\n" ++
    styled colors .blue (" " ++ pad ++ " |") ++ " " ++ "".pushn ' ' (column - 1) ++
    styled colors severity.style ("".pushn '^' (caretCount text column span)) ++ "\n"

/-- Where the trouble is. Without the source only the bytes can be told. -/
def Diagnostic.location (colors : Bool) (about : Excerpt) (d : Diagnostic) : String :=
  let arrow := styled colors .blue "  --> "
  match d.span, about.path, about.source with
  | none, none, _ => ""
  | none, some path, _ => arrow ++ path ++ "\n"
  | some span, path, none => arrow ++ path.getD "<input>" ++ " " ++ span.write ++ "\n"
  | some span, path, some source =>
    let (line, column) := lineColumn source span.start
    arrow ++ path.getD "<input>" ++ ":" ++ toString line ++ ":" ++ toString column ++ "\n" ++
      snippet colors d.severity source span

/-- A remark below a report. -/
def remark (colors : Bool) (style : Style) (title text : String) : String :=
  "  = " ++ styled colors style title ++ ": " ++ text ++ "\n"

/-- The whole report. The category is the first note. -/
def Diagnostic.render (colors : Bool) (about : Excerpt) (d : Diagnostic) : String :=
  styled colors d.severity.style d.severity.title ++
    styled colors .bold ("[" ++ d.code.label ++ "]") ++ ": " ++ d.message ++ "\n" ++
    d.location colors about ++
    String.join ((d.code.category.title :: d.notes).map (remark colors .bold "note")) ++
    String.join (d.help.map (remark colors .green "help"))

end BraceScript

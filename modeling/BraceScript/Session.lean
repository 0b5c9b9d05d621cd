-- An interactive session: lines come in one by one, and are run as soon as
-- no block is left open. What has been bound stays bound, also when a line
-- fails.
import BraceScript.Diagnostic.Terminal
import BraceScript.Run.Program

namespace BraceScript

/-! ## Open blocks -/

/-- Counts the braces from some point of a text on, which lies within the
given quotes, or within a comment, or in neither. The count has 32 bits, and
wraps around. -/
def countBraces (open_ : Int32) (quote : Option Char) (inComment : Bool) : List Char → Int32
  | [] => open_
  | c :: cs =>
    if inComment then countBraces open_ quote (c != '\n') cs
    else
      match quote with
      | some q => countBraces open_ (if c = q then none else some q) false cs
      | none =>
        if isQuote c then countBraces open_ (some c) false cs
        else if c = '{' then countBraces (open_ + 1) none false cs
        else if c = '}' then countBraces (open_ - 1) none false cs
        else countBraces open_ none (c = '/' && cs.head? == some '/') cs

/-- How many more braces a text opens than it closes, outside of texts and
comments. -/
def openBraces (source : String) : Int := (countBraces 0 none false source.toList).toInt

/-! ## Sessions -/

/-- A session: the state of the machine, the lines of a block that is still
open, and how to write reports. -/
structure Session where
  state : State
  pending : String
  color : ColorMode
  onTerminal : Bool

/-- Something that a session writes: what a program prints, and what the
session itself says in answer or in complaint. -/
inductive Chunk where
  | event (event : Event)
  | out (text : String)
  | err (text : String)

/-- What became of a line. -/
inductive Reply where
  | done | incomplete | exit
deriving DecidableEq, Repr

namespace Session

def start (state : State) (color : ColorMode) : Session := ⟨state, "", color, false⟩

/-- What the user is asked with. -/
def prompt (s : Session) : String := if s.pending.isEmpty then "kq> " else "...> "

def help : String :=
  "Commands:\n" ++
  "  .help    Show this message\n" ++
  "  .exit    Leave the REPL\n" ++
  "\n" ++
  "Enter statements to run them. A line ending inside `\x7b ... \x7d` continues\n" ++
  "on the next line.\n"

end Session

/-! ## Running -/

/-- The files whose text may be shown in reports on faults in them. -/
def Files.excerpt (files : Files) (origin : String) : Excerpt where
  source :=
    match files.find? (Path.ofText origin) with
    | some (.text text) => some text
    | _ => none
  path := some origin

/-- The report on a fault in a source that is called by a path, or in a file
that was connected from it. -/
def Fault.render (colors : Bool) (shown : Files) (source path : String) (f : Fault) : String :=
  let about : Excerpt :=
    match f.origin with
    | some origin => shown.excerpt origin
    | none => ⟨some source, some path⟩
  f.diagnostic.render colors about

/-- What running a source comes to: the state afterwards, the lines printed
meanwhile, and the fault if there was one. -/
structure Ran where
  state : State
  events : List Event
  fault : Option Fault

/-- Runs a step on a state whose printed lines have been taken away. -/
def Exec.perform (x : Exec Unit) (state : State) : Except Break Ran :=
  match x { state with output := #[] } with
  | .ok () st => .ok ⟨st, st.output.toList, none⟩
  | .failed fault st => .ok ⟨st, st.output.toList, some fault⟩
  | .broken reason => .error reason

namespace Session

/-- Runs a source text, and reports the fault if there is one. `shown` are
the files that reports may quote. -/
def execute (host : Host) (shown : Files) (s : Session) (source : String) :
    Except Break (Session × List Chunk) := do
  let ran ← (runSource host patience source none).perform s.state
  let report :=
    match ran.fault with
    | some f => [Chunk.err (f.render (s.color.isOn s.onTerminal) shown source "<repl>")]
    | none => []
  return ({ s with state := ran.state }, ran.events.map Chunk.event ++ report)

/-- Takes one line. Commands and blank lines are seen only while no block is
open. -/
def feed (host : Host) (shown : Files) (s : Session) (line : String) :
    Except Break (Session × List Chunk × Reply) := do
  let command := Text.trim line
  if s.pending.isEmpty && command.isEmpty then return (s, [], .done)
  else if s.pending.isEmpty && (command = ".exit" || command = ".quit") then
    return (s, [], .exit)
  else if s.pending.isEmpty && command = ".help" then return (s, [.out help], .done)
  else if s.pending.isEmpty && command.startsWith "." then
    return (s, [.err ("unknown command `" ++ command ++ "` (try .help)\n")], .done)
  else
    let source := s.pending ++ line ++ "\n"
    if 0 < openBraces source then return ({ s with pending := source }, [], .incomplete)
    else
      let (s, chunks) ← execute host shown { s with pending := "" } source
      return (s, chunks, .done)

/-- Asks the user for a line, on a terminal. -/
def ask (s : Session) : List Chunk := if s.onTerminal then [.out s.prompt] else []

/-- Takes lines up to the last one or to a command to leave. On a terminal
the user is asked for each line. -/
def feedAll (host : Host) (shown : Files) :
    Session → List String → Except Break (Session × List Chunk)
  | s, [] => return (s, s.ask)
  | s, line :: lines => do
    let (next, chunks, reply) ← feed host shown s line
    match reply with
    | .exit => return (next, s.ask ++ chunks)
    | _ =>
      let (last, more) ← feedAll host shown next lines
      return (last, s.ask ++ chunks ++ more)

/-- The lines of an input. A carriage return before a line break belongs to
the break; what follows the last line break is a line unless it is empty. -/
def linesOf (input : String) : List String :=
  let pieces := (input.toList.splitOn '\n').map String.ofList
  let broken := pieces.dropLast.map fun line =>
    if line.endsWith "\r" then (line.dropEnd 1).toString else line
  broken ++ (pieces.getLast?.toList.filter (!·.isEmpty))

/-- Ends the input. A block that is still open is run as it is, so that the
user sees what is missing. -/
def finish (host : Host) (shown : Files) (s : Session) : Except Break (Session × List Chunk) :=
  if s.pending.isEmpty then return (s, [])
  else execute host shown { s with pending := "" } s.pending

/-- A whole session over an input. -/
def run (host : Host) (shown : Files) (s : Session) (interactive : Bool) (input : String) :
    Except Break (Session × List Chunk) := do
  let (s, chunks) ← feedAll host shown { s with onTerminal := interactive } (linesOf input)
  let (s, more) ← finish host shown s
  return (s, chunks ++ more)

end Session

end BraceScript

-- The command line: what its words ask for, and what the program then
-- writes. Reading files and writing the result are left to the caller.
import BraceScript.Session
import BraceScript.Tree.Inspect

namespace BraceScript.CommandLine

/-! ## Requests -/

/-- The commands that work on one file. -/
inductive FileCommand where
  | run | lex | parse
deriving DecidableEq, Repr

def FileCommand.word : FileCommand → String
  | .run => "run"
  | .lex => "lex"
  | .parse => "parse"

/-- What is asked for. -/
inductive Request where
  | file (command : FileCommand) (path : String)
  | noFile (command : FileCommand)
  | session
  | help
  | version
  | unknown (word : String)
  | badColor (value : String)
deriving DecidableEq

/-- What stands behind `--color=` in a word. -/
def colorValue? (word : String) : Option String :=
  let flag := "--color="
  if flag.toList.isPrefixOf word.toList then some (String.ofList (word.toList.drop flag.length))
  else none

/-- The last colour mode asked for, or the first word that asks for none. -/
def colorMode (mode : ColorMode) : List String → Except String ColorMode
  | [] => .ok mode
  | word :: words =>
    match colorValue? word with
    | none => colorMode mode words
    | some value =>
      match ColorMode.ofWord? value with
      | some mode => colorMode mode words
      | none => .error value

/-- A word may stand for the file of a program if it ends like one. -/
def namesProgram (word : String) : Bool :=
  match Path.ending? word with
  | some ending => ending.toLower == "kq"
  | none => false

def fileRequest (command : FileCommand) : List String → Request
  | path :: _ => .file command path
  | [] => .noFile command

/-- What the words other than those about colours ask for. -/
def requestOf : List String → Request
  | [] => .session
  | word :: words =>
    if word = "run" then fileRequest .run words
    else if word = "repl" then .session
    else if word = "lex" then fileRequest .lex words
    else if word = "parse" then fileRequest .parse words
    else if word = "help" || word = "--help" || word = "-h" then .help
    else if word = "version" || word = "--version" || word = "-V" then .version
    else if namesProgram word then .file .run word
    else .unknown word

/-- What all the words ask for. -/
def request (words : List String) : ColorMode × Request :=
  match colorMode .auto words with
  | .error value => (.auto, .badColor value)
  | .ok mode => (mode, requestOf (words.filter fun word => (colorValue? word).isNone))

/-! ## Results -/

/-- What the program writes, and whether it has done what was asked for. -/
structure Result where
  out : String := ""
  err : String := ""
  success : Bool := true

/-- Writes something more. -/
def Result.add (r : Result) : Chunk → Result
  | .event ⟨.info, text⟩ => { r with out := r.out ++ text ++ "\n" }
  | .event ⟨.error, text⟩ => { r with err := r.err ++ text ++ "\n" }
  | .event ⟨.warning, text⟩ => { r with err := r.err ++ "warning: " ++ text ++ "\n" }
  | .out text => { r with out := r.out ++ text }
  | .err text => { r with err := r.err ++ text }

/-- All chunks, in order. -/
def Result.ofChunks (chunks : List Chunk) : Result := chunks.foldl Result.add {}

/-- A complaint on a line of its own. -/
def Result.complaint (text : String) : Result := { err := text ++ "\n", success := false }

/-! ## Texts -/

def versionText : String := "KorvaqScrip 0.1.0"

/-- The first line of a session on a terminal. -/
def greeting : String := versionText ++ " (type .help for help)"

def usage : String :=
  "KorvaqScrip interpreter\n" ++
  "\n" ++
  "Usage: kq [--color=auto|always|never] <command> [args]\n" ++
  "\n" ++
  "Commands:\n" ++
  "  run <file.kq>     Run a program\n" ++
  "  repl              Start an interactive session (default)\n" ++
  "  lex <file.kq>     Tokenize and display tokens\n" ++
  "  parse <file.kq>   Parse and display statements\n" ++
  "  help              Show this help message\n" ++
  "  version           Show version information\n" ++
  "\n" ++
  "Examples:\n" ++
  "  kq run main.kq\n" ++
  "  kq main.kq                 # same as `kq run main.kq`\n" ++
  "  RUST_LOG=kq_eval=debug kq main.kq\n"

/-- Why a file named on the command line cannot be read. -/
def unreadableText (path : String) (reason : String) : Obstacle → String
  | .missing => "error: cannot find file '" ++ path ++ "'"
  | .forbidden => "error: permission denied reading '" ++ path ++ "'"
  | .notText => "error: '" ++ path ++ "' contains invalid UTF-8 data"
  | .other => "error: error reading '" ++ path ++ "': " ++ reason

/-! ## Commands -/

/-- The files that the commands see, and how reports look. -/
structure Setting where
  files : Files
  colors : Bool

/-- A report on a text that is no program. -/
def Setting.report (setting : Setting) (source path : String) (d : Diagnostic) : Result :=
  { err := d.render setting.colors ⟨some source, some path⟩, success := false }

def lexFile (setting : Setting) (path source : String) : Result :=
  match tokens source with
  | .error e => setting.report source path e.diagnostic
  | .ok tokens =>
    let line (t : Token) := "  " ++ t.kind.outline.line ++ " @ " ++ t.span.write ++ "\n"
    { out := "Tokens for '" ++ path ++ "' (" ++ toString tokens.length ++ " tokens):\n" ++
        String.join (tokens.map line) }

def parseFile (setting : Setting) (path source : String) : Result :=
  match parse source with
  | .error e => setting.report source path e.diagnostic
  | .ok stmts =>
    { out := "Parse result for '" ++ path ++ "': " ++ toString stmts.length ++ " statements\n" ++
        String.join (stmts.map fun s => s.outline.lines ++ "\n") }

def runFile (setting : Setting) (path source : String) : Except Break Result := do
  let host : Host := ⟨setting.files, none⟩
  let ran ← (runSource host patience source (some path)).perform State.initial
  let printed := Result.ofChunks (ran.events.map Chunk.event)
  match ran.fault with
  | none => return printed
  | some f =>
    let report := f.render setting.colors setting.files source path
    return { printed.add (.err report) with success := false }

/-- Does what is to be done with a file. -/
def doFile (setting : Setting) (command : FileCommand) (path : String) : Except Break Result :=
  match setting.files.opened path with
  | .error place => .error (.unknownFile place)
  | .ok (.unreadable obstacle reason) =>
    .ok (Result.complaint (unreadableText path reason obstacle))
  | .ok (.text source) =>
    match command with
    | .run => runFile setting path source
    | .lex => .ok (lexFile setting path source)
    | .parse => .ok (parseFile setting path source)

/-- Does what was asked for, with everything that is typed in given at once. -/
def perform (setting : Setting) (mode : ColorMode) (input : String) :
    Request → Except Break Result
  | .file command path => doFile setting command path
  | .noFile command => .ok (Result.complaint ("Usage: kq " ++ command.word ++ " <file.kq>"))
  | .session => do
    let session := Session.start State.initial mode
    let (_, chunks) ← Session.run ⟨setting.files, none⟩ setting.files session false input
    return Result.ofChunks chunks
  | .help => .ok { out := usage }
  | .version => .ok { out := versionText ++ "\n" }
  | .unknown word =>
    .ok { Result.complaint ("Unknown command: " ++ word ++ "\n") with out := usage }
  | .badColor value =>
    .ok (Result.complaint ("error: invalid --color value '" ++ value ++
      "' (expected auto, always or never)"))

/-- Does what the words of a command line ask for, away from a terminal. -/
def run (files : Files) (words : List String) (input : String) : Except Break Result :=
  let (mode, request) := request words
  perform ⟨files, mode.isOn false⟩ mode input request

end BraceScript.CommandLine

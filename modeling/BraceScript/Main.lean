-- The program itself: it looks at the files that a run turns out to need,
-- writes what the run came to, and talks with a user at a terminal.
import BraceScript.CommandLine

namespace BraceScript

/-! ## Looking at files -/

/-- What a failed look at a file tells about it. -/
def Contents.ofFailure (e : IO.Error) : Contents :=
  let reason (code : UInt32) (details : String) :=
    details ++ " (os error " ++ toString code ++ ")"
  match e with
  | .noFileOrDirectory _ code details => .unreadable .missing (reason code details)
  | .permissionDenied _ code details => .unreadable .forbidden (reason code details)
  | .inappropriateType _ code details => .unreadable .other (reason code details)
  | e => .unreadable .other e.toString

/-- Looks at the file at a path. -/
def look (path : Path) : IO Contents := do
  try
    let handle ← IO.FS.Handle.mk path.text .read
    return Contents.ofBytes (← handle.readBinToEnd)
  catch e => return Contents.ofFailure e

/-- Carries something out on the files that are known, and again whenever it
was broken off for want of one. -/
partial def settle {α : Type} (files : Files) (act : Files → Except Break α) : IO (Files × α) :=
  match act files with
  | .ok result => return (files, result)
  | .error (.unknownFile path) => do
    let contents ← look path
    settle { files with entries := (path.normal, contents) :: files.entries } act
  | .error .outOfFuel => throw (IO.userError "the run was given up")

/-! ## Talking with a user -/

/-- Writes a result to where it belongs. -/
def write (r : CommandLine.Result) : IO Unit := do
  IO.print r.out
  (← IO.getStdout).flush
  IO.eprint r.err

/-- Takes lines from the terminal until there are no more, or until the user
leaves. Each line sees the files as they are by then. -/
partial def converse (workingDirectory : Path) (session : Session) : IO Unit := do
  IO.print session.prompt
  (← IO.getStdout).flush
  let input ← (← IO.getStdin).getLine
  let unknown := Files.unexplored workingDirectory
  match Session.linesOf input with
  | [] => do
    let (_, _, chunks) ← settle unknown fun files =>
      session.finish ⟨files, none⟩ files
    write (CommandLine.Result.ofChunks chunks)
  | line :: _ => do
    let (_, next, chunks, reply) ← settle unknown fun files =>
      session.feed ⟨files, none⟩ files line
    write (CommandLine.Result.ofChunks chunks)
    if reply != .exit then converse workingDirectory next

end BraceScript

open BraceScript

def main (words : List String) : IO UInt32 := do
  let workingDirectory := Path.ofText (← IO.currentDir).toString
  let (mode, request) := CommandLine.request words
  let stdin ← IO.getStdin
  if request = .session && (← stdin.isTty) then
    IO.println CommandLine.greeting
    converse workingDirectory { Session.start State.initial mode with onTerminal := true }
    return 0
  else
    let input ← if request = .session then readAll stdin else pure ""
    let colors := mode.isOn (← (← IO.getStderr).isTty)
    let (_, result) ← settle (Files.unexplored workingDirectory) fun files =>
      CommandLine.perform ⟨files, colors⟩ mode input request
    write result
    return if result.success then 0 else 1
where
  /-- Everything that is typed in. -/
  readAll (stream : IO.FS.Stream) : IO String := do
    let mut input := ""
    repeat
      let line ← stream.getLine
      if line.isEmpty then break
      input := input ++ line
    return input

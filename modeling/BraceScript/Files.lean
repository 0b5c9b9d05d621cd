-- The files that a program can read. A program sees a fixed collection of
-- files, which its host has put together before the run. In memory a path is
-- looked up as it is; on a disk it is followed through its directories.
import BraceScript.Path

namespace BraceScript

/-- Why there is no text to be had from a path. -/
inductive Obstacle where
  | missing | forbidden | notText | other
deriving DecidableEq, Repr

/-- What is known about a file: its text, or what stands in the way of it,
with the reason in the words of the system. -/
inductive Contents where
  | text (text : String)
  | unreadable (obstacle : Obstacle) (reason : String)
deriving DecidableEq

/-- What the bytes of a file hold. -/
def Contents.ofBytes (bytes : ByteArray) : Contents :=
  match String.fromUTF8? bytes with
  | some s => .text s
  | none => .unreadable .notText "stream did not contain valid UTF-8"

/-- A directory has no text. -/
def Contents.directory : Contents := .unreadable .other "Is a directory (os error 21)"

/-- There is nothing at the path. -/
def Contents.absent : Contents :=
  .unreadable .missing "No such file or directory (os error 2)"

/-- What is no directory has nothing behind it. -/
def Contents.noDirectory : Contents := .unreadable .other "Not a directory (os error 20)"

/-- A name of more than 255 bytes, or a path of more than 4095, is refused. -/
def Contents.tooLong : Contents := .unreadable .other "File name too long (os error 36)"

/-- A NUL would end the path for the system. -/
def Contents.cutShort : Contents :=
  .unreadable .other "file name contained an unexpected NUL byte"

/-- What is found when more names stand behind something that cannot be gone
through. -/
def Contents.behind : Contents → Contents
  | .text _ => .noDirectory
  | .unreadable .notText _ => .noDirectory
  | contents => contents

/-- How files are kept. In memory a path is a key and nothing more; on a
disk it leads through directories, and either all of them are listed or the
host has to be asked about the rest. -/
inductive Storage where
  | memory | disk | unexplored
deriving DecidableEq, Repr

/-- Files by their normal paths, those added last in front. -/
structure Files where
  entries : List (Path × Contents)
  storage : Storage
  /-- Where relative paths start when nothing else says so. -/
  workingDirectory : Path

namespace Files

/-- No files, in memory. -/
def inMemory : Files := ⟨[], .memory, Path.root⟩

/-- The directories on the way to a path, the nearest first, each with what
is known about it. -/
def directoriesTo (path : Path) : List (Path × Contents) :=
  (List.range path.parts.length).reverse.map fun n =>
    (⟨path.absolute, path.parts.take n⟩, .directory)

/-- No files, on a disk. -/
def onDisk (workingDirectory : Path) : Files :=
  ⟨(workingDirectory, .directory) :: directoriesTo workingDirectory, .disk, workingDirectory⟩

/-- The files known so far of a disk that can be asked for more. -/
def unexplored (workingDirectory : Path) : Files := ⟨[], .unexplored, workingDirectory⟩

/-- Puts a file under a path, which starts at the root. -/
def insert (files : Files) (path : String) (contents : Contents) : Files :=
  { files with entries := (Path.root.resolve path, contents) :: files.entries }

/-- Puts a file under a path, which starts at the working directory, and
makes the directories that it lies in. -/
def place (files : Files) (path : String) (contents : Contents) : Files :=
  let path := files.workingDirectory.resolve path
  { files with entries := (path, contents) :: files.entries ++ directoriesTo path }

/-! ## Following paths -/

/-- What is known about a normal path whose directory is there. -/
def known? (files : Files) (path : Path) : Option Contents :=
  (files.entries.lookup path).or <|
    match files.storage with
    | .memory => some (.unreadable .missing "no such file")
    | .disk => some (if path.parts.any (255 < ·.utf8ByteSize) then .tooLong else .absent)
    | .unexplored => none

/-- What is known about the place that the names lead to. A name with another
one behind it, even an empty one, has to be that of a directory. Where
nothing is known, the path to be asked for. -/
def follow (files : Files) (here : Path) : List String → Except Path Contents
  | [] => (files.known? here).elim (.error here) .ok
  | name :: names =>
    match files.known? here with
    | none => .error here
    | some contents =>
      if contents = .directory then files.follow (here.resolve name) names
      else .ok contents.behind

/-- What no disk takes as a path. -/
def refused? (path : String) : Option Contents :=
  if path.toList.any (·.toNat == 0) then some .cutShort
  else if 4095 < path.utf8ByteSize then some .tooLong
  else none

/-- What is known about the file that a path leads to on a disk, name by
name. The empty path leads nowhere. -/
def opened (files : Files) (path : String) : Except Path Contents :=
  match refused? path with
  | some contents => .ok contents
  | none =>
    if path.isEmpty then .ok .absent
    else
      let start := if (Path.ofText path).absolute then Path.root else files.workingDirectory
      files.follow start (Path.names path)

/-- What is known about the file at a path, if anything is. -/
def find? (files : Files) (path : Path) : Option Contents :=
  match files.storage with
  | .memory => files.known? path.normal
  | .disk => (files.opened path.normal.text).toOption
  | .unexplored => (refused? path.normal.text).or (files.known? path.normal)

end Files

end BraceScript

-- Paths of files, as lists of names. A path that is written with repeated
-- slashes or single dots is read as if they were not there; double dots are
-- resolved by the text of the path alone.

namespace BraceScript

/-- A path from the root, or from wherever the reader stands. -/
structure Path where
  absolute : Bool
  parts : List String
deriving DecidableEq, Inhabited

namespace Path

/-- The root of all absolute paths. -/
def root : Path := ⟨true, []⟩

/-- The names between the slashes of a text. -/
def names (text : String) : List String := (text.toList.splitOn '/').map String.ofList

/-- The path that a text spells. Empty names and single dots are dropped. -/
def ofText (text : String) : Path where
  absolute := text.toList.head? == some '/'
  parts := (names text).filter fun part => !part.isEmpty && part != "."

/-- The text of a path. -/
def text (p : Path) : String :=
  (if p.absolute then "/" else "") ++ "/".intercalate p.parts

/-- The second path seen from the first. -/
def join (base p : Path) : Path :=
  if p.absolute then p else ⟨base.absolute, base.parts ++ p.parts⟩

/-- One name more behind those already passed, the last of them first. A
double dot takes back a name; at the root there is nothing to take back,
and at the front of a relative path it stays. -/
def pass (absolute : Bool) (passed : List String) (part : String) : List String :=
  if part = ".." then
    match passed with
    | [] => if absolute then [] else [".."]
    | last :: rest => if last = ".." then ".." :: passed else rest
  else part :: passed

/-- The same path without double dots that could be taken back. -/
def normal (p : Path) : Path :=
  ⟨p.absolute, (p.parts.foldl (pass p.absolute) []).reverse⟩

/-- The directory that a path lies in. The root and the empty path lie in none. -/
def parent? (p : Path) : Option Path :=
  if p.parts.isEmpty then none else some ⟨p.absolute, p.parts.dropLast⟩

/-- The normal form of a path as seen from a directory. -/
def resolve (base : Path) (text : String) : Path := (base.join (ofText text)).normal

/-! ## The ending of a file name -/

/-- What stands behind the last dot of the last name, unless the dot is the
first character of the name. -/
def ending? (text : String) : Option String :=
  match (ofText text).parts.getLast? with
  | none => none
  | some name =>
    if name = ".." then none
    else
      let behind := name.toList.reverse.takeWhile (· != '.')
      if behind.length + 1 < name.length then some (String.ofList behind.reverse) else none

end Path

end BraceScript

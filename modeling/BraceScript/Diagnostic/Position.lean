-- Where a byte offset lies in a source text: its line, its column in
-- characters, and the text of its line.
import BraceScript.Span

namespace BraceScript

/-- The characters at the front that lie before a byte offset as a whole. -/
def takeBytes : Nat → List Char → List Char
  | _, [] => []
  | n, c :: cs => if c.utf8Size ≤ n then c :: takeBytes (n - c.utf8Size) cs else []

/-- The characters behind those that lie before a byte offset as a whole. -/
def dropBytes : Nat → List Char → List Char
  | _, [] => []
  | n, c :: cs => if c.utf8Size ≤ n then dropBytes (n - c.utf8Size) cs else c :: cs

theorem takeBytes_append_dropBytes (n : Nat) (cs : List Char) :
    takeBytes n cs ++ dropBytes n cs = cs := by
  induction cs generalizing n with
  | nil => rfl
  | cons c cs ih =>
    by_cases h : c.utf8Size ≤ n <;> simp [takeBytes, dropBytes, h, ih]

theorem byteLength_takeBytes_le (n : Nat) (cs : List Char) : byteLength (takeBytes n cs) ≤ n := by
  induction cs generalizing n with
  | nil => simp [takeBytes]
  | cons c cs ih =>
    by_cases h : c.utf8Size ≤ n
    · have := ih (n - c.utf8Size)
      simp [takeBytes, h]
      omega
    · simp [takeBytes, h]

/-- The characters of the last line of a text. -/
def lastLine (cs : List Char) : List Char := (cs.reverse.takeWhile (· != '\n')).reverse

/-- Line and column of an offset, both counted from one, as far as they can be held. An offset
inside a character stands for the front of it, and one past the end for the end. -/
def lineColumn (source : String) (offset : Nat) : Nat × Nat :=
  let before := takeBytes offset source.toList
  (Span.hold (before.count '\n' + 1), Span.hold ((lastLine before).length + 1))

/-- The line that an offset lies in, without its line break. -/
def lineText (source : String) (offset : Nat) : List Char :=
  let line := lastLine (takeBytes offset source.toList) ++
    (dropBytes offset source.toList).takeWhile (· != '\n')
  (line.reverse.dropWhile (· == '\r')).reverse

end BraceScript

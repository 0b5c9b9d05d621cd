-- Words that other languages use and this one refuses, each with a hint at
-- what to write in its place.

namespace BraceScript

/-- The refused words in alphabetical order, with their hints. -/
def restrictedWords : List (String × String) :=
  [("break", "loops run to completion; use `return` inside a function to stop early"),
   ("case", "use nested `if`/`else` blocks"),
   ("catch", "errors are fatal; there is no exception handling"),
   ("class", "there are no classes; group behavior in `func` declarations"),
   ("const", "use `make` for an immutable binding"),
   ("continue", "wrap the rest of the loop body in an `if` block"),
   ("debugger", "use `show` to inspect values"),
   ("default", "use a trailing `else` block"),
   ("delete", "use `delvar` or `delfunc`"),
   ("extends", "there are no classes; group behavior in `func` declarations"),
   ("finally", "errors are fatal; there is no exception handling"),
   ("for", "use `loop (i, start, end) \x7b ... \x7d`"),
   ("in", "use `loop` over indices up to `arrsize`"),
   ("instanceof", "compare against `void` to detect a missing argument"),
   ("new", "build arrays with `[ ... ]` literals"),
   ("super", "there are no classes; group behavior in `func` declarations"),
   ("switch", "use nested `if`/`else` blocks"),
   ("this", "pass values to functions as parameters"),
   ("throw", "use `error` to report a problem"),
   ("try", "errors are fatal; there is no exception handling"),
   ("typeof", "compare against `void` to detect a missing argument"),
   ("var", "use `let` to declare a variable")]

/-- Alphabetical order: the first characters in which two words differ decide, and a word comes
before all that it begins. -/
def isBefore (a b : String) : Bool := a.toList.lex b.toList fun c d => c < d

/-- Narrows a stretch of an ordered table down to one place, by halves. `isBehind` tells of a place
that its entry comes behind what is looked for. -/
def narrow (isBehind : Nat → Bool) (start size : Nat) : Nat :=
  if size ≤ 1 then start
  else
    let middle := start + size / 2
    narrow isBehind (bif isBehind middle then start else middle) (size - size / 2)
termination_by size
decreasing_by omega

/-- The hint for a refused word. -/
def restrictedHint? (word : String) : Option String :=
  let isBehind place := restrictedWords[place]?.any fun (entry, _) => isBefore word entry
  match restrictedWords[narrow isBehind 0 restrictedWords.length]? with
  | some (entry, hint) => if entry = word then some hint else none
  | none => none

end BraceScript

-- Reading a list of tokens from the front. A reader takes the tokens it
-- wants and leaves the rest; it looks one token ahead, so a mistake behind
-- the last token is met when that token is taken.
import BraceScript.Tree.Error

namespace BraceScript

variable {α β : Type}

/-- The tokens still to be read, and where the last one taken ended. -/
structure Cursor where
  rest : List Token
  lastStop : Nat
deriving DecidableEq

/-- What stands behind the last token: the end of the text, or a mistake. -/
inductive Ending where
  | complete (length : Nat)
  | mistake (error : LexicalError)
deriving DecidableEq

/-- The outcome of reading. -/
inductive Parsed (α : Type) where
  | done (value : α) (cursor : Cursor)
  | refused (error : SyntaxError)
  | outOfFuel

/-- Reads a piece of a program off the front of the tokens. -/
def Reader (α : Type) : Type := Ending → Cursor → Parsed α

namespace Reader

@[always_inline, inline]
def pure (value : α) : Reader α := fun _ c => .done value c

@[always_inline, inline]
def bind (x : Reader α) (f : α → Reader β) : Reader β := fun ending c =>
  match x ending c with
  | .done value c => f value ending c
  | .refused error => .refused error
  | .outOfFuel => .outOfFuel

instance : Monad Reader where
  pure := Reader.pure
  bind := Reader.bind

section

variable {x : Reader α} {f : α → Reader β} {ending : Ending} {c mid : Cursor}

theorem bind_done {v : α} (h : x ending c = .done v mid) :
    (x >>= f) ending c = f v ending mid := by
  change bind x f ending c = _
  simp only [bind, h]

theorem bind_refused {error : SyntaxError} (h : x ending c = .refused error) :
    (x >>= f) ending c = .refused error := by
  change bind x f ending c = _
  simp only [bind, h]

theorem bind_outOfFuel (h : x ending c = .outOfFuel) : (x >>= f) ending c = .outOfFuel := by
  change bind x f ending c = _
  simp only [bind, h]

end

/-- Reading that was given too few steps to come to an end. -/
def outOfFuel : Reader α := fun _ _ => .outOfFuel

def refuse (cause : SyntaxError.Cause) (span : Span) : Reader α := fun _ _ =>
  .refused ⟨cause, span⟩

/-- The next token, which is not taken. -/
@[always_inline, inline]
def peek : Reader (Option Token.Kind) := fun _ c => .done (c.rest.head?.map Token.kind) c

/-- Where the next token stands; at the end of the text, the end. -/
def here : Reader Span := fun ending c =>
  match c.rest, ending with
  | t :: _, _ => .done t.span c
  | [], .complete length => .done (Span.point length) c
  | [], .mistake e => .done e.span c

/-- Takes the next token. If a mistake stands right behind it, that mistake
is met now. -/
def skip : Reader Unit := fun ending c =>
  match c.rest, ending with
  | [_], .mistake e => .refused (SyntaxError.ofLexical e)
  | t :: rest, _ => .done () ⟨rest, t.span.stop⟩
  | [], _ => .done () c

/-- Refuses the next token, or the end of the text. -/
def expected (expectation : Expectation) : Reader α := fun ending c =>
  match c.rest, ending with
  | t :: _, _ => .refused ⟨.unexpected expectation t.kind, t.span⟩
  | [], .complete length => .refused ⟨.incomplete expectation, Span.point length⟩
  | [], .mistake e => .refused (SyntaxError.ofLexical e)

/-- The span from the front of `start` to the end of the last token taken. -/
def spanFrom (start : Span) : Reader Span := fun _ c =>
  .done ⟨start.start, max c.lastStop start.stop⟩ c

/-- The next token is the given sign. -/
def at? (sign : Sign) : Reader Bool := do
  return (← peek) = some (.sign sign)

/-- Takes a sign that has to be there. -/
def sign (sign : Sign) : Reader Unit := do
  if ← at? sign then skip else expected (.sign sign)

/-- Takes a name that has to be there. -/
def name : Reader String := do
  match ← peek with
  | some (.name name) => do
    skip
    return name
  | _ => expected .identifier

end Reader

end BraceScript

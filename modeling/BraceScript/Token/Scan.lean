-- Cutting a source text into tokens. At each place the longest piece that
-- means something is taken: blanks and comments are dropped, everything
-- else becomes a token or, where no token begins, a mistake. Scanning goes
-- on behind a mistake, so a text always has a complete list of items.
import BraceScript.Diagnostic
import BraceScript.Number.Reading
import BraceScript.Token
import BraceScript.Token.Restricted

namespace BraceScript

/-! ## Mistakes -/

/-- Why no token begins at some place. -/
inductive LexicalError.Cause where
  | unexpected (c : Char)
  | unterminated (quote : Char)
  | restricted (word hint : String)
deriving DecidableEq

/-- A mistake and the stretch of text that it takes up. -/
structure LexicalError where
  cause : LexicalError.Cause
  span : Span
deriving DecidableEq

def LexicalError.Cause.code : LexicalError.Cause → Code
  | .unexpected _ => .unexpectedCharacter
  | .unterminated _ => .unterminatedText
  | .restricted .. => .restrictedWord

def LexicalError.Cause.message : LexicalError.Cause → String
  | .unexpected c => "unexpected character `" ++ c.toString ++ "`"
  | .unterminated quote =>
    "unterminated string literal (missing closing " ++ quote.toString ++ ")"
  | .restricted word _ => "`" ++ word ++ "` is a restricted word and cannot be used"

def LexicalError.diagnostic (e : LexicalError) : Diagnostic where
  code := e.cause.code
  message := e.cause.message
  span := some e.span
  notes :=
    match e.cause with
    | .unterminated _ => ["strings run to the matching quote and may span lines"]
    | _ => []
  help :=
    match e.cause with
    | .restricted _ hint => [hint]
    | _ => []

/-! ## Characters -/

/-- Blanks and semicolons stand between tokens and mean nothing. -/
def isFiller (c : Char) : Bool :=
  c == ' ' || c == '\t' || c == '\r' || c == '\n' || c == ';'

/-- A letter or an underscore. -/
def beginsWord (c : Char) : Bool :=
  ('a' ≤ c && c ≤ 'z') || ('A' ≤ c && c ≤ 'Z') || c == '_'

def continuesWord (c : Char) : Bool := beginsWord c || Number.isDigit c

/-- The three quotes that may enclose a text. -/
def isQuote (c : Char) : Bool := c == '"' || c == '\x27' || c == '\x60'

/-! ## The piece at the front of a text -/

/-- What a piece of text means. -/
inductive Piece where
  | filler
  | token (kind : Token.Kind)
  | mistake (cause : LexicalError.Cause)

/-- A piece cut off the front of a text. -/
structure Cut where
  piece : Piece
  taken : List Char
  rest : List Char

/-- A whole word is a truth value, a keyword, a refused word or a name. -/
def classifyWord (word : String) : Piece :=
  if word = "true" then .token (.boolean true)
  else if word = "false" then .token (.boolean false)
  else
    match Keyword.ofWord? word with
    | some k => .token (.keyword k)
    | none =>
      match restrictedHint? word with
      | some hint => .mistake (.restricted word hint)
      | none => .token (.name word)

def cutWord (cs : List Char) : Cut where
  piece := classifyWord (String.ofList (cs.takeWhile continuesWord))
  taken := cs.takeWhile continuesWord
  rest := cs.dropWhile continuesWord

/-- Digits, and a point with perhaps more digits if one follows. -/
def cutNumber (cs : List Char) : Cut :=
  let whole := cs.takeWhile Number.isDigit
  match cs.dropWhile Number.isDigit with
  | '.' :: rest =>
    let fraction := rest.takeWhile Number.isDigit
    { piece := .token (.number (Number.ofDigits whole fraction))
      taken := whole ++ '.' :: fraction
      rest := rest.dropWhile Number.isDigit }
  | rest =>
    { piece := .token (.number (Number.ofDigits whole []))
      taken := whole
      rest }

/-- Everything behind an opening quote up to the same quote; without one
the text has no end. -/
def cutText (quote : Char) (cs : List Char) : Cut :=
  let body := cs.takeWhile (· != quote)
  match cs.dropWhile (· != quote) with
  | _ :: rest =>
    { piece := .token (.text (String.ofList body))
      taken := quote :: body ++ [quote]
      rest }
  | [] => { piece := .mistake (.unterminated quote), taken := quote :: body, rest := [] }

/-- A comment runs to the end of its line. -/
def cutComment (cs : List Char) : Cut where
  piece := .filler
  taken := cs.takeWhile (· != '\n')
  rest := cs.dropWhile (· != '\n')

/-- The longest sign that begins a text; without one its first character
has no place there. -/
def cutSign (c : Char) (cs : List Char) : Cut :=
  match Sign.all.find? fun s => s.chars.isPrefixOf (c :: cs) with
  | some s =>
    { piece := .token (.sign s)
      taken := s.chars
      rest := (c :: cs).drop s.chars.length }
  | none => { piece := .mistake (.unexpected c), taken := [c], rest := cs }

/-- The piece at the front of a text that begins with `c`. -/
def cut (c : Char) (cs : List Char) : Cut :=
  if isFiller c then { piece := .filler, taken := [c], rest := cs }
  else if Number.isDigit c then cutNumber (c :: cs)
  else if beginsWord c then cutWord (c :: cs)
  else if isQuote c then cutText c cs
  else if c == '/' && cs.head? == some '/' then cutComment (c :: cs)
  else cutSign c cs

/-! ## Nothing is lost -/

theorem cutSign_taken_append_rest (c : Char) (cs : List Char) :
    (cutSign c cs).taken ++ (cutSign c cs).rest = c :: cs := by
  unfold cutSign
  split
  · rename_i s h
    have begins : s.chars.isPrefixOf (c :: cs) = true := by simpa using List.find?_some h
    obtain ⟨t, ht⟩ := List.isPrefixOf_iff_prefix.1 begins
    simp [← ht]
  · rfl

theorem cutText_taken_append_rest (c : Char) (cs : List Char) :
    (cutText c cs).taken ++ (cutText c cs).rest = c :: cs := by
  have whole := List.takeWhile_append_dropWhile (p := (· != c)) (l := cs)
  unfold cutText
  split
  · rename_i d rest h
    have hd : (d != c) = false := by
      have := List.head_dropWhile_not (· != c) (l := cs) (by simp [h])
      simpa [h] using this
    have : d = c := by simpa using hd
    subst this
    rw [h] at whole
    simpa using whole
  · rename_i h
    rw [h] at whole
    simpa using whole

theorem cutNumber_taken_append_rest (cs : List Char) :
    (cutNumber cs).taken ++ (cutNumber cs).rest = cs := by
  have whole := List.takeWhile_append_dropWhile (p := Number.isDigit) (l := cs)
  unfold cutNumber
  split
  · rename_i rest h
    rw [h] at whole
    simpa using whole
  · exact whole

/-- The piece and what is behind it make up the text. -/
theorem cut_taken_append_rest (c : Char) (cs : List Char) :
    (cut c cs).taken ++ (cut c cs).rest = c :: cs := by
  unfold cut
  split
  · rfl
  · split
    · exact cutNumber_taken_append_rest _
    · split
      · exact List.takeWhile_append_dropWhile
      · split
        · exact cutText_taken_append_rest c cs
        · split
          · exact List.takeWhile_append_dropWhile
          · exact cutSign_taken_append_rest c cs

theorem Sign.chars_ne_nil (s : Sign) : s.chars ≠ [] := by
  cases s <;> simp [chars]

/-- No piece is empty. -/
theorem cut_taken_ne_nil (c : Char) (cs : List Char) : (cut c cs).taken ≠ [] := by
  unfold cut
  split
  · simp
  · split
    · rename_i h
      simp only [cutNumber, List.takeWhile_cons, h]
      split <;> simp
    · split
      · rename_i h
        simp [cutWord, continuesWord, h]
      · split
        · unfold cutText
          split <;> simp
        · split
          · rename_i h
            have : c = '/' := by
              simp only [Bool.and_eq_true, beq_iff_eq] at h
              exact h.1
            simp [cutComment, this]
          · unfold cutSign
            split
            · exact Sign.chars_ne_nil _
            · simp

theorem cut_rest_length_lt (c : Char) (cs : List Char) :
    (cut c cs).rest.length < (c :: cs).length := by
  have whole := congrArg List.length (cut_taken_append_rest c cs)
  have := List.length_pos_iff.2 (cut_taken_ne_nil c cs)
  simp only [List.length_append] at whole
  omega

/-! ## A whole text -/

/-- A token, or a mistake in its place. -/
inductive Item where
  | token (token : Token)
  | mistake (error : LexicalError)
deriving DecidableEq

/-- The items of a text that begins at byte `offset` of the source, each with the range of
bytes that it was found in. -/
def scanFrom (offset : Nat) : List Char → List Item
  | [] => []
  | c :: cs =>
    let front := cut c cs
    let stop := offset + byteLength front.taken
    match front.piece with
    | .filler => scanFrom stop front.rest
    | .token kind => .token ⟨kind, ⟨offset, stop⟩⟩ :: scanFrom stop front.rest
    | .mistake cause => .mistake ⟨cause, ⟨offset, stop⟩⟩ :: scanFrom stop front.rest
termination_by cs => cs.length
decreasing_by all_goals exact cut_rest_length_lt c cs

/-- An item with the span of its range of bytes. -/
def Item.clamp : Item → Item
  | .token t => .token { t with span := .clamped t.span.start t.span.stop }
  | .mistake e => .mistake { e with span := .clamped e.span.start e.span.stop }

/-- All items of a source text, in order. -/
def scan (source : String) : List Item := (scanFrom 0 source.toList).map Item.clamp

/-- The tokens before the first mistake, and the mistake. -/
def untilMistake : List Item → List Token × Option LexicalError
  | [] => ([], none)
  | .token t :: items =>
    let (tokens, error) := untilMistake items
    (t :: tokens, error)
  | .mistake e :: _ => ([], some e)

/-- The tokens of a source text, or its first mistake. -/
def tokens (source : String) : Except LexicalError (List Token) :=
  match untilMistake (scan source) with
  | (tokens, none) => .ok tokens
  | (_, some e) => .error e

end BraceScript

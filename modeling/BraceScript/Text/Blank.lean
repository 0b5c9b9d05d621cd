-- Blank characters, and the two things done with them: cutting them off
-- both ends of a text, and splitting a text into the words between them.

namespace BraceScript.Text

/-- The characters that separate words: tab to carriage return, the space,
the next-line character, and the spaces and separators beyond Latin-1. -/
def isBlank (c : Char) : Bool :=
  let n := c.toNat
  (9 ≤ n && n ≤ 13) || n == 0x20 || n == 0x85 || n == 0xa0 || n == 0x1680 ||
    (0x2000 ≤ n && n ≤ 0x200a) || n == 0x2028 || n == 0x2029 || n == 0x202f ||
    n == 0x205f || n == 0x3000

/-! ## Both ends of a text -/

/-- A text without the blanks before its first and after its last other
character. -/
def trim (text : String) : String :=
  String.ofList ((text.toList.dropWhile isBlank).reverse.dropWhile isBlank).reverse

/-! ## The words of a text -/

/-- Puts one more character in front of a text that is already split: a
blank opens a new piece, any other character joins the first piece. -/
def joinPiece (c : Char) : List (List Char) → List (List Char)
  | [] => if isBlank c then [[], []] else [[c]]
  | piece :: pieces => if isBlank c then [] :: piece :: pieces else (c :: piece) :: pieces

/-- The pieces between blanks, empty ones included. -/
def pieces (cs : List Char) : List (List Char) :=
  cs.foldr joinPiece [[]]

/-- The words of a text: its longest stretches without a blank. -/
def words (cs : List Char) : List (List Char) :=
  (pieces cs).filter (!·.isEmpty)

theorem pieces_nil : pieces [] = [[]] := rfl

theorem pieces_cons (c : Char) (cs : List Char) : pieces (c :: cs) = joinPiece c (pieces cs) := rfl

theorem words_ne_nil {cs w : List Char} (h : w ∈ words cs) : w ≠ [] := by
  simpa [words] using (List.mem_filter.1 h).2

end BraceScript.Text

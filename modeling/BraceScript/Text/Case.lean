-- Capital and small letters of a whole text. A letter may become several
-- (a sharp s becomes two letters), and a capital sigma becomes one of two
-- small letters: a special one at the end of a word.
import BraceScript.Text.CaseTable

namespace BraceScript.Text

/-- The code point lies in one of the ranges, ends included. -/
def inRanges (n : Nat) (ranges : List (Nat × Nat)) : Bool :=
  ranges.any fun range => range.1 ≤ n && n ≤ range.2

/-- The code point is one of those that the run names. -/
def CaseRun.covers (run : CaseRun) (n : Nat) : Bool :=
  run.first ≤ n && n ≤ run.last && (n - run.first) % run.step == 0

/-- The partner of a code point that the run covers. -/
def CaseRun.partner (run : CaseRun) (n : Nat) : Char :=
  Char.ofNat (n + run.shift).toNat

/-- What the tables put in place of one character beyond ASCII: a listed
sequence first, then the partner in the run that covers it, then itself. -/
def mapped (runs : List CaseRun) (sequences : List (Nat × List Nat)) (c : Char) : List Char :=
  match sequences.find? fun entry => entry.1 == c.toNat with
  | some entry => entry.2.map Char.ofNat
  | none =>
    match runs.find? fun run => run.covers c.toNat with
    | some run => [run.partner c.toNat]
    | none => [c]

/-! ## Capital letters -/

/-- The capital form of one character. -/
def capital (c : Char) : List Char :=
  if c.toNat < 0x80 then [c.toUpper] else mapped capitalRuns capitalSequences c

/-- A text in capital letters. -/
def uppercase (text : String) : String :=
  String.ofList (text.toList.flatMap capital)

/-! ## Small letters -/

/-- The small form of one character, wherever it stands. -/
def small (c : Char) : List Char :=
  if c.toNat < 0x80 then [c.toLower] else mapped smallRuns smallSequences c

/-- The first character that is not passed over has a case. -/
def meetsCased (cs : List Char) : Bool :=
  match cs.dropWhile fun c => inRanges c.toNat caseIgnorableRanges with
  | c :: _ => inRanges c.toNat casedRanges
  | [] => false

/-- The small form of a character between what stands before it, nearest
first, and what follows it. A capital sigma takes its final form where a
letter stands before it and none after it. -/
def smallAt (before : List Char) (c : Char) (after : List Char) : List Char :=
  if c.toNat == 0x3a3 then
    [Char.ofNat (if meetsCased before && !meetsCased after then 0x3c2 else 0x3c3)]
  else small c

/-- Goes through a text with what lies behind and the result so far, both
nearest first. -/
def smallLetters (before result : List Char) : List Char → List Char
  | [] => result.reverse
  | c :: after => smallLetters (c :: before) ((smallAt before c after).reverse ++ result) after

/-- A text in small letters. -/
def lowercase (text : String) : String :=
  String.ofList (smallLetters [] [] text.toList)

end BraceScript.Text

-- A text as it is written between double quotes in listings and error
-- messages: on one line, with every character that cannot be seen written
-- out by name or number.
import BraceScript.Text.Case
import BraceScript.Text.UnprintableTable

namespace BraceScript.Text

/-- The character shows nothing of its own when it is printed. -/
def isUnprintable (c : Char) : Bool :=
  if c.toNat < 0x80 then c.toNat < 0x20 || c.toNat == 0x7f
  else inRanges c.toNat unprintableRanges

/-- A code point in lower-case hexadecimal between braces. -/
def codePoint (c : Char) : String :=
  "\\u\x7b" ++ String.ofList (Nat.toDigits 16 c.toNat) ++ "\x7d"

/-- One character between the quotes. -/
def quotedChar (c : Char) : String :=
  if c == '"' then "\\\""
  else if c == '\\' then "\\\\"
  else if c == '\n' then "\\n"
  else if c == '\r' then "\\r"
  else if c == '\t' then "\\t"
  else if c.toNat == 0 then "\\0"
  else if isUnprintable c then codePoint c
  else c.toString

/-- A text between double quotes. -/
def quoted (text : String) : String :=
  text.foldl (fun written c => written ++ quotedChar c) "\"" ++ "\""

end BraceScript.Text

-- JSON documents and their text. The members of an object are checked when
-- a text is read but not kept, for no value of the language has members.
import BraceScript.Number.Layout
import BraceScript.Number.Reading

namespace BraceScript

/-- A JSON document. -/
inductive Json where
  | null
  | boolean (value : Bool)
  | number (value : Float)
  | text (value : String)
  | array (items : List Json)
  | object

namespace Json

/-! ## Numbers -/

/-- Numbers in documents: without an exponent while the point stands at most
sixteen places behind the first digit or four places before it. -/
def numberLayout : Number.Layout where
  tie := .toEven
  positional := fun point => -5 < point && point ≤ 16
  pointZero := true
  plusSign := true
  zero := "0"
  negativeZero := "0"
  infinity := "null"
  negativeInfinity := "null"
  nan := "null"

/-- The largest whole number up to which every whole number is a double. -/
def largestSafe : Nat := 9007199254740991

/-- A number in a document. Safe whole numbers are written as such, and what
is not finite as `null`. -/
def writeNumber (x : Float) : String :=
  match Number.toInt? x with
  | some n => if n.natAbs ≤ largestSafe then toString n else numberLayout.write x
  | none => numberLayout.write x

/-! ## Texts -/

/-- One character of a text in a document. -/
def escaped (c : Char) : String :=
  if c == '"' then "\\\""
  else if c == '\\' then "\\\\"
  else if c == '\n' then "\\n"
  else if c == '\r' then "\\r"
  else if c == '\t' then "\\t"
  else if c.toNat == 8 then "\\b"
  else if c.toNat == 12 then "\\f"
  else if c.toNat < 32 then
    "\\u00" ++ String.ofList [Nat.digitChar (c.toNat / 16), Nat.digitChar (c.toNat % 16)]
  else c.toString

/-- A text in a document, behind what is already written. -/
def textOnto (out text : String) : String :=
  text.foldl (fun out c => out ++ escaped c) (out ++ "\"") ++ "\""

/-! ## Documents -/

mutual

/-- The text of a document, behind what is already written. -/
def writeOnto (out : String) : Json → String
  | .null => out ++ "null"
  | .boolean b => out ++ (if b then "true" else "false")
  | .number x => out ++ writeNumber x
  | .text s => textOnto out s
  | .array items => writeItemsOnto (out ++ "[") "" items ++ "]"
  | .object => out ++ "\x7b\x7d"

/-- Documents with commas between them. -/
def writeItemsOnto (out between : String) : List Json → String
  | [] => out
  | item :: items => writeItemsOnto (writeOnto (out ++ between) item) "," items

end

/-- The text of a document, without blanks. -/
def write (j : Json) : String := writeOnto "" j

end Json

end BraceScript

-- The functions of one number and of one text that are written as keywords.
import BraceScript.Fault
import BraceScript.Number.Arithmetic
import BraceScript.Text.Blank
import BraceScript.Text.Case

namespace BraceScript

/-! ## Functions of a number -/

def MathFunction.compute : MathFunction → Float → Float
  | .floor => Number.floor
  | .round => Number.round
  | .sqrt => Float.sqrt
  | .sin => Float.sin
  | .cos => Float.cos
  | .tan => Float.tan

def MathFunction.apply (function : MathFunction) : Value → Except Fault.Cause Value
  | .number x => .ok (.number (function.compute x))
  | v => .error (.wrongKind ("`" ++ function.keyword ++ "`") "a number" v.kind)

/-! ## Functions of a text -/

/-- The marks of ASCII: everything visible but letters, digits and the space. -/
def isPunctuation (c : Char) : Bool :=
  ('!' ≤ c && c ≤ '/') || (':' ≤ c && c ≤ '@') || ('[' ≤ c && c ≤ '\x60') ||
    ('{' ≤ c && c ≤ '~')

/-- The words of a text, after its punctuation has been taken out. -/
def splitWords (text : String) : List String :=
  (Text.words (text.toList.filter (!isPunctuation ·))).map String.ofList

/-- The value of a function of a text; the words become a new array. -/
def TextFunction.compute (h : Heap) (text : String) : TextFunction → Value × Heap
  | .tokenize =>
    let (handle, h) := h.alloc ((splitWords text).map .text)
    (.array handle, h)
  | .uppercase => (.text (Text.uppercase text), h)
  | .lowercase => (.text (Text.lowercase text), h)
  | .reverse => (.text (String.ofList text.toList.reverse), h)

/-- Numbers are taken as they are shown. -/
def TextFunction.apply (h : Heap) (function : TextFunction) :
    Value → Except Fault.Cause (Value × Heap)
  | .text s => .ok (function.compute h s)
  | .number x => .ok (function.compute h (numberText x))
  | v => .error (.wrongKind ("`" ++ function.keyword ++ "`") "a string or number" v.kind)

end BraceScript

-- Values as JSON documents: what `tojson` writes, what `parjson` reads, and
-- the text that `show` prints for arrays.
import BraceScript.Json.Read
import BraceScript.Value

namespace BraceScript

/-- Why a value has no document, or a text no value. -/
inductive JsonTrouble where
  | malformed (error : Json.Error)
  | hasObject
  | containsItself
deriving DecidableEq

def JsonTrouble.message : JsonTrouble → String
  | .malformed e => e.message
  | .hasObject => "JSON objects have no value equivalent"
  | .containsItself => "cannot encode an array that contains itself"

namespace Heap

/-! ## From values to documents -/

/-- The document of a value. `entered` holds the arrays that contain it, and
`mark` stands in for an array that contains itself; without a mark such an
array has no document. The number bounds how deep arrays are entered. -/
def documentWithin (h : Heap) (mark : Option Json) : Nat → List Nat → Value → Option Json
  | 0, _, _ => none
  | depth + 1, entered, v =>
    match v with
    | .number x => some (.number x)
    | .text s => some (.text s)
    | .boolean b => some (.boolean b)
    | .void => some .null
    | .array handle =>
      if entered.contains handle then mark
      else
        ((h.items handle).toList.mapM
          (documentWithin h mark depth (handle :: entered))).map .array

/-- No array can be entered twice, so one level more than there are arrays
is deep enough. -/
def document (h : Heap) (mark : Option Json) (v : Value) : Option Json :=
  h.documentWithin mark (h.size + 2) [] v

/-- The JSON text of a value. -/
def toJson (h : Heap) (v : Value) : Except JsonTrouble String :=
  match h.document none v with
  | some j => .ok j.write
  | none => .error .containsItself

/-- What stands for an array inside of itself. -/
def selfMark : Json := .text "[...]"

/-- The JSON text of a value, with a mark where an array contains itself. -/
def rendered (h : Heap) (v : Value) : String :=
  match h.document (some selfMark) v with
  | some j => j.write
  | none => ""

/-- The text that is shown for a value: texts as they are, and arrays as
JSON. -/
def shown (h : Heap) : Value → String
  | .number x => numberText x
  | .text s => s
  | .boolean b => if b then "true" else "false"
  | .void => "void"
  | .array handle => h.rendered (.array handle)

end Heap

/-! ## From documents to values -/

mutual

/-- The value of a document; every array in it is a new one. An object has
no value. -/
def Json.value? (h : Heap) : Json → Option (Value × Heap)
  | .null => some (.void, h)
  | .boolean b => some (.boolean b, h)
  | .number x => some (.number x, h)
  | .text s => some (.text s, h)
  | .array items =>
    match Json.values? h items with
    | some (values, h) =>
      let (handle, h) := h.alloc values
      some (.array handle, h)
    | none => none
  | .object => none

/-- The values of several documents, one after the other. -/
def Json.values? (h : Heap) : List Json → Option (List Value × Heap)
  | [] => some ([], h)
  | item :: items =>
    match Json.value? h item with
    | some (v, h) =>
      match Json.values? h items with
      | some (vs, h) => some (v :: vs, h)
      | none => none
    | none => none

end

/-- The value that a JSON text stands for. The text is read to its end
before the values are made. -/
def Heap.ofJson (h : Heap) (text : String) : Except JsonTrouble (Value × Heap) :=
  match Json.read text with
  | .error e => .error (.malformed e)
  | .ok j =>
    match j.value? h with
    | some r => .ok r
    | none => .error .hasObject

end BraceScript

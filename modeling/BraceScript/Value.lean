-- The values of the language, and the heap that holds the arrays. An array
-- value is only a handle: all values with the same handle share one array,
-- so a change through one of them is seen through all.
import BraceScript.Number.Layout

namespace BraceScript

/-- A value. Two array values with one handle are the same array. -/
inductive Value where
  | number (value : Float)
  | text (value : String)
  | boolean (value : Bool)
  | array (handle : Nat)
  | void
deriving DecidableEq, Inhabited

/-- What kind of value it is, as messages say it. -/
def Value.kind : Value → String
  | .number _ => "number"
  | .text _ => "string"
  | .boolean _ => "boolean"
  | .array _ => "array"
  | .void => "void"

/-! ## The heap -/

/-- The arrays made so far; a handle is a place in the list of them. -/
structure Heap where
  arrays : Array (Array Value)
deriving Inhabited

namespace Heap

def empty : Heap := ⟨#[]⟩

/-- The number of arrays. -/
def size (h : Heap) : Nat := h.arrays.size

/-- The elements of an array. -/
def items (h : Heap) (handle : Nat) : Array Value := h.arrays.getD handle #[]

/-- The number of elements of an array. -/
def lengthOf (h : Heap) (handle : Nat) : Nat := (h.items handle).size

/-- A new array, with the next handle. -/
def alloc (h : Heap) (items : List Value) : Nat × Heap :=
  (h.arrays.size, ⟨h.arrays.push items.toArray⟩)

/-- Puts a value behind the last element. -/
def push (h : Heap) (handle : Nat) (value : Value) : Heap :=
  ⟨h.arrays.modify handle (·.push value)⟩

/-- Takes out the element at a position; the later ones move up. -/
def eraseAt (h : Heap) (handle position : Nat) : Heap :=
  ⟨h.arrays.modify handle (·.eraseIdxIfInBounds position)⟩

/-! ### What each change does to the elements -/

theorem items_alloc (h : Heap) (items : List Value) (handle : Nat) :
    (h.alloc items).2.items handle =
      if handle = (h.alloc items).1 then items.toArray else h.items handle := by
  simp only [alloc, Heap.items, Array.getD_eq_getD_getElem?, Array.getElem?_push]
  split <;> rfl

theorem items_push_self (h : Heap) {handle : Nat} (bound : handle < h.size) (value : Value) :
    (h.push handle value).items handle = (h.items handle).push value := by
  simp only [size] at bound
  simp [push, Heap.items, Array.getD_eq_getD_getElem?, bound, Array.getElem_modify_self]

theorem items_push_of_ne (h : Heap) {handle other : Nat} (ne : other ≠ handle) (value : Value) :
    (h.push handle value).items other = h.items other := by
  simp [push, Heap.items, Array.getD_eq_getD_getElem?, Array.getElem?_modify, ne.symm]

theorem items_eraseAt_self (h : Heap) (handle position : Nat) :
    (h.eraseAt handle position).items handle =
      (h.items handle).eraseIdxIfInBounds position := by
  simp only [eraseAt, Heap.items, Array.getD_eq_getD_getElem?, Array.getElem?_modify, if_true]
  cases h.arrays[handle]? <;> simp [Array.eraseIdxIfInBounds]

theorem items_eraseAt_of_ne (h : Heap) {handle other : Nat} (ne : other ≠ handle)
    (position : Nat) : (h.eraseAt handle position).items other = h.items other := by
  simp [eraseAt, Heap.items, Array.getD_eq_getD_getElem?, Array.getElem?_modify, ne.symm]

end Heap

/-! ## Truth -/

/-- Zero, the number that is none, the empty text, the empty array, `false`
and `void` count as false; everything else counts as true. -/
def Value.isTruthy (h : Heap) : Value → Bool
  | .number x => x != 0.0 && !x.isNaN
  | .text s => !s.isEmpty
  | .boolean b => b
  | .array handle => h.lengthOf handle != 0
  | .void => false

/-! ## Numbers as text -/

/-- Numbers as programs show them: never with an exponent, and with one zero. -/
def shownLayout : Number.Layout where
  tie := .up
  positional := fun _ => true
  pointZero := false
  plusSign := false
  zero := "0"
  negativeZero := "0"
  infinity := "Infinity"
  negativeInfinity := "-Infinity"
  nan := "NaN"

/-- The text of a number. -/
def numberText (x : Float) : String := shownLayout.write x

end BraceScript

-- The values of expressions. How the parts of an expression are evaluated is
-- a parameter here, so each form can be looked at by itself.
import BraceScript.Builtin
import BraceScript.Operator
import BraceScript.Run.Machine

namespace BraceScript

/-- How a statement ended: at its end, or with a `return`. -/
inductive Flow where
  | normal
  | returned (value : Value)
deriving DecidableEq

/-- What the parts of an expression or statement do. -/
structure Evaluator where
  expr : Expr → Exec Value
  stmt : Stmt → Exec Flow

namespace Evaluator

/-! ## Lists of parts -/

/-- The values of expressions, from left to right. -/
def all (ev : Evaluator) : List Expr → Exec (List Value)
  | [] => return []
  | e :: es => do
    let v ← ev.expr e
    let vs ← ev.all es
    return v :: vs

/-- Statements one after the other, up to the first `return`. -/
def block (ev : Evaluator) : List Stmt → Exec Flow
  | [] => return .normal
  | s :: ss => do
    match ← ev.stmt s with
    | .normal => ev.block ss
    | .returned v => return .returned v

/-- Whether an expression counts as true. -/
def holds (ev : Evaluator) (e : Expr) : Exec Bool := do
  let v ← ev.expr e
  return v.isTruthy (← Exec.get).heap

end Evaluator

/-! ## Named arrays -/

/-- The handle of the array that a variable holds. -/
def namedArray (name : String) : Exec Nat := do
  match (← Exec.get).env.lookup name with
  | some (.array handle) => return handle
  | some v => Exec.fail (.notAnArray name v.kind)
  | none => Exec.fail (.undefinedVariable name)

/-- The place in an array of `length` elements that a value names: a whole
number, not below zero, and less than the length. -/
def checkIndex (array : String) (length : Nat) : Value → Except Fault.Cause Nat
  | .number x =>
    match Number.toInt? x with
    | some (.ofNat n) => if n < length then .ok n else .error (.outOfBounds array x length)
    | _ => .error (.outOfBounds array x length)
  | v => .error (.nonNumericIndex v.kind)

/-- The place of the element that a key removes: that of the index, or the
first one that equals the text. -/
def keyPlace (h : Heap) (array : String) (handle : Nat) (key : Value) :
    Except Fault.Cause Nat :=
  match key with
  | .text s =>
    match (h.items handle).toList.findIdx? fun item => h.strictEq item key with
    | some place => .ok place
    | none => .error (.notFound array s)
  | key => checkIndex array (h.lengthOf handle) key

/-- The element of an array at an index. -/
def elementAt (array : String) (handle : Nat) (index : Value) : Exec Value := do
  let h := (← Exec.get).heap
  let place ← Exec.ofExcept (checkIndex array (h.lengthOf handle) index)
  return (h.items handle).getD place .void

/-- Puts a value behind the last element, and tells the new length. -/
def pushElement (handle : Nat) (value : Value) : Exec Value := do
  Exec.modify fun st => { st with heap := st.heap.push handle value }
  return .number (Number.ofInt ((← Exec.get).heap.lengthOf handle))

/-- Takes the element that a key names out of an array. -/
def removeElement (array : String) (handle : Nat) (key : Value) : Exec Value := do
  let h := (← Exec.get).heap
  let place ← Exec.ofExcept (keyPlace h array handle key)
  Exec.modify fun st => { st with heap := st.heap.eraseAt handle place }
  return (h.items handle).getD place .void

/-! ## Calls -/

/-- The frame of a call: each parameter with its argument, and `void` for
the parameters that are left over. -/
def callFrame : List String → List Value → Scope → Except Fault.Cause Scope
  | [], _, frame => .ok frame
  | param :: params, arguments, frame =>
    if param = everyName then .error (.reserved .parameter)
    else callFrame params arguments.tail (frame.define param (arguments.headD .void) false)

/-- A call. The arguments are evaluated where the call stands; the body sees
its own frame and the globals. -/
def call (ev : Evaluator) (name : String) (arguments : List Expr) : Exec Value := do
  match (← Exec.get).env.function? name with
  | none => Exec.fail (.undefinedFunction name)
  | some f =>
    if f.params.length < arguments.length then
      Exec.fail (.arity name f.params.length arguments.length)
    else
      let values ← ev.all arguments
      let frame ← Exec.ofExcept (callFrame f.params values Scope.empty)
      match ← Exec.withFrame frame (ev.block f.body) with
      | .normal => return .void
      | .returned v => return v

/-! ## Operators and keywords -/

/-- The value of a binary operator. The second operand of `&&` and `||` is
evaluated only if the first one does not settle the matter. -/
def binary (ev : Evaluator) (op : BinaryOperator) (left right : Expr) : Exec Value :=
  match op with
  | .and => do
    if ← ev.holds left then return .boolean (← ev.holds right)
    else return .boolean false
  | .or => do
    if ← ev.holds left then return .boolean true
    else return .boolean (← ev.holds right)
  | op => do
    let a ← ev.expr left
    let b ← ev.expr right
    Exec.ofExcept (op.apply (← Exec.get).heap a b)

/-- The text of the file that an expression names. -/
def readText (host : Host) (ev : Evaluator) (path : Expr) : Exec Value := do
  match ← ev.expr path with
  | .text name => do
    let text ← host.readFile name (host.resolve (← Exec.get).includes name)
    return .text text
  | v => Exec.fail (.wrongKind "`read`" "a string path" v.kind)

/-- The value that a JSON text stands for. -/
def parseJson : Value → Exec Value
  | .text text => fun st =>
    match st.heap.ofJson text with
    | .ok (v, heap) => .ok v { st with heap }
    | .error trouble => .failed { cause := .json trouble } st
  | v => Exec.fail (.wrongKind "`parjson`" "a string" v.kind)

/-- A function of a text, which may make a new array. -/
def textual (function : TextFunction) (v : Value) : Exec Value := fun st =>
  match function.apply st.heap v with
  | .ok (v, heap) => .ok v { st with heap }
  | .error cause => .failed { cause } st

/-! ## All forms -/

/-- The value of an expression, given what its parts do. -/
def valueOf (host : Host) (ev : Evaluator) : ExprForm → Exec Value
  | .number x => return .number x
  | .text s => return .text s
  | .boolean b => return .boolean b
  | .void => return .void
  | .name name => do
    match (← Exec.get).env.lookup name with
    | some v => return v
    | none => Exec.fail (.undefinedVariable name)
  | .array items => do
    let values ← ev.all items
    Exec.newArray values
  | .binary op left right => binary ev op left right
  | .unary op operand => do
    let v ← ev.expr operand
    Exec.ofExcept (op.apply (← Exec.get).heap v)
  | .call function arguments => call ev function arguments
  | .index array index => do
    let handle ← namedArray array
    let i ← ev.expr index
    elementAt array handle i
  | .read path => readText host ev path
  | .append array value => do
    let handle ← namedArray array
    let v ← ev.expr value
    pushElement handle v
  | .remove array key => do
    let handle ← namedArray array
    let v ← ev.expr key
    removeElement array handle v
  | .size array => do
    let handle ← namedArray array
    return .number (Number.ofInt ((← Exec.get).heap.lengthOf handle))
  | .toJson value => do
    let v ← ev.expr value
    match (← Exec.get).heap.toJson v with
    | .ok text => return .text text
    | .error trouble => Exec.fail (.json trouble)
  | .parseJson text => do
    let v ← ev.expr text
    parseJson v
  | .math function argument => do
    let v ← ev.expr argument
    Exec.ofExcept (function.apply v)
  | .textual function argument => do
    let v ← ev.expr argument
    textual function v

end BraceScript

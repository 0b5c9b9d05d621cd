-- What the operators do to values. The two that may leave out their second
-- operand are settled where expressions are evaluated; here they see both.
import BraceScript.Fault
import BraceScript.Number.Arithmetic
import BraceScript.Value.Equality

namespace BraceScript

namespace BinaryOperator

/-- The operands do not fit the operator. -/
def mismatch (op : BinaryOperator) (a b : Value) : Except Fault.Cause Value :=
  .error (.wrongOperands op a.kind b.kind)

/-- Two numbers are added; a text next to anything but `void` is joined with
the shown form of the other side. -/
def addition (h : Heap) (a b : Value) : Except Fault.Cause Value :=
  match a, b with
  | .number x, .number y => .ok (.number (x + y))
  | .void, _ | _, .void => mismatch .add a b
  | .text _, _ | _, .text _ => .ok (.text (h.shown a ++ h.shown b))
  | _, _ => mismatch .add a b

/-- An operator that takes two numbers to a number. -/
def arithmetic (op : BinaryOperator) (f : Float → Float → Float) (a b : Value) :
    Except Fault.Cause Value :=
  match a, b with
  | .number x, .number y => .ok (.number (f x y))
  | _, _ => mismatch op a b

/-- An order between two numbers or between two texts. -/
def comparison (op : BinaryOperator) (numbers : Float → Float → Bool)
    (texts : String → String → Bool) (a b : Value) : Except Fault.Cause Value :=
  match a, b with
  | .number x, .number y => .ok (.boolean (numbers x y))
  | .text s, .text t => .ok (.boolean (texts s t))
  | _, _ => mismatch op a b

/-- The value of an operator between two values. -/
def apply (h : Heap) (op : BinaryOperator) (a b : Value) : Except Fault.Cause Value :=
  match op with
  | .eq => .ok (.boolean (h.looseEq a b))
  | .notEq => .ok (.boolean (!h.looseEq a b))
  | .strictEq => .ok (.boolean (h.strictEq a b))
  | .strictNotEq => .ok (.boolean (!h.strictEq a b))
  | .lt => comparison .lt (fun x y => x < y) (fun s t => s < t) a b
  | .ltEq => comparison .ltEq (fun x y => x ≤ y) (fun s t => !(t < s)) a b
  | .gt => comparison .gt (fun x y => y < x) (fun s t => t < s) a b
  | .gtEq => comparison .gtEq (fun x y => y ≤ x) (fun s t => !(s < t)) a b
  | .add => addition h a b
  | .sub => arithmetic .sub (· - ·) a b
  | .mul => arithmetic .mul (· * ·) a b
  | .div => arithmetic .div (· / ·) a b
  | .mod => arithmetic .mod Number.remainder a b
  | .pow => arithmetic .pow Float.pow a b
  | .bitXor => arithmetic .bitXor Number.xor a b
  | .and => .ok (.boolean (a.isTruthy h && b.isTruthy h))
  | .or => .ok (.boolean (a.isTruthy h || b.isTruthy h))

end BinaryOperator

/-- The value of an operator before a value. -/
def UnaryOperator.apply (h : Heap) (op : UnaryOperator) (a : Value) : Except Fault.Cause Value :=
  match op, a with
  | .not, a => .ok (.boolean (!a.isTruthy h))
  | .neg, .number x => .ok (.number (-x))
  | .neg, a => .error (.wrongOperand .neg a.kind)

end BraceScript

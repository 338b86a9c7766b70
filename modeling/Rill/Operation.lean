import Rill.Heap.Store
import Rill.Number.Whole

/-!
# Operators on values

What operators do with operands that are already values. Operators that decide by their left
operand alone have the same result here as when their right operand is left unevaluated.
-/

set_option autoImplicit false

namespace Rill

namespace Operation

def toWord (n : Int) : BitVec 64 := BitVec.ofInt 64 n

def ofWord (word : BitVec 64) : Value := .number (Number.ofInt word.toInt)

/-- The bitwise operators. A shift counts modulo sixty-four and keeps the sign to the right. -/
def bitwise (op : BinaryOp) (a b : Int) : Value :=
  let count := (toWord b).toNat % 64
  match op with
  | .bitAnd => ofWord (toWord a &&& toWord b)
  | .bitOr => ofWord (toWord a ||| toWord b)
  | .bitXor => ofWord (toWord a ^^^ toWord b)
  | .shiftLeft => ofWord (toWord a <<< count)
  | _ => ofWord ((toWord a).sshiftRight count)

/-- Numbers add, a text on either side joins, an array takes in the elements of another array or
one value. The result is always new. -/
def add (left right : Value) : Store Value := do
  match left, right with
  | .number a, .number b => return .number (a + b)
  | .text a, _ => return .text (a ++ (← Store.display right))
  | _, .text b => return .text ((← Store.display left) ++ b)
  | .array a, .array b => Store.newArray ((← Store.array a) ++ (← Store.array b))
  | .array a, _ => Store.newArray ((← Store.array a).push right)
  | _, _ => Store.mismatch (.binary .add left.type right.type)

/-- Arithmetic on two numbers. Zero divides nothing. -/
def arithmetic (op : BinaryOp) (a b : Float) : Store Value :=
  match op with
  | .sub => return .number (a - b)
  | .mul => return .number (a * b)
  | .div => if b == 0.0 then Store.fail .dividedByZero else return .number (a / b)
  | _ => if b == 0.0 then Store.fail .moduloZero else return .number (Number.remainder a b)

/-- Comparison of numbers; the undefined number compares with nothing. -/
def compareNumbers (op : BinaryOp) (a b : Float) : Bool :=
  match op with
  | .less => a < b
  | .lessEq => a ≤ b
  | .greater => b < a
  | _ => b ≤ a

def compareTexts (op : BinaryOp) (a b : String) : Bool :=
  match op with
  | .less => a < b
  | .lessEq => !(b < a : Bool)
  | .greater => b < a
  | _ => !(a < b : Bool)

def comparison (op : BinaryOp) (left right : Value) : Store Value :=
  match left, right with
  | .number a, .number b => return .bool (compareNumbers op a b)
  | .text a, .text b => return .bool (compareTexts op a b)
  | _, _ => Store.mismatch (.binary op left.type right.type)

/-- What an operator does with two numbers, where it takes only numbers. -/
def onNumbers (op : BinaryOp) (left right : Value) (f : Float → Float → Store Value) :
    Store Value :=
  match left, right with
  | .number a, .number b => f a b
  | _, _ => Store.mismatch (.binary op left.type right.type)

def binary (op : BinaryOp) (left right : Value) : Store Value :=
  match op with
  | .add => add left right
  | .sub | .mul | .div | .mod => onNumbers op left right (arithmetic op)
  | .eq => return .bool (left.same right)
  | .notEq => return .bool (!left.same right)
  | .less | .lessEq | .greater | .greaterEq => comparison op left right
  | .bitAnd | .bitOr | .bitXor | .shiftLeft | .shiftRight =>
      onNumbers op left right fun a b => return bitwise op (Number.toInt a) (Number.toInt b)
  | .and => return if left.isTruthy then right else left
  | .or => return if left.isTruthy then left else right
  | .coalesce => return if left.isNil then right else left
  | .pipe => Store.mismatch .pipedValues

def unary (op : UnaryOp) (value : Value) : Store Value :=
  match op, value with
  | .not, _ => return .bool (!value.isTruthy)
  | .neg, .number n => return .number (-n)
  | .plus, .number n => return .number n
  | .bitNot, .number n => return ofWord (~~~(toWord (Number.toInt n)))
  | _, _ => Store.mismatch (.unary op value.type)

end Operation

end Rill

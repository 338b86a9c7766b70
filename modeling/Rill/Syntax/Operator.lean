/-!
# Operators

The operators of expressions and assignments, their symbols, and how tightly they bind.
-/

set_option autoImplicit false

namespace Rill

inductive BinaryOp where
  | add | sub | mul | div | mod
  | eq | notEq | less | lessEq | greater | greaterEq
  | and | or | coalesce
  | bitAnd | bitOr | bitXor | shiftLeft | shiftRight
  | pipe
deriving DecidableEq

namespace BinaryOp

def all : List BinaryOp := [
  add, sub, mul, div, mod, eq, notEq, less, lessEq, greater, greaterEq, and, or, coalesce, bitAnd,
  bitOr, bitXor, shiftLeft, shiftRight, pipe]

def symbol : BinaryOp → String
  | add => "+" | sub => "-" | mul => "*" | div => "/" | mod => "%"
  | eq => "==" | notEq => "!=" | less => "<" | lessEq => "<=" | greater => ">" | greaterEq => ">="
  | and => "&&" | or => "||" | coalesce => "??"
  | bitAnd => "&" | bitOr => "|" | bitXor => "^" | shiftLeft => "<<" | shiftRight => ">>"
  | pipe => "|>"

/-- How tightly an operator binds. Every level groups to the left. -/
def power : BinaryOp → Nat
  | pipe => 1
  | or => 2
  | coalesce => 3
  | and => 4
  | bitOr => 5
  | bitXor => 6
  | bitAnd => 7
  | eq | notEq | less | lessEq | greater | greaterEq => 8
  | shiftLeft | shiftRight => 9
  | add | sub => 10
  | mul | div | mod => 11

/-- Whether the right operand is evaluated only when the left one does not decide. -/
def isLazy : BinaryOp → Bool
  | and | or | coalesce => true
  | _ => false

end BinaryOp

inductive UnaryOp where
  | neg | plus | not | bitNot
deriving DecidableEq

namespace UnaryOp

def all : List UnaryOp := [neg, plus, not, bitNot]

def symbol : UnaryOp → String
  | neg => "-" | plus => "+" | not => "!" | bitNot => "~"

end UnaryOp

/-- How an assignment combines the old value with the new one. -/
inductive AssignOp where
  | set | add | sub | mul | div | mod
deriving DecidableEq

namespace AssignOp

/-- The operator a compound assignment applies; a plain one applies none. -/
def binary : AssignOp → Option BinaryOp
  | set => none
  | add => some .add
  | sub => some .sub
  | mul => some .mul
  | div => some .div
  | mod => some .mod

def symbol : AssignOp → String
  | set => "=" | add => "+=" | sub => "-=" | mul => "*=" | div => "/=" | mod => "%="

end AssignOp

end Rill

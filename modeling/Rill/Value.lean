/-!
# Values

Scalars are values in themselves. Arrays, records and everything that can be called or instantiated
live in the heap, and a value of such a kind is the number of its cell there: two of them are the
same exactly when they name the same cell.
-/

set_option autoImplicit false

namespace Rill

abbrev FrameId := Nat

abbrev BlueprintId := Nat

inductive Value where
  | nil
  | bool (value : Bool)
  | number (value : Float)
  | text (value : String)
  | array (id : Nat)
  | record (id : Nat)
  | native (id : Nat)
  | closure (id : Nat)
  | blueprint (id : BlueprintId)
  | object (id : Nat)
deriving Inhabited

inductive ValueType where
  | nil | bool | number | text | array | record | function | blueprint | object
deriving DecidableEq

namespace ValueType

def name : ValueType → String
  | nil => "nil"
  | bool => "bool"
  | number => "number"
  | text => "string"
  | array => "array"
  | record => "record"
  | function => "function"
  | blueprint => "blueprint"
  | object => "object"

end ValueType

namespace Value

def type : Value → ValueType
  | nil => .nil
  | bool _ => .bool
  | number _ => .number
  | text _ => .text
  | array _ => .array
  | record _ => .record
  | native _ | closure _ => .function
  | blueprint _ => .blueprint
  | object _ => .object

/-- Nil, false, zero, the undefined number and the empty text do not hold; all else does. -/
def isTruthy : Value → Bool
  | nil => false
  | bool value => value
  | number value => value != 0.0 && !value.isNaN
  | text value => value ≠ ""
  | _ => true

def isNil : Value → Bool
  | nil => true
  | _ => false

def isCallable : Value → Bool
  | native _ | closure _ | blueprint _ => true
  | _ => false

def isScalar : Value → Bool
  | nil | bool _ | number _ | text _ => true
  | _ => false

def same : Value → Value → Bool
  | nil, nil => true
  | bool a, bool b => a == b
  | number a, number b => a == b
  | text a, text b => a == b
  | array a, array b => a == b
  | record a, record b => a == b
  | native a, native b => a == b
  | closure a, closure b => a == b
  | blueprint a, blueprint b => a == b
  | object a, object b => a == b
  | _, _ => false

end Value

inductive Signal where
  | normal (value : Value)
  | return_ (value : Value)
  | break_
  | continue_

instance : Inhabited Signal := ⟨.normal .nil⟩

namespace Signal

def isNormal : Signal → Bool
  | normal _ => true
  | _ => false

def value : Signal → Value
  | normal value | return_ value => value
  | break_ | continue_ => .nil

end Signal

end Rill

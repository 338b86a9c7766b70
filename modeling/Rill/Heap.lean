import Rill.Fields
import Rill.Host
import Rill.Syntax
import Rill.Value

/-!
# The heap

Everything that has an identity: frames of variables, arrays, records, functions, blueprints and
their instances. Cells are only ever added, so that a number once given out stays good.
-/

set_option autoImplicit false

namespace Rill

structure Variable where
  value : Value
  constant : Bool

structure MethodRef where
  owner : BlueprintId
  name : String
deriving DecidableEq

/-- A frame of variables. It hangs off the frame around it, knows the directory its imports start
from, and, while a method runs in it, which method that is. -/
structure Frame where
  vars : Fields Variable
  parent : Option FrameId
  dir : String
  method : Option MethodRef

structure Closure where
  fn : Function
  env : FrameId
  method : Option MethodRef

/-- A method as a blueprint holds it, with the blueprint that declares it. -/
structure Method where
  fn : Function
  owner : BlueprintId

/-- A class. It holds the fields and methods of its parent beside its own. -/
structure Blueprint where
  name : String
  parent : Option BlueprintId
  fields : Fields (Option Expr)
  methods : Fields Method
  env : FrameId

/-- An instance of a blueprint, whose members are the variables of a frame. -/
structure Object where
  blueprint : BlueprintId
  frame : FrameId

inductive Builtin where
  | print | len | typeOf | str | keys | instanceOf
deriving DecidableEq

namespace Builtin

def all : List Builtin := [print, len, typeOf, str, keys, instanceOf]

def name : Builtin → String
  | print => "print"
  | len => "len"
  | typeOf => "type_of"
  | str => "str"
  | keys => "keys"
  | instanceOf => "instance_of"

end Builtin

inductive ArrayMethod where
  | count | push | pop | map | filter | reduce | each | find | indexOf | contains | join | reverse
  | slice
deriving DecidableEq

namespace ArrayMethod

def ofName? : String → Option ArrayMethod
  | "len" | "length" | "size" => some count
  | "push" => some push
  | "pop" => some pop
  | "map" => some map
  | "filter" => some filter
  | "reduce" => some reduce
  | "each" => some each
  | "find" => some find
  | "index_of" => some indexOf
  | "contains" => some contains
  | "join" => some join
  | "reverse" => some reverse
  | "slice" => some slice
  | _ => none

end ArrayMethod

inductive TextMethod where
  | count | upper | lower | trim | split | contains | startsWith | endsWith
deriving DecidableEq

namespace TextMethod

def ofName? : String → Option TextMethod
  | "len" | "length" => some count
  | "upper" => some upper
  | "lower" => some lower
  | "trim" => some trim
  | "split" => some split
  | "contains" => some contains
  | "starts_with" => some startsWith
  | "ends_with" => some endsWith
  | _ => none

end TextMethod

inductive Native where
  | builtin (fn : Builtin)
  | host (fn : HostFunction)
  /-- A method of one array, under the name it was asked for. -/
  | ofArray (method : ArrayMethod) (name : String) (array : Nat)
  /-- A method of one text, under the name it was asked for. -/
  | ofText (method : TextMethod) (name : String) (text : String)
  /-- A callee that waits for the arguments of its open slots. -/
  | partialCall (callee : Value) (slots : List (Option Value)) (pos : Position)
  /-- A `super` call that is still to be made from a frame. -/
  | superCall (name : Option String) (env : FrameId) (pos : Position)
  /-- A function that gives back the array of its arguments. -/
  | echo (name : String)

namespace Native

def label : Native → String
  | builtin fn => fn.name
  | host fn => fn.name
  | ofArray _ name _ => "array." ++ name
  | ofText _ name _ => "string." ++ name
  | partialCall _ _ _ => "partial"
  | superCall _ _ _ => "super"
  | echo name => name

end Native

structure Heap where
  frames : Array Frame
  arrays : Array (Array Value)
  records : Array (Fields Value)
  natives : Array Native
  closures : Array Closure
  blueprints : Array Blueprint
  objects : Array Object

namespace Heap

def empty : Heap := ⟨#[], #[], #[], #[], #[], #[], #[]⟩

def array (heap : Heap) (id : Nat) : Array Value := heap.arrays[id]?.getD #[]

def record (heap : Heap) (id : Nat) : Fields Value := heap.records[id]?.getD .empty

def blueprintName (heap : Heap) (id : BlueprintId) : String :=
  (heap.blueprints[id]?.map Blueprint.name).getD ""

def objectName (heap : Heap) (id : Nat) : String :=
  (heap.objects[id]?.map fun object => heap.blueprintName object.blueprint).getD ""

/-- Whether a blueprint is another one or inherits from it. A parent is older than its children. -/
def inherits (heap : Heap) (ancestor id : BlueprintId) : Bool :=
  if id = ancestor then true
  else
    match heap.blueprints[id]? with
    | some ⟨_, some parent, _, _, _⟩ =>
        if _older : parent < id then heap.inherits ancestor parent else false
    | _ => false
termination_by id

end Heap

end Rill

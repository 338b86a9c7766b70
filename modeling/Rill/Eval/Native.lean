import Rill.Access
import Rill.Eval.Call
import Rill.Number.Whole
import Rill.Text.Case
import Rill.Text.Search

/-!
# Functions that are not written in the language

What arrays and texts can do, the functions every program starts with, the functions of a host,
calls that wait for arguments, and `super` as a value. Functions that are given by a program are
called with no position of their own.
-/

set_option autoImplicit false

namespace Rill

namespace Native

def count (n : Nat) : Value := .number (Number.ofNat n)

/-- An argument by its place; nil when it is missing. -/
def arg (args : List Value) (index : Nat) : Value := args[index]?.getD .nil

def function (name : String) (value : Value) : Store Value :=
  if value.isCallable then return value
  else Store.mismatch (.argument name "a function" (some value.type))

def text (name : String) (value : Value) : Store String :=
  match value with
  | .text t => return t
  | _ => Store.mismatch (.argument name "a string" (some value.type))

/-- The place of a bound of a slice. Nil is the default, a negative number counts from the end, and
what lies outside goes to the nearest end. -/
def bound (value : Value) (length default : Nat) : Store Nat :=
  match value with
  | .nil => return default
  | .number x =>
      let n := Number.toInt x
      return if n < 0 then (length + n).toNat else min n.toNat length
  | _ => Store.mismatch (.argument "slice" "number bounds" (some value.type))

def slice (items : Array Value) (first last : Nat) : Array Value := items.extract first last

/-- The first place of a value in an array, or minus one. -/
def indexOf (items : Array Value) (value : Value) : Value :=
  match items.findIdx? (·.same value) with
  | some index => count index
  | none => .number (-1.0)

def ofTextResult (method : TextMethod) (name receiver : String) (args : List Value) :
    Store Value := do
  match method with
  | .count => return count receiver.length
  | .upper => return .text (Text.upper receiver)
  | .lower => return .text (Text.lower receiver)
  | .trim => return .text (Text.trim receiver)
  | .split =>
      match arg args 0 with
      | .nil => Store.newArray ((Text.words receiver).map Value.text).toArray
      | other =>
          let separator ← text name other
          let pieces := if separator = "" then Text.characters receiver
            else Text.split receiver separator
          Store.newArray (pieces.map Value.text).toArray
  | .contains => return .bool (Text.contains receiver (← text name (arg args 0)))
  | .startsWith => return .bool (Text.startsWith receiver (← text name (arg args 0)))
  | .endsWith => return .bool (Text.endsWith receiver (← text name (arg args 0)))

def length (args : List Value) : Store Value := do
  match args.head? with
  | some (.text t) => return count t.length
  | some (.array id) => return count (← Store.array id).size
  | some (.record id) => return count (← Store.record id).size
  | other => Store.mismatch (.argument "len" "a string, array or record" (other.map Value.type))

/-- The names of the fields of a record or of the blueprint of an instance. -/
def fieldNames (args : List Value) : Store Value := do
  match args.head? with
  | some (.record id) => Store.newArray ((← Store.record id).names.map Value.text).toArray
  | some (.object id) =>
      let names ← Store.read fun heap =>
        match heap.objects[id]?.bind fun object => heap.blueprints[object.blueprint]? with
        | some blueprint => blueprint.fields.names
        | none => []
      Store.newArray (names.map Value.text).toArray
  | other => Store.mismatch (.argument "keys" "a record or object" (other.map Value.type))

/-- Whether a value is an instance of a blueprint or of one that inherits from it. -/
def isInstance (args : List Value) : Store Value := do
  match args with
  | .object id :: .blueprint ancestor :: _ =>
      Store.read fun heap => .bool (match heap.objects[id]? with
        | some object => heap.inherits ancestor object.blueprint
        | none => false)
  | _ :: .blueprint _ :: _ => return .bool false
  | _ =>
      Store.mismatch (.argument "instance_of" "a blueprint as its second argument"
        (args[1]?.map Value.type))

def ofBuiltin (fn : Builtin) (args : List Value) : Exec Value := do
  match fn with
  | .print =>
      let words ← Exec.read fun state => args.map state.heap.display
      Exec.print (" ".intercalate words ++ "\n")
      return .nil
  | .len => length args
  | .typeOf => return .text (arg args 0).type.name
  | .str => return .text (← Store.display (arg args 0))
  | .keys => fieldNames args
  | .instanceOf => isInstance args

/-- Fill the open slots of a waiting call from left to right, as far as the arguments go. -/
def fill : List (Option Value) → List Value → List (Option Value)
  | [], _ => []
  | some value :: slots, args => some value :: fill slots args
  | none :: slots, arg :: args => some arg :: fill slots args
  | none :: slots, [] => none :: fill slots []

def filled? (slots : List (Option Value)) : Option (List Value) := slots.mapM id

end Native

namespace Engine

variable (engine : Engine)

/-- Call a function with every element and its index, from the left, and gather the results. -/
def gather {σ : Type} (fn : Value) (step : σ → Value → Value → σ) :
    List Value → Nat → σ → Exec σ
  | [], _, done => pure done
  | item :: rest, index, done => do
      let result ← engine.call fn [item, Native.count index] .unknown
      gather fn step rest (index + 1) (step done item result)

/-- Call a function with the result so far and every element, from the left. -/
def reduce (fn : Value) : List Value → Value → Exec Value
  | [], result => pure result
  | item :: rest, result => do
      reduce fn rest (← engine.call fn [result, item] .unknown)

/-- The first element for which a function gives something that holds, or nil. -/
def find (fn : Value) : List Value → Exec Value
  | [] => pure .nil
  | item :: rest => do
      if (← engine.call fn [item] .unknown).isTruthy then return item else find fn rest

def callArray (method : ArrayMethod) (name : String) (id : Nat) (args : List Value) :
    Exec Value := do
  let first := Native.arg args 0
  match method with
  | .count => return Native.count (← Store.array id).size
  | .push =>
      Store.changeArray id (· ++ args)
      return Native.count (← Store.array id).size
  | .pop =>
      let last := (← Store.array id).back?
      Store.changeArray id Array.pop
      return last.getD .nil
  | .map =>
      let fn ← Native.function name first
      let results ← engine.gather fn (fun done _ result => done.push result)
        (← Store.array id).toList 0 #[]
      Store.newArray results
  | .filter =>
      let fn ← Native.function name first
      let kept ← engine.gather fn
        (fun done item result => if result.isTruthy then done.push item else done)
        (← Store.array id).toList 0 #[]
      Store.newArray kept
  | .each =>
      let fn ← Native.function name first
      engine.gather fn (fun _ _ _ => ()) (← Store.array id).toList 0 ()
      return .nil
  | .find =>
      let fn ← Native.function name first
      engine.find fn (← Store.array id).toList
  | .reduce =>
      let fn ← Native.function name first
      match args[1]?, (← Store.array id).toList with
      | some start, items => engine.reduce fn items start
      | none, start :: items => engine.reduce fn items start
      | none, [] => Exec.store (Store.mismatch .emptyReduce)
  | .indexOf => return Native.indexOf (← Store.array id) first
  | .contains => return .bool ((← Store.array id).any (·.same first))
  | .join =>
      let separator ← match args.head? with
        | some value => Exec.store (Native.text name value)
        | none => pure ","
      let pieces ← Exec.read fun state => (state.heap.array id).toList.map state.heap.display
      return .text (separator.intercalate pieces)
  | .reverse => Store.newArray (← Store.array id).reverse
  | .slice =>
      let items ← Store.array id
      let start ← Native.bound first items.size 0
      let stop ← Native.bound (Native.arg args 1) items.size items.size
      Store.newArray (Native.slice items start stop)

def act : HostAct → Exec Value
  | .give value => pure value
  | .refuse message => Store.mismatch (.refused message)
  | .change request next => do
      Exec.changeLimiter request.apply
      act next
  | .look next => do act (next (← Exec.read (·.limiter)))
  | .print text next => do
      Exec.print text
      act next
  | .array items next => do act (next (← Store.newArray items.toArray))
  | .call callee args pos next => do act (next (← engine.call callee args pos))

def callNative (native : Native) (args : List Value) : Exec Value :=
  match native with
  | .builtin fn => Native.ofBuiltin fn args
  | .host fn => engine.act (fn.body args)
  | .ofArray method name id => engine.callArray method name id args
  | .ofText method name receiver => Native.ofTextResult method name receiver args
  | .partialCall callee slots pos =>
      let slots := Native.fill slots args
      match Native.filled? slots with
      | some args => engine.call callee args pos
      | none => Store.newNative (.partialCall callee slots pos)
  | .superCall name env pos => engine.callSuper name args env pos
  | .echo _ => Store.newArray args.toArray

def callValue (callee : Value) (args : List Value) (pos : Position) : Exec Value := do
  match callee with
  | .native id =>
      match ← Exec.read (·.heap.natives[id]?) with
      | some native =>
          Exec.locate pos (Exec.called native.label pos (engine.callNative native args))
      | none => return .nil
  | .closure id =>
      match ← Exec.read (·.heap.closures[id]?) with
      | some closure => engine.callClosure closure args pos
      | none => return .nil
  | .blueprint id => engine.instantiate id args pos
  | other => Exec.locate pos (Exec.raise (.notCallable other.type))

end Engine

end Rill

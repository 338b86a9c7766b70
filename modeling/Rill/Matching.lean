import Rill.Access

/-!
# Matching and destructuring

A pattern matches a value of its shape and binds its names in a frame that the caller makes for
it. A destructuring declaration gives names to parts of a value, and nil to those that are missing.
-/

set_option autoImplicit false

namespace Rill

namespace Literal

def value : Literal → Value
  | number n => .number n
  | text t => .text t
  | bool b => .bool b
  | nil => .nil

end Literal

namespace Matching

def field? (heap : Heap) (value : Value) (key : String) : Option Value :=
  match value with
  | .record id => (heap.record id).get? key
  | .object id => Access.objectMember? heap id key
  | _ => none

mutual

/-- Match a value and bind the names of the pattern as they come. What was bound before a failure
stays behind in the frame. -/
def bind (env : FrameId) : Pattern → Value → Store Bool
  | .wildcard, _ => return true
  | .binding name, value => do
      Store.define env name value
      return true
  | .literal literal, value => return literal.value.same value
  | .array elements rest, value => do
      match value with
      | .array id =>
          let items := (← Store.array id).toList
          let fits := match rest with
            | some _ => decide (elements.length ≤ items.length)
            | none => decide (items.length = elements.length)
          if !fits then return false
          if !(← bindAll env elements items) then return false
          match rest with
          | some name =>
              Store.define env name (← Store.newArray (items.drop elements.length).toArray)
          | none => pure ()
          return true
      | _ => return false
  | .record fields, value => bindFields env fields value

/-- Match values one by one, as long as there are both. -/
def bindAll (env : FrameId) : List Pattern → List Value → Store Bool
  | pattern :: patterns, value :: values => do
      if ← bind env pattern value then bindAll env patterns values else return false
  | _, _ => return true

def bindFields (env : FrameId) : List (String × Pattern) → Value → Store Bool
  | [], _ => return true
  | (key, pattern) :: rest, value => do
      match ← Store.read (field? · value key) with
      | none => return false
      | some field => if ← bind env pattern field then bindFields env rest value else return false

end

def parts (names : Destructure) (value : Value) : Store (List (String × Value)) := do
  match names, value with
  | .array slots, .array id =>
      let items ← Store.array id
      return slots.zipIdx.filterMap fun (slot, index) =>
        slot.map fun name => (name, items[index]?.getD .nil)
  | .record keys, .record _ | .record keys, .object _ =>
      Store.read fun heap => keys.map fun key => (key, (field? heap value key).getD .nil)
  | .array _, _ => Store.mismatch (.destructureArray value.type)
  | .record _, _ => Store.mismatch (.destructureRecord value.type)

end Matching

end Rill

import Rill.Fault
import Rill.Heap.Show

/-!
# Operations on the heap

An operation takes the heap and gives it back together with a result or with the cause of a
failure. The heap comes back in both cases.
-/

set_option autoImplicit false

namespace Rill

def Store (α : Type) : Type := Heap → Except Cause α × Heap

namespace Store

variable {α β : Type}

@[inline] protected def pure (a : α) : Store α := fun heap => (.ok a, heap)

/-- One operation after another; a failure of the first is the failure of both. -/
@[inline] protected def bind (x : Store α) (f : α → Store β) : Store β := fun heap =>
  match x heap with
  | (.ok a, next) => f a next
  | (.error cause, next) => (.error cause, next)

@[always_inline] instance : Monad Store where
  pure := Store.pure
  bind := Store.bind

def fail (cause : Cause) : Store α := fun heap => (.error cause, heap)

def mismatch (m : Mismatch) : Store α := fail (.mismatch m)

def read (f : Heap → α) : Store α := fun heap => (.ok (f heap), heap)

def change (f : Heap → Heap) : Store Unit := fun heap => (.ok (), f heap)

def newArray (items : Array Value) : Store Value := fun heap =>
  let id := heap.arrays.size
  (.ok (.array id), { heap with arrays := heap.arrays.push items })

def newRecord (fields : Fields Value) : Store Value := fun heap =>
  let id := heap.records.size
  (.ok (.record id), { heap with records := heap.records.push fields })

def newNative (native : Native) : Store Value := fun heap =>
  let id := heap.natives.size
  (.ok (.native id), { heap with natives := heap.natives.push native })

def newClosure (closure : Closure) : Store Value := fun heap =>
  let id := heap.closures.size
  (.ok (.closure id), { heap with closures := heap.closures.push closure })

def newObject (object : Object) : Store Value := fun heap =>
  let id := heap.objects.size
  (.ok (.object id), { heap with objects := heap.objects.push object })

def array (id : Nat) : Store (Array Value) := read (·.array id)

def record (id : Nat) : Store (Fields Value) := read (·.record id)

def changeArray (id : Nat) (f : Array Value → Array Value) : Store Unit :=
  change fun heap => { heap with arrays := heap.arrays.modify id f }

def changeRecord (id : Nat) (f : Fields Value → Fields Value) : Store Unit :=
  change fun heap => { heap with records := heap.records.modify id f }

def display (value : Value) : Store String := read (·.display value)

end Store

end Rill

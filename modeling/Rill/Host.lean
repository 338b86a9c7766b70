import Rill.Limiter
import Rill.Number.Binary
import Rill.Value

/-!
# Functions of a host

A host may let programs call functions of its own. What such a function does is a tree of requests: it
changes the limiter or looks at it, prints, makes an array, or calls a value, and goes on with the
answer. It ends with a value or with a refusal. The functions here let programs act on their own
execution.
-/

set_option autoImplicit false

namespace Rill

/-- What a function of a host does, from its next request on. -/
inductive HostAct where
  | give (value : Value)
  | refuse (message : String)
  | change (change : Limiter.Change) (next : HostAct)
  | look (next : Limiter → HostAct)
  | print (text : String) (next : HostAct)
  | array (items : List Value) (next : Value → HostAct)
  | call (callee : Value) (args : List Value) (pos : Position) (next : Value → HostAct)

namespace HostAct

def Only (kind : Limiter.Change → Prop) : HostAct → Prop
  | give _ | refuse _ => True
  | change request next => kind request ∧ next.Only kind
  | look next => ∀ limiter, (next limiter).Only kind
  | print _ next => next.Only kind
  | array _ next | call _ _ _ next => ∀ answer, (next answer).Only kind

/-- Only values that are known are used. Every answer is known from then on. -/
def Uses (known : Value → Prop) : HostAct → Prop
  | give value => known value
  | refuse _ => True
  | change _ next | print _ next => next.Uses known
  | look next => ∀ limiter, (next limiter).Uses known
  | array items next =>
      (∀ item ∈ items, known item) ∧
        ∀ answer, (next answer).Uses fun value => known value ∨ value = answer
  | call callee args _ next =>
      known callee ∧ (∀ arg ∈ args, known arg) ∧
        ∀ answer, (next answer).Uses fun value => known value ∨ value = answer

end HostAct

/-- A function of a host. It says whether it may start the limiter over, and it has no values but
scalars, its arguments and what it is answered. -/
structure HostFunction where
  name : String
  resets : Bool
  body : List Value → HostAct
  honest : resets = false → ∀ args, (body args).Only (· ≠ .reset)
  closed : ∀ args, (body args).Uses fun value => value.isScalar = true ∨ value ∈ args

namespace HostFunction

def changing (name : String) (change : Limiter.Change) : HostFunction where
  name
  resets := decide (change = .reset)
  body _ := .change change (.give .nil)
  honest steady _ := ⟨by simpa using steady, trivial⟩
  closed _ := Or.inl rfl

def counting (name : String) (count : Limiter → Nat) : HostFunction where
  name
  resets := false
  body _ := .look fun limiter => .give (.number (Number.ofNat (count limiter)))
  honest _ _ _ := trivial
  closed _ _ := Or.inl rfl

def cancel : HostFunction := changing "host_cancel" (.setCancelled true)

def disable : HostFunction := changing "host_disable" (.setEnabled false)

def enable : HostFunction := changing "host_enable" (.setEnabled true)

def reset : HostFunction := changing "host_reset" .reset

def depth : HostFunction := counting "host_depth" Limiter.depth

def iterations : HostFunction := counting "host_iterations" Limiter.iterations

def stack : HostFunction where
  name := "host_stack"
  resets := false
  body _ := .look fun limiter => .array (limiter.calls.map Value.text) .give
  honest _ _ _ _ := trivial
  closed _ limiter := by
    refine ⟨fun item member => ?_, fun answer => Or.inr rfl⟩
    obtain ⟨name, -, rfl⟩ := List.mem_map.mp member
    exact Or.inl rfl

def call : HostFunction where
  name := "host_call"
  resets := false
  body args := .call (args.head?.getD .nil) args.tail .unknown .give
  honest _ _ _ := trivial
  closed args := by
    refine ⟨?_, fun arg member => Or.inr (List.mem_of_mem_tail member), fun answer => Or.inr rfl⟩
    cases args with
    | nil => exact Or.inl rfl
    | cons first rest => exact Or.inr List.mem_cons_self

def fail : HostFunction where
  name := "host_fail"
  resets := false
  body args :=
    match args.head? with
    | some (.text message) => .refuse message
    | _ => .refuse "failed"
  honest _ _ := by split <;> exact trivial
  closed _ := by split <;> exact trivial

def all : List HostFunction := [cancel, disable, enable, reset, depth, iterations, stack, call, fail]

end HostFunction

end Rill

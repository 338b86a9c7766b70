import Rill.Heap.Store
import Rill.Number.Binary

/-!
# Caught faults

What a `catch` clause is given: a thrown value as it is, and a record that describes any other
fault.
-/

set_option autoImplicit false

namespace Rill

namespace Fault

/-- The line and column of a fault, nil when no position is known. -/
def placeFields (position : Option Position) : List (String × Value) :=
  match position with
  | some pos => [("line", .number (Number.ofNat pos.line)), ("column", .number (Number.ofNat pos.column))]
  | none => [("line", .nil), ("column", .nil)]

/-- A time in nanoseconds as milliseconds, by way of its seconds and of the nanoseconds beyond them. -/
def milliseconds (nanoseconds : Nat) : Float :=
  let second := Nat.pow 10 9
  (Number.ofNat (nanoseconds / second)
    + Number.ofNat (nanoseconds % second) / Number.ofNat second) * Number.ofNat 1000

def breachFields (breach : Breach) : List (String × Value) :=
  [("breach", .text breach.kind.name), ("iterations", .number (Number.ofNat breach.iterations)),
   ("elapsed_ms", .number (milliseconds breach.elapsed)), ("hint", .text breach.kind.hint)]

def caught (fault : Fault) : Store Value :=
  match fault.cause with
  | .thrown value _ => return value
  | cause =>
      let description := [("kind", .text cause.kind), ("message", .text cause.message)]
        ++ placeFields fault.position
      match cause with
      | .limit breach => Store.newRecord (.ofList (description ++ breachFields breach))
      | _ => Store.newRecord (.ofList description)

end Fault

end Rill

import Rill.Heap
import Rill.Number.Format
import Rill.Text.Quoted

/-!
# How values are shown

Texts inside arrays and records are quoted; at the top a text is shown raw or quoted as the caller
wishes. Arrays and records more than sixteen levels down are cut short, so that those that hold
themselves can be shown too.
-/

set_option autoImplicit false

namespace Rill

namespace Heap

/-- A value with so many levels of arrays and records left to show. -/
def showWithin (heap : Heap) (levels : Nat) (quoted : Bool) (value : Value) : String :=
  match value with
  | .nil => "nil"
  | .bool b => if b then "true" else "false"
  | .number n => Number.format n
  | .text t => if quoted then Text.quote t else t
  | .native id => "<native " ++ (heap.natives[id]?.map Native.label).getD "" ++ ">"
  | .closure id => "<func " ++ (heap.closures[id]?.map (·.fn.label)).getD "" ++ ">"
  | .blueprint id => "<blueprint " ++ heap.blueprintName id ++ ">"
  | .object id => "<" ++ heap.objectName id ++ " instance>"
  | .array id =>
      match levels with
      | 0 => "..."
      | fewer + 1 =>
          "[" ++ ", ".intercalate ((heap.array id).toList.map (heap.showWithin fewer true)) ++ "]"
  | .record id =>
      match levels with
      | 0 => "..."
      | fewer + 1 =>
          let fields := (heap.record id).entries
          if fields.isEmpty then "\x7b\x7d"
          else
            "\x7b " ++ ", ".intercalate (fields.map fun (key, item) =>
              key ++ ": " ++ heap.showWithin fewer true item) ++ " \x7d"
termination_by levels

def shownLevels : Nat := 16

def display (heap : Heap) (value : Value) : String := heap.showWithin shownLevels false value

def inspect (heap : Heap) (value : Value) : String := heap.showWithin shownLevels true value

end Heap

end Rill

import Rill.Module
import Rill.State
import Rill.Syntax

/-!
# Engines

Evaluation is made of three kinds of jobs: to find the value of an expression, to run a statement,
and to call a value. A job needs other jobs, nested less deeply than itself allows, and an engine is
what performs those. Everything in the evaluator is written against an engine; `Rill.Eval.Run` then
builds engines of every depth, one on top of another.

Lists of statements and loops run their parts one after another at the same depth.
-/

set_option autoImplicit false

namespace Rill

/-- What there is to do, with the kind of result it has. -/
inductive Job : Type → Type where
  /-- Find the value of an expression in a frame. -/
  | eval (expr : Expr) (env : FrameId) : Job Value
  /-- Run a statement in a frame. -/
  | exec (stmt : Stmt) (env : FrameId) : Job Signal
  /-- Call a value with arguments, from a position. -/
  | call (callee : Value) (args : List Value) (pos : Position) : Job Value

/-- A way to perform jobs, a bound on the passes of one loop, and a way to find modules. -/
structure Engine where
  perform : {α : Type} → Job α → Exec α
  passes : Nat
  loader : Option Loader

namespace Engine

variable (engine : Engine)

def eval (expr : Expr) (env : FrameId) : Exec Value := engine.perform (.eval expr env)

def exec (stmt : Stmt) (env : FrameId) : Exec Signal := engine.perform (.exec stmt env)

def call (callee : Value) (args : List Value) (pos : Position) : Exec Value :=
  engine.perform (.call callee args pos)

/-- The value of an expression that may be missing; nil then. -/
def evalOption (expr : Option Expr) (env : FrameId) : Exec Value :=
  match expr with
  | some expr => engine.eval expr env
  | none => pure .nil

/-- Run statements until one of them does not end normally. The value is that of the last one, or
`last` when there is none. -/
def execAll (env : FrameId) : List Stmt → Value → Exec Signal
  | [], last => pure (.normal last)
  | stmt :: rest, _ => do
      match ← engine.exec stmt env with
      | .normal value => execAll env rest value
      | signal => return signal

def execBlock (block : Block) (env : FrameId) : Exec Signal := do
  let frame ← Store.child env
  engine.execAll frame block.stmts .nil

/-- Run the statements of a program. A `return` ends it with its value; a `break` or `continue`
that is left over does nothing. -/
def execProgram (env : FrameId) : List Stmt → Value → Exec Value
  | [], last => pure last
  | stmt :: rest, last => do
      match ← engine.exec stmt env with
      | .normal value => execProgram env rest value
      | .return_ value => return value
      | .break_ | .continue_ => execProgram env rest last

end Engine

namespace Exec

/-- Run the passes of a loop, which are numbered from `index`. A pass ends with the signal of the
body, or with nothing when the loop is over. The value of a loop is that of the last pass that
ended normally. -/
def loop (pass : Nat → Exec (Option Signal)) : (passes index : Nat) → (last : Value) → Exec Signal
  | 0, _, _ => spent
  | passes + 1, index, last => do
      match ← pass index with
      | none => return .normal last
      | some (.normal value) => loop pass passes (index + 1) value
      | some .continue_ => loop pass passes (index + 1) last
      | some .break_ => return .normal last
      | some (.return_ value) => return .return_ value

end Exec

end Rill

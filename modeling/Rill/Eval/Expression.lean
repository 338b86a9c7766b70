import Rill.Eval.Native
import Rill.Matching
import Rill.Operation

/-!
# Expressions

The value of every form of expression. Operands are evaluated from left to right. A fault notes the
position of the innermost expression it passes through.
-/

set_option autoImplicit false

namespace Rill

namespace Expr

def isPlaceholder : Expr → Bool
  | .ident _ name => name = "_"
  | _ => false

end Expr

namespace Engine

variable (engine : Engine)

def evalTemplate (env : FrameId) : List TemplatePart → String → Exec Value
  | [], done => pure (.text done)
  | .text text :: rest, done => evalTemplate env rest (done ++ text)
  | .hole expr :: rest, done => do
      let value ← engine.eval expr env
      evalTemplate env rest (done ++ (← Store.display value))

/-- The values an item of a list stands for: its own, or those of what it spreads. -/
def evalItem (env : FrameId) (item : Expr) : Exec (List Value) := do
  match item with
  | .spread pos inner =>
      let value ← engine.eval inner env
      Exec.locate pos (Access.spreadItems value)
  | _ => return [← engine.eval item env]

def evalItems (env : FrameId) : List Expr → Array Value → Exec (Array Value)
  | [], done => pure done
  | item :: rest, done => do
      let values ← engine.evalItem env item
      evalItems env rest (done ++ values)

def evalArgs (args : List Expr) (env : FrameId) : Exec (List Value) := do
  return (← engine.evalItems env args #[]).toList

def evalKey (env : FrameId) (key : Key) : Exec String := do
  match key with
  | .name text => return text
  | .computed expr =>
      let value ← engine.eval expr env
      Access.keyText value

def evalEntries (env : FrameId) : List Entry → Fields Value → Exec (Fields Value)
  | [], done => pure done
  | .field key value :: rest, done => do
      let name ← engine.evalKey env key
      let value ← engine.eval value env
      evalEntries env rest (done.insert name value)
  | .spread source :: rest, done => do
      let value ← engine.eval source env
      let fields ← Exec.locate source.pos (Access.spreadFields value)
      evalEntries env rest (done.insertAll fields)

/-- The value of a binary operator. Those that decide by their left operand leave the right one
unevaluated when they can. -/
def evalBinary (op : BinaryOp) (left right : Expr) (env : FrameId) : Exec Value := do
  let first ← engine.eval left env
  match op with
  | .and => if first.isTruthy then engine.eval right env else return first
  | .or => if first.isTruthy then return first else engine.eval right env
  | .coalesce => if first.isNil then engine.eval right env else return first
  | .pipe =>
      let callee ← engine.eval right env
      engine.call callee [first] right.pos
  | _ =>
      let second ← engine.eval right env
      Operation.binary op first second

def evalSlots (env : FrameId) : List Expr → List (Option Value) → Exec (List (Option Value))
  | [], done => pure done
  | item :: rest, done => do
      if item.isPlaceholder then evalSlots env rest (done ++ [none])
      else
        let values ← engine.evalItem env item
        evalSlots env rest (done ++ values.map some)

/-- Call a value with arguments that are still to be evaluated; when some are left open, the result
waits for them. -/
def apply (callee : Value) (args : List Expr) (env : FrameId) (pos : Position) : Exec Value := do
  if args.any Expr.isPlaceholder then
    if callee.isCallable then
      let slots ← engine.evalSlots env args []
      Store.newNative (.partialCall callee slots pos)
    else Exec.locate pos (Store.mismatch (.partialCall callee.type))
  else
    let values ← engine.evalArgs args env
    engine.call callee values pos

/-- The value of a member of an expression; nil when the expression is and may be. -/
def evalMember (object : Expr) (name : String) (optional : Bool) (env : FrameId)
    (use : Store Value → Exec Value) : Exec Value := do
  let value ← engine.eval object env
  if optional && value.isNil then return .nil else use (Access.getMember value name)

def evalCall (callee : Expr) (args : List Expr) (env : FrameId) (pos : Position) : Exec Value := do
  match callee with
  | .super_ _ name =>
      let values ← engine.evalArgs args env
      engine.callSuper name values env pos
  | .member at_ object name optional =>
      engine.evalMember object name optional env fun member => do
        let value ← Exec.locate at_ member
        engine.apply value args env pos
  | _ =>
      let value ← engine.eval callee env
      engine.apply value args env pos

def evalArms (value : Value) (env : FrameId) : List Arm → Exec Value
  | [] => do Exec.raise (.noMatch (← Exec.read (·.heap.inspect value)))
  | arm :: rest => do
      let frame ← Store.child env
      if ← Matching.bind frame arm.pattern value then
        match arm.guard with
        | none => engine.eval arm.body frame
        | some guard =>
            if (← engine.eval guard frame).isTruthy then engine.eval arm.body frame
            else evalArms value env rest
      else evalArms value env rest

/-- Run the clauses of a comprehension from the outermost to the innermost and gather what `emit`
makes of every frame that they reach. -/
def comprehend {σ : Type} (emit : FrameId → σ → Exec σ) (pos : Position) :
    List Clause → FrameId → σ → Exec σ
  | [], env, done => emit env done
  | .each name source :: rest, env, done => do
      let value ← engine.eval source env
      let items ← Access.elements value
      items.foldlM (fun done item => do
        Exec.tick .forIn pos
        let frame ← Store.child env
        Store.define frame name item
        comprehend emit pos rest frame done) done
  | .only cond :: rest, env, done => do
      if (← engine.eval cond env).isTruthy then comprehend emit pos rest env done else return done

def evalForm (expr : Expr) (env : FrameId) : Exec Value := do
  match expr with
  | .literal _ literal => return literal.value
  | .template _ parts => engine.evalTemplate env parts ""
  | .ident _ name => Store.get env name
  | .array _ items =>
      let values ← engine.evalItems env items #[]
      Store.newArray values
  | .record _ entries =>
      let fields ← engine.evalEntries env entries .empty
      Store.newRecord fields
  | .binary _ op left right => engine.evalBinary op left right env
  | .unary _ op operand =>
      let value ← engine.eval operand env
      Operation.unary op value
  | .ternary _ cond yes no =>
      if (← engine.eval cond env).isTruthy then engine.eval yes env else engine.eval no env
  | .call pos callee args => engine.evalCall callee args env pos
  | .member _ object name optional => engine.evalMember object name optional env Exec.store
  | .index _ object index =>
      let owner ← engine.eval object env
      let key ← engine.eval index env
      Access.getIndex owner key
  | .function _ fn => Store.newClosure ⟨fn, env, none⟩
  | .spread _ _ => Store.mismatch .looseSpread
  | .match_ _ subject arms =>
      let value ← engine.eval subject env
      engine.evalArms value env arms
  | .arrayOf pos element clauses =>
      let items ← engine.comprehend (fun frame done => do
        return done.push (← engine.eval element frame)) pos clauses env #[]
      Store.newArray items
  | .recordOf pos key value clauses =>
      let fields ← engine.comprehend (fun frame done => do
        let name ← engine.evalKey frame (.computed key)
        return done.insert name (← engine.eval value frame)) pos clauses env .empty
      Store.newRecord fields
  | .super_ pos name => Store.newNative (.superCall name env pos)

def evalStep (expr : Expr) (env : FrameId) : Exec Value :=
  Exec.locate expr.pos (engine.evalForm expr env)

end Engine

end Rill

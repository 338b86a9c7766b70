import Rill.Caught
import Rill.Eval.Expression
import Rill.Eval.Import

/-!
# Statements

The effect of every form of statement. Blocks, passes of loops, arms and handlers run in frames of
their own. A loop asks the limiter for every pass, after its condition has held and before its body
runs.
-/

set_option autoImplicit false

namespace Rill

namespace Store

def declareAll (constant : Bool) (env : FrameId) : List (String × Value) → Store Unit
  | [] => pure ()
  | (name, value) :: rest => do
      declare constant env name value
      declareAll constant env rest

def parentOf (decl : ClassDecl) (env : FrameId) : Store (Option BlueprintId) := do
  match decl.parent with
  | none => return none
  | some name =>
      match ← get env name with
      | .blueprint id => return some id
      | other => mismatch (.extend decl.name name other.type)

/-- Make the blueprint of a class. It takes over the members of its parent, and its own take the
places of those of the same name. -/
def newBlueprint (decl : ClassDecl) (parent : Option BlueprintId) (env : FrameId) :
    Store Value := fun heap =>
  let id := heap.blueprints.size
  let inherited := parent.bind fun parent => heap.blueprints[parent]?
  let fields := (inherited.map Blueprint.fields).getD .empty
  let methods := (inherited.map Blueprint.methods).getD .empty
  let blueprint : Blueprint :=
    { name := decl.name
      parent
      fields := fields.insertAll (decl.fields.map fun field => (field.name, field.value))
      methods := methods.insertAll (decl.methods.map fun fn => (fn.label, ⟨fn, id⟩))
      env }
  (.ok (.blueprint id), { heap with blueprints := heap.blueprints.push blueprint })

def declareClass (decl : ClassDecl) (env : FrameId) : Store Unit := do
  let parent ← parentOf decl env
  set env decl.name (← newBlueprint decl parent env)

/-- The keys and values a `for`-`in` loop walks over. The elements of an array are not among them:
they are looked up when their turn comes. -/
def entries (value : Value) : Store (Array (Value × Value)) := do
  match value with
  | .array _ => return #[]
  | .record id =>
      return ((← record id).entries.map fun (key, item) => (Value.text key, item)).toArray
  | .text text =>
      return ((Text.characters text).zipIdx.map fun (c, index) =>
        (Native.count index, Value.text c)).toArray
  | _ => mismatch (.iterate value.type)

def entryAt (value : Value) (entries : Array (Value × Value)) (index : Nat) :
    Store (Option (Value × Value)) := do
  match value with
  | .array id => return (← array id)[index]?.map fun item => (Native.count index, item)
  | _ => return entries[index]?

end Store

namespace Engine

variable (engine : Engine)

def declare (constant : Bool) (env : FrameId) : List Binding → Exec Unit
  | [] => pure ()
  | binding :: rest => do
      let value ← engine.evalOption binding.value env
      Store.declare constant env binding.name value
      declare constant env rest

/-- The value an assignment stores. A compound one reads the current value first. -/
def assigned (op : AssignOp) (current : Store Value) (value : Expr) (env : FrameId) :
    Exec Value := do
  match op.binary with
  | none => engine.eval value env
  | some op =>
      let left ← current
      let right ← engine.eval value env
      Operation.binary op left right

def assign (target : Expr) (op : AssignOp) (value : Expr) (env : FrameId) : Exec Value := do
  match target with
  | .ident _ name =>
      let result ← engine.assigned op (Store.get env name) value env
      Store.update env name result
      return result
  | .member _ object name _ =>
      let owner ← engine.eval object env
      let result ← engine.assigned op (Access.getMember owner name) value env
      Access.setMember owner name result
      return result
  | .index _ object index =>
      let owner ← engine.eval object env
      let key ← engine.eval index env
      let result ← engine.assigned op (Access.getIndex owner key) value env
      Access.setIndex owner key result
      return result
  | _ => Exec.locate target.pos (Store.mismatch .assignment)

/-- Whether a condition holds; one that is missing does. -/
def holds (cond : Option Expr) (env : FrameId) : Exec Bool := do
  match cond with
  | some cond => return (← engine.eval cond env).isTruthy
  | none => return true

def pass (kind : BreachKind) (cond : Option Expr) (body : Block) (env : FrameId) (pos : Position) :
    Exec (Option Signal) := do
  if ← engine.holds cond env then
    Exec.tick kind pos
    return some (← engine.execBlock body env)
  else return none

def execOption (stmt : Option Stmt) (env : FrameId) : Exec Unit := do
  match stmt with
  | some stmt => let _ ← engine.exec stmt env
  | none => return ()

def execWhile (cond : Expr) (body : Block) (env : FrameId) (pos : Position) : Exec Signal :=
  Exec.loop (fun _ => engine.pass .whileLoop (some cond) body env pos) engine.passes 0 .nil

/-- Run a `for` loop. What it declares first lives in a frame that all passes share. Every pass but
the first runs the step of the loop before its condition. -/
def execFor (init : Option Stmt) (cond : Option Expr) (post : Option Stmt) (body : Block)
    (env : FrameId) (pos : Position) : Exec Signal := do
  let frame ← Store.child env
  engine.execOption init frame
  Exec.loop (fun index => do
    if 0 < index then engine.execOption post frame
    engine.pass .forLoop cond body frame pos) engine.passes 0 .nil

def passOver (name : String) (value : Value) (entries : Array (Value × Value)) (body : Block)
    (env : FrameId) (pos : Position) (index : Nat) : Exec (Option Signal) := do
  match ← Store.entryAt value entries index with
  | none => return none
  | some (key, item) =>
      let frame ← Store.child env
      Store.define frame name key
      Store.define frame "$k" key
      Store.define frame "$v" item
      Store.define frame "$c" value
      Exec.tick .forIn pos
      return some (← engine.execAll frame body.stmts .nil)

def execForIn (name : String) (source : Expr) (body : Block) (env : FrameId) (pos : Position) :
    Exec Signal := do
  let value ← engine.eval source env
  let entries ← Store.entries value
  Exec.loop (engine.passOver name value entries body env pos) engine.passes 0 .nil

def handle (handler : Handler) (fault : Fault) (env : FrameId) : Exec Signal := do
  let frame ← Store.child env
  Store.define frame handler.name (← fault.caught)
  engine.execAll frame handler.body.stmts .nil

/-- Run the body of a `try`, and its handler on a fault. -/
def execGuarded (body : Block) (handler : Option Handler) (env : FrameId) : Exec Signal := do
  match ← Exec.attempt (engine.execBlock body env), handler with
  | .error fault, some handler => engine.handle handler fault env
  | result, _ => Exec.settle result

/-- Run a `try`. Its `finally` block runs in any case, and when that does not end normally its end
replaces the other one. -/
def execTry (body : Block) (handler : Option Handler) (cleanup : Option Block) (env : FrameId) :
    Exec Signal := do
  match cleanup with
  | none => engine.execGuarded body handler env
  | some cleanup =>
      let result ← Exec.attempt (engine.execGuarded body handler env)
      match ← engine.execBlock cleanup env with
      | .normal _ => Exec.settle result
      | signal => return signal

def execForm (stmt : Stmt) (env : FrameId) : Exec Signal := do
  match stmt with
  | .expr _ expr => return .normal (← engine.eval expr env)
  | .declare _ constant bindings =>
      engine.declare constant env bindings
      return .normal .nil
  | .destructure _ constant names value =>
      let value ← engine.eval value env
      Store.declareAll constant env (← Matching.parts names value)
      return .normal .nil
  | .assign _ target op value => return .normal (← engine.assign target op value env)
  | .function _ fn =>
      Store.set env fn.label (← Store.newClosure ⟨fn, env, none⟩)
      return .normal .nil
  | .class_ _ decl =>
      Store.declareClass decl env
      return .normal .nil
  | .if_ _ cond yes no =>
      if (← engine.eval cond env).isTruthy then engine.execBlock yes env
      else
        match no with
        | some branch => engine.exec branch env
        | none => return .normal .nil
  | .while_ pos cond body => engine.execWhile cond body env pos
  | .for_ pos init cond post body => engine.execFor init cond post body env pos
  | .forIn pos name source body => engine.execForIn name source body env pos
  | .block _ block => engine.execBlock block env
  | .return_ _ value => return .return_ (← engine.evalOption value env)
  | .break_ _ => return .break_
  | .continue_ _ => return .continue_
  | .try_ _ body handler cleanup => engine.execTry body handler cleanup env
  | .throw_ pos value =>
      let value ← engine.eval value env
      let shown ← Store.display value
      Exec.locate pos (Exec.traced (Exec.raise (.thrown value shown)))
  | .import_ _ path name =>
      engine.importModule path name env
      return .normal .nil

def execStep (stmt : Stmt) (env : FrameId) : Exec Signal :=
  Exec.locate stmt.pos (engine.execForm stmt env)

end Engine

end Rill

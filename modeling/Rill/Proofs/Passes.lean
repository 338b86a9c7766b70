import Rill.Proofs.Depth

/-!
# Passes behind a guard

Every loop runs the bodies of its passes behind a guard, which sees the kind and the place of the
loop and decides whether and in which state a body runs: `while` and `for` once their condition has
held, `for`-`in` once the names of the pass are bound, a comprehension for every element before
anything is done with it. `Engine.guarding` leaves the guard open. The evaluator is the engine whose
guard asks the limiter for each pass (`guarding_granted`), so that no loop has a way around it and
none asks at another place.
-/

set_option autoImplicit false

namespace Rill

/-- Run the body of a pass if the limiter grants the pass. -/
def Exec.granted {α : Type} (kind : BreachKind) (pos : Position) (body : Exec α) : Exec α := do
  tick kind pos
  body

namespace Engine

/-! ## Loops with a guard -/

section Guard

variable (engine : Engine) (guard : {α : Type} → BreachKind → Position → Exec α → Exec α)

def passBehind (kind : BreachKind) (cond : Option Expr) (body : Block) (env : FrameId)
    (pos : Position) : Exec (Option Signal) := do
  if ← engine.holds cond env then
    guard kind pos (some <$> engine.execBlock body env)
  else return none

def passOverBehind (name : String) (value : Value) (entries : Array (Value × Value)) (body : Block)
    (env : FrameId) (pos : Position) (index : Nat) : Exec (Option Signal) := do
  match ← Store.entryAt value entries index with
  | none => return none
  | some (key, item) =>
      let frame ← Store.child env
      Store.define frame name key
      Store.define frame "$k" key
      Store.define frame "$v" item
      Store.define frame "$c" value
      guard .forIn pos (some <$> engine.execAll frame body.stmts .nil)

def comprehendBehind {σ : Type} (emit : FrameId → σ → Exec σ) (pos : Position) :
    List Clause → FrameId → σ → Exec σ
  | [], env, done => emit env done
  | .each name source :: rest, env, done => do
      let value ← engine.eval source env
      let items ← Access.elements value
      items.foldlM (fun done item => guard .forIn pos do
        let frame ← Store.child env
        Store.define frame name item
        comprehendBehind emit pos rest frame done) done
  | .only cond :: rest, env, done => do
      if (← engine.eval cond env).isTruthy then comprehendBehind emit pos rest env done
      else return done

def evalFormBehind (expr : Expr) (env : FrameId) : Exec Value := do
  match expr with
  | .arrayOf pos element clauses =>
      let items ← engine.comprehendBehind guard (fun frame done => do
        return done.push (← engine.eval element frame)) pos clauses env #[]
      Store.newArray items
  | .recordOf pos key value clauses =>
      let fields ← engine.comprehendBehind guard (fun frame done => do
        let name ← engine.evalKey frame (.computed key)
        return done.insert name (← engine.eval value frame)) pos clauses env .empty
      Store.newRecord fields
  | _ => engine.evalForm expr env

def execFormBehind (stmt : Stmt) (env : FrameId) : Exec Signal := do
  match stmt with
  | .while_ pos cond body =>
      Exec.loop (fun _ => engine.passBehind guard .whileLoop (some cond) body env pos)
        engine.passes 0 .nil
  | .for_ pos init cond post body =>
      let frame ← Store.child env
      engine.execOption init frame
      Exec.loop (fun index => do
        if 0 < index then engine.execOption post frame
        engine.passBehind guard .forLoop cond body frame pos) engine.passes 0 .nil
  | .forIn pos name source body =>
      let value ← engine.eval source env
      let entries ← Store.entries value
      Exec.loop (engine.passOverBehind guard name value entries body env pos) engine.passes 0 .nil
  | _ => engine.execForm stmt env

def stepBehind {α : Type} : Job α → Exec α
  | .eval expr env => Exec.locate expr.pos (engine.evalFormBehind guard expr env)
  | .exec stmt env => Exec.locate stmt.pos (engine.execFormBehind guard stmt env)
  | .call callee args pos => engine.callValue callee args pos

def guarding (loader : Option Loader) : Nat → Engine
  | 0 => ofDepth loader 0
  | depth + 1 =>
      { perform := (guarding loader depth).stepBehind guard
        passes := depth + 1
        loader }

end Guard

/-! ## The limiter as the guard -/

section Granted

variable (engine : Engine)

theorem comprehendBehind_granted {σ : Type} (emit : FrameId → σ → Exec σ) (pos : Position)
    (clauses : List Clause) (env : FrameId) (done : σ) :
    engine.comprehendBehind Exec.granted emit pos clauses env done
      = engine.comprehend emit pos clauses env done := by
  induction clauses generalizing env done with
  | nil => rfl
  | cons clause rest ih =>
      cases clause with
      | each name source =>
          simp only [comprehendBehind, comprehend, ih]
          rfl
      | only cond => simp only [comprehendBehind, comprehend, ih]

theorem evalFormBehind_granted (expr : Expr) (env : FrameId) :
    engine.evalFormBehind Exec.granted expr env = engine.evalForm expr env := by
  cases expr with
  | arrayOf pos element clauses =>
      simp only [evalFormBehind, evalForm, comprehendBehind_granted]
  | recordOf pos key value clauses =>
      simp only [evalFormBehind, evalForm, comprehendBehind_granted]
  | _ => rfl

theorem execFormBehind_granted (stmt : Stmt) (env : FrameId) :
    engine.execFormBehind Exec.granted stmt env = engine.execForm stmt env := by
  cases stmt <;> rfl

theorem stepBehind_granted {α : Type} (job : Job α) :
    engine.stepBehind Exec.granted job = engine.step job := by
  cases job with
  | eval expr env => simp only [stepBehind, step, evalStep, evalFormBehind_granted]
  | exec stmt env => simp only [stepBehind, step, execStep, execFormBehind_granted]
  | call callee args pos => rfl

end Granted

theorem guarding_granted (loader : Option Loader) (depth : Nat) :
    guarding Exec.granted loader depth = ofDepth loader depth := by
  induction depth with
  | zero => rfl
  | succ depth ih =>
      have performs : @perform (guarding Exec.granted loader (depth + 1))
          = @perform (ofDepth loader (depth + 1)) := by
        funext α job
        rw [perform_succ, ← ih]
        exact (guarding Exec.granted loader depth).stepBehind_granted job
      exact Engine.mk.injEq .. |>.mpr ⟨performs, rfl, rfl⟩

end Engine

end Rill

import Rill.Eval.Run
import Rill.Proofs.Related.Statement

/-!
# Related engines

A relation that also passes through calls, imports and passes of loops relates whole steps of
evaluation: engines that perform every job in related ways take related steps. Engines of every
depth then follow by induction on the depth.
-/

set_option autoImplicit false

namespace Rill

/-- Any code may run in any frame, and may have any effect but that of some functions of the host.
Restrictions can only be on where names are overwritten and which directories are set. -/
structure Permits.AnyCode (permits : Permits) : Prop where
  function (fn : Function) : permits.function fn
  default (expr : Expr) : permits.default expr
  frame (env : FrameId) : permits.frame env
  effects : permits.effects

theorem Permits.AnyCode.of_anyCode (hosts : Prop) : (anyCode hosts).AnyCode :=
  ⟨fun _ => trivial, fun _ => trivial, fun _ => trivial, trivial⟩

/-- Two engines run the body of a module in related ways, if it can be read. -/
def BodyRelated (permits : Permits) (R : Relation) (first second : Engine) (found : Module) :
    Prop :=
  ∀ program, Program.parse found.source found.dir = .ok program →
    ∀ part ∈ program.body, ExecRelated permits R first second part

/-- A compatible relation that also passes through calls, modules and passes of loops. -/
structure Thorough (permits : Permits) (R : Relation) : Prop extends Compatible permits R where
  traced {α : Type} {x y : Exec α} (inner : R α x y) : R α (Exec.traced x) (Exec.traced y)
  passes : PassRelated R
  called (name : String) (pos : Position) {x y : Exec Value} (inner : R Value x y) :
    R Value (Exec.called name pos x) (Exec.called name pos y)
  opens {first second : Engine} (found : Module) (env : FrameId)
    (body : BodyRelated permits R first second found) :
    R FrameId (first.openModule found env) (second.openModule found env)
  spent (y : Exec Signal) : R Signal Exec.spent y

/-- A relation that passes through every way in which executions are put together. Jobs may be
asked to be related in a stronger way than steps are. -/
structure Uniform (permits : Permits) (R S : Relation) : Prop extends Thorough permits R where
  anyCode : permits.AnyCode
  strong : Catching permits S
  weaken : ∀ (α : Type) (x y : Exec α), S α x y → R α x y
  methods : MethodRelated permits R

/-- Two engines perform every job in related ways, and the second one allows no fewer passes. -/
structure EnginesRelated (R : Relation) (first second : Engine) : Prop where
  jobs {α : Type} (job : Job α) : R α (first.perform job) (second.perform job)
  passes : first.passes ≤ second.passes
  loaders : first.loader = second.loader

namespace Job

def callee? {α : Type} : Job α → Option Value
  | .call callee _ _ => some callee
  | _ => none

end Job

/-! ## Modules -/

section Modules

variable {permits : Permits} {R : Relation} {first second : Engine}

theorem Compatible.openModule (compatible : Compatible permits R)
    (running : R (List String) (Exec.read (·.loading)) (Exec.read (·.loading)))
    (moduleFrame : ∀ key,
      R (Option FrameId) (Exec.read (·.moduleFrame? key)) (Exec.read (·.moduleFrame? key)))
    (loading : ∀ (key : String) {x y : Exec Value}, R Value x y →
      R Value (Exec.loading key x) (Exec.loading key y))
    (keepModule : ∀ key env, R Unit (Exec.keepModule key env) (Exec.keepModule key env))
    (found : Module) (env : FrameId) (body : BodyRelated permits R first second found) :
    R FrameId (first.openModule found env) (second.openModule found env) := by
  have runs : R FrameId (first.runModule found env) (second.runModule found env) := by
    unfold Engine.runModule
    split
    · exact compatible.raise _ rfl
    · rename_i program parsed
      refine compatible.child env fun frame held => ?_
      refine compatible.bind (compatible.store (.setDir frame found.dir held.moves)) fun _ => ?_
      have body := compatible.execProgram held.frame program.body .nil (body program parsed)
      exact compatible.bind (loading found.key body) fun _ =>
        compatible.bind (keepModule found.key frame) fun _ => compatible.pure frame
  refine compatible.bind running fun keys => ?_
  split
  · exact compatible.raise _ rfl
  · refine compatible.bind (moduleFrame found.key) fun frame => ?_
    cases frame with
    | some frame => exact compatible.pure frame
    | none => exact runs

end Modules

/-! ## Loops -/

namespace Compatible

variable {permits : Permits} {R : Relation} {first second : Engine}
variable (compatible : Compatible permits R) (spent : ∀ y, R Signal Exec.spent y)
include compatible spent

theorem loop {pass other : Nat → Exec (Option Signal)}
    (steps : ∀ index, R (Option Signal) (pass index) (other index)) (passes more : Nat)
    (enough : passes ≤ more) (index : Nat) (last : Value) :
    R Signal (Exec.loop pass passes index last) (Exec.loop other more index last) := by
  induction passes generalizing more index last with
  | zero => exact spent _
  | succ passes ih =>
      cases more with
      | zero => omega
      | succ more =>
          have fewer : passes ≤ more := by omega
          refine compatible.bind (steps index) fun signal => ?_
          cases signal with
          | none => exact compatible.pure _
          | some signal =>
              cases signal with
              | normal value => exact ih more fewer (index + 1) value
              | continue_ => exact ih more fewer (index + 1) last
              | break_ | return_ => exact compatible.pure _

theorem loopRelated (passes : PassRelated R) (enough : first.passes ≤ second.passes) (stmt : Stmt)
    (env : FrameId) (exprs : ∀ part ∈ stmt.exprs, EvalRelated R first second part)
    (stmts : ∀ part ∈ stmt.stmts, ExecRelated permits R first second part) :
    LoopRelated R first second env stmt := by
  cases stmt with
  | while_ pos cond body =>
      exact compatible.loop spent (fun _ => compatible.pass .whileLoop (some cond) body env pos
        exprs stmts passes) _ _ enough _ _
  | for_ pos init cond post body =>
      simp only [Stmt.stmts, List.mem_append] at stmts
      refine compatible.child env fun frame held => ?_
      refine compatible.bind (compatible.execOption init held.frame fun part member =>
        stmts part (Or.inl (Or.inl member))) fun _ => ?_
      refine compatible.loop spent (fun index => ?_) _ _ enough _ _
      have pass := compatible.pass .forLoop cond body frame pos exprs
        (fun part member => stmts part (Or.inr member)) passes
      dsimp only
      split
      · exact compatible.bind (compatible.execOption post held.frame fun part member =>
          stmts part (Or.inl (Or.inr member))) fun _ => pass
      · exact pass
  | forIn pos name source body =>
      simp only [Stmt.exprs, List.mem_singleton, forall_eq] at exprs
      exact compatible.bind (exprs env) fun value =>
        compatible.bind (compatible.store (.entries value)) fun entries =>
          compatible.loop spent (fun index => compatible.passOver name value entries body env pos
            index stmts passes) _ _ enough _ _
  | _ => trivial

end Compatible

namespace Thorough

variable {permits : Permits} {R : Relation} {first second : Engine}
variable (thorough : Thorough permits R)
include thorough

theorem loopRelated (enough : first.passes ≤ second.passes) (stmt : Stmt) (env : FrameId)
    (exprs : ∀ part ∈ stmt.exprs, EvalRelated R first second part)
    (stmts : ∀ part ∈ stmt.stmts, ExecRelated permits R first second part) :
    LoopRelated R first second env stmt :=
  thorough.toCompatible.loopRelated thorough.spent thorough.passes enough stmt env exprs stmts

theorem throws : ThrowRelated R := fun _ _ => thorough.traced (thorough.raise _ rfl)

/-! ## Imports -/

theorem importRelated (loaders : first.loader = second.loader)
    (bodies : ∀ loader, first.loader = some loader → ∀ dir path found,
      loader dir path = .ok found → BodyRelated permits R first second found) :
    ImportRelated permits R first second :=
  fun path name _ held => thorough.importBy loaders path name held
    fun loader dir found given resolved =>
      thorough.opens found _ (bodies loader given dir path found resolved)

/-! ## Calls -/

theorem invoke (fn : Function) {env : FrameId} (held : permits.Scope env) (args : List Value)
    (pos : Position) (exprs : ∀ part ∈ fn.exprs, EvalRelated R first second part)
    (stmts : ∀ part ∈ fn.stmts, ExecRelated permits R first second part) :
    R Value (first.invoke fn env args pos) (second.invoke fn env args pos) :=
  thorough.locate pos (thorough.called fn.label pos
    (thorough.traced (thorough.enter fn held args exprs stmts)))

end Thorough

namespace Uniform

variable {permits : Permits} {R S : Relation} {first second : Engine}
variable (uniform : Uniform permits R S)
include uniform

theorem evals (related : EnginesRelated S first second) (expr : Expr) :
    EvalRelated R first second expr :=
  fun env => uniform.weaken _ _ _ (related.jobs (.eval expr env))

theorem execs (related : EnginesRelated S first second) (stmt : Stmt) :
    ExecRelated permits R first second stmt :=
  fun env _ => uniform.weaken _ _ _ (related.jobs (.exec stmt env))

theorem calls (related : EnginesRelated S first second) : CallRelated R first second :=
  fun callee args pos => uniform.weaken _ _ _ (related.jobs (.call callee args pos))

theorem importRelated (related : EnginesRelated S first second) :
    ImportRelated permits R first second :=
  uniform.toThorough.importRelated related.loaders
    fun _ _ _ _ _ _ _ _ part _ => uniform.execs related part

/-! ## Calls -/

theorem runBody (related : EnginesRelated S first second) (body : Body) (env : FrameId) :
    R Value (first.runBody body env) (second.runBody body env) :=
  uniform.toCompatible.runBody (uniform.anyCode.frame env) body (fun expr _ => uniform.evals related expr)
    fun _ _ part _ => uniform.execs related part

theorem invokeRelated (related : EnginesRelated S first second) :
    InvokeRelated permits R first second := by
  intro fn _ env held args pos
  exact uniform.invoke fn held args pos (fun part _ => uniform.evals related part)
    fun part _ => uniform.execs related part

theorem supers (related : EnginesRelated S first second)
    (overwrites : ∀ env, permits.overwrites env) : SuperRelated R first second :=
  uniform.callSuper (fun env => uniform.methods.during env (overwrites env)) fun fn held env =>
    uniform.invokeRelated related fn held env ⟨uniform.anyCode.frame env, overwrites env⟩

theorem callNative (related : EnginesRelated S first second) (native : Native)
    (args : List Value) (pos : Position)
    (supers : ∀ name env pos, native = .superCall name env pos →
      R Value (first.callSuper name args env pos) (second.callSuper name args env pos))
    (host : ∀ fn, native = .host fn →
      R Value (first.act (fn.body args)) (second.act (fn.body args))) :
    R Value (Exec.called native.label pos (first.callNative native args))
      (Exec.called native.label pos (second.callNative native args)) :=
  uniform.called native.label pos (uniform.toCompatible.callNative native args uniform.anyCode.effects
    (uniform.calls related) supers host)

theorem act (related : EnginesRelated S first second) (looks : LookRelated R)
    (changes : ∀ change, ChangeRelated R change) (act : HostAct) :
    R Value (first.act act) (second.act act) :=
  uniform.toCompatible.act uniform.anyCode.effects (uniform.calls related) looks
    (fun change _ => changes change) act (act.only_of_all fun _ => trivial)

/-! ## Steps -/

theorem evalStep (related : EnginesRelated S first second) (expr : Expr) (env : FrameId)
    (supers : expr.isSuperCall = true → SuperRelated R first second) :
    R Value (first.evalStep expr env) (second.evalStep expr env) :=
  uniform.locate expr.pos (uniform.evalForm expr env
    (fun part _ => uniform.evals related part) (fun fn _ => uniform.anyCode.function fn)
    (fun _ => uniform.calls related) supers (fun _ => uniform.anyCode.default expr) uniform.passes)

theorem execStep (related : EnginesRelated S first second) (stmt : Stmt) (env : FrameId) :
    R Signal (first.execStep stmt env) (second.execStep stmt env) :=
  uniform.locate stmt.pos (uniform.execForm stmt (fun _ => uniform.anyCode.frame env)
    uniform.anyCode.effects (fun part _ => uniform.evals related part)
    (fun part _ => uniform.execs related part)
    (fun fn _ => uniform.anyCode.function fn)
    (fun _ _ => ⟨fun _ _ expr _ => uniform.anyCode.default expr,
      fun fn _ => uniform.anyCode.function fn⟩)
    (uniform.loopRelated related.passes stmt env
      (fun part _ => uniform.evals related part) fun part _ => uniform.execs related part)
    ((uniform.strong.tryRelated stmt env fun part _ env _ => related.jobs (.exec part env)).mono
      uniform.weaken)
    uniform.throws (uniform.importRelated related))

theorem callStep (related : EnginesRelated S first second) (callee : Value) (args : List Value)
    (pos : Position)
    (natives : ∀ id, callee = .native id → ∀ native, permits.Native native →
      R Value (Exec.called native.label pos (first.callNative native args))
        (Exec.called native.label pos (second.callNative native args))) :
    R Value (first.callValue callee args pos) (second.callValue callee args pos) :=
  uniform.callValue uniform.methods (uniform.invokeRelated related)
    (fun expr _ => uniform.evals related expr) callee args pos
    fun id native same held => natives id same native held

/-- Engines that perform jobs in related ways take related steps. A step that calls a native
function is asked for that function. -/
theorem step (related : EnginesRelated S first second) (supers : SuperRelated R first second)
    {α : Type} (job : Job α)
    (natives : ∀ id, job.callee? = some (.native id) → ∀ native args pos,
      permits.Native native → R Value
        (Exec.called native.label pos (first.callNative native args))
        (Exec.called native.label pos (second.callNative native args))) :
    R α (first.step job) (second.step job) := by
  cases job with
  | eval expr env => exact uniform.evalStep related expr env fun _ => supers
  | exec stmt env => exact uniform.execStep related stmt env
  | call callee args pos =>
      refine uniform.callStep related callee args pos fun id same native held => ?_
      exact natives id (by rw [same]; rfl) native args pos held

end Uniform

end Rill

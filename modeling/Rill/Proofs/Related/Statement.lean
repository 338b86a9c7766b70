import Rill.Proofs.Related.Call

/-!
# Related statements

Statements are related when the expressions and statements they come to are. Loops and imports are
asked for as a whole, since what holds of one pass or of one module need not hold of all of them
together.

A `try` may stop a fault, so the statements inside it have to be related in a way that passes
through a fault that turns into a result; that may be a stronger way than the one that is asked of
the whole. What a `throw` does at once, to note the active calls, is asked for as well.
-/

set_option autoImplicit false

namespace Rill

/-- A compatible relation that also relates executions whose faults have turned into results or
have had the active calls noted. -/
structure Catching (permits : Permits) (R : Relation) : Prop extends Compatible permits R where
  traced {α : Type} {x y : Exec α} (inner : R α x y) : R α (Exec.traced x) (Exec.traced y)
  attempt {α : Type} {x y : Exec α} (inner : R α x y) :
    R (Except Fault α) (Exec.attempt x) (Exec.attempt y)
  settle {α : Type} (result : Except Fault α) : R α (Exec.settle result) (Exec.settle result)

/-- Bind in one frame what is bound in another one by now, name by name or as one record. -/
def Exec.bindExports (name : Option String) (env frame : FrameId) : Exec Unit := do
  let exports ← read (·.heap.bindings frame)
  match name with
  | some name =>
      let record ← Store.newRecord (.ofList exports)
      Store.set env name record
  | none => Store.setAll env exports

/-- Import a module that is opened in a way of one's own. -/
def Engine.importBy (engine : Engine) (opening : Module → FrameId → Exec FrameId) (path : String)
    (name : Option String) (env : FrameId) : Exec Unit := do
  match engine.loader with
  | none => Exec.raise (.badImport (.noLoader path))
  | some loader =>
      match loader (← Exec.read (·.heap.dir env)) path with
      | .error problem => Exec.raise (.badImport problem)
      | .ok found =>
          let frame ← opening found env
          Exec.bindExports name env frame

theorem Engine.importBy_openModule (engine : Engine) (path : String) (name : Option String)
    (env : FrameId) :
    engine.importBy engine.openModule path name env = engine.importModule path name env := rfl

def LoopRelated (R : Relation) (first second : Engine) (env : FrameId) : Stmt → Prop
  | .while_ pos cond body =>
      R Signal (first.execWhile cond body env pos) (second.execWhile cond body env pos)
  | .for_ pos init cond post body =>
      R Signal (first.execFor init cond post body env pos)
        (second.execFor init cond post body env pos)
  | .forIn pos name source body =>
      R Signal (first.execForIn name source body env pos)
        (second.execForIn name source body env pos)
  | _ => True

def TryRelated (R : Relation) (first second : Engine) (env : FrameId) : Stmt → Prop
  | .try_ _ body handler cleanup =>
      R Signal (first.execTry body handler cleanup env)
        (second.execTry body handler cleanup env)
  | _ => True

/-- Values are thrown in related ways. The active calls are noted at once. -/
def ThrowRelated (R : Relation) : Prop :=
  ∀ value shown, R Signal (Exec.traced (Exec.raise (.thrown value shown)))
    (Exec.traced (Exec.raise (.thrown value shown)))

def ImportRelated (permits : Permits) (R : Relation) (first second : Engine) : Prop :=
  ∀ path name env, permits.frame env →
    R Unit (first.importModule path name env) (second.importModule path name env)

namespace Compatible

variable {permits : Permits} {R : Relation} {first second : Engine}
variable (compatible : Compatible permits R)
include compatible

/-! ## Declarations and assignments -/

theorem declare (constant : Bool) {env : FrameId} (held : permits.frame env)
    (bindings : List Binding)
    (inner : ∀ part ∈ bindings.filterMap Binding.value, EvalRelated R first second part) :
    R Unit (first.declare constant env bindings) (second.declare constant env bindings) := by
  induction bindings with
  | nil => exact compatible.pure ()
  | cons binding rest ih =>
      have value : ∀ part ∈ binding.value.toList, EvalRelated R first second part := by
        intro part member
        rw [Option.mem_toList] at member
        exact inner part (List.mem_filterMap.mpr ⟨binding, by simp, member⟩)
      have others : ∀ part ∈ rest.filterMap Binding.value, EvalRelated R first second part := by
        intro part member
        obtain ⟨other, place, given⟩ := List.mem_filterMap.mp member
        exact inner part (List.mem_filterMap.mpr ⟨other, List.mem_cons_of_mem _ place, given⟩)
      exact compatible.bind (compatible.evalOption binding.value env value) fun value =>
        compatible.bind (compatible.store (.declare held constant binding.name value)) fun _ =>
          ih others

theorem assigned (op : AssignOp) {current : Store Value} (value : Expr) (env : FrameId)
    (ordinary : Store.Ordinary permits current) (valueRelated : EvalRelated R first second value) :
    R Value (first.assigned op current value env) (second.assigned op current value env) := by
  unfold Engine.assigned
  split
  · exact valueRelated env
  · exact compatible.bind (compatible.store ordinary) fun left =>
      compatible.bind (valueRelated env) fun right => compatible.store (.binary _ left right)

theorem assign (target : Expr) (op : AssignOp) (value : Expr) (env : FrameId)
    (effects : permits.effects)
    (targetInner : ∀ part ∈ target.needs, EvalRelated R first second part)
    (valueRelated : EvalRelated R first second value) :
    R Value (first.assign target op value env) (second.assign target op value env) := by
  cases target with
  | ident pos name =>
      exact compatible.bind (compatible.assigned op value env (.get env name) valueRelated)
        fun result => compatible.bind (compatible.store (.update effects env name result)) fun _ =>
          compatible.pure result
  | member pos object name optional =>
      refine compatible.bind (targetInner object (by simp [Expr.needs]) env) fun owner => ?_
      exact compatible.bind
        (compatible.assigned op value env (.getMember owner name) valueRelated) fun result =>
          compatible.bind (compatible.store (.setMember effects owner name result)) fun _ =>
            compatible.pure result
  | index pos object place =>
      refine compatible.bind (targetInner object (by simp [Expr.needs]) env) fun owner => ?_
      refine compatible.bind (targetInner place (by simp [Expr.needs]) env) fun key => ?_
      exact compatible.bind
        (compatible.assigned op value env (.getIndex owner key) valueRelated) fun result =>
          compatible.bind (compatible.store (.setIndex effects owner key result)) fun _ =>
            compatible.pure result
  | _ => exact compatible.locate _ (compatible.store (.mismatch _))

/-! ## Passes of loops -/

theorem holds (cond : Option Expr) (env : FrameId)
    (inner : ∀ part ∈ cond.toList, EvalRelated R first second part) :
    R Bool (first.holds cond env) (second.holds cond env) := by
  cases cond with
  | none => exact compatible.pure true
  | some cond =>
      exact compatible.bind (inner cond (by simp) env) fun answer => compatible.pure _

theorem execOption (stmt : Option Stmt) {env : FrameId} (held : permits.frame env)
    (inner : ∀ part ∈ stmt.toList, ExecRelated permits R first second part) :
    R Unit (first.execOption stmt env) (second.execOption stmt env) := by
  cases stmt with
  | none => exact compatible.pure ()
  | some stmt =>
      exact compatible.bind (inner stmt (by simp) env fun _ => held) fun _ => compatible.pure ()

theorem pass (kind : BreachKind) (cond : Option Expr) (body : Block) (env : FrameId)
    (pos : Position) (condInner : ∀ part ∈ cond.toList, EvalRelated R first second part)
    (bodyInner : ∀ part ∈ body.stmts, ExecRelated permits R first second part)
    (passes : PassRelated R) :
    R (Option Signal) (first.pass kind cond body env pos)
      (second.pass kind cond body env pos) := by
  refine compatible.bind (compatible.holds cond env condInner) fun answer => ?_
  split
  · exact passes kind pos <|
      compatible.bind (compatible.execBlock body env bodyInner) fun signal => compatible.pure _
  · exact compatible.pure none

theorem passOver (name : String) (value : Value) (entries : Array (Value × Value)) (body : Block)
    (env : FrameId) (pos : Position) (index : Nat)
    (bodyInner : ∀ part ∈ body.stmts, ExecRelated permits R first second part)
    (passes : PassRelated R) :
    R (Option Signal) (first.passOver name value entries body env pos index)
      (second.passOver name value entries body env pos index) := by
  refine compatible.bind (compatible.store (.entryAt value entries index)) fun entry => ?_
  cases entry with
  | none => exact compatible.pure none
  | some entry =>
      obtain ⟨key, item⟩ := entry
      refine compatible.child env fun frame held => ?_
      refine compatible.bind (compatible.store (.define held.overwrites name key)) fun _ => ?_
      refine compatible.bind (compatible.store (.define held.overwrites "$k" key)) fun _ => ?_
      refine compatible.bind (compatible.store (.define held.overwrites "$v" item)) fun _ => ?_
      refine compatible.bind (compatible.store (.define held.overwrites "$c" value)) fun _ => ?_
      exact passes .forIn pos <|
        compatible.bind (compatible.execAll held.frame body.stmts .nil bodyInner) fun signal =>
          compatible.pure _

/-! ## Imports -/

theorem bindExports (name : Option String) {env : FrameId} (held : permits.frame env)
    (frame : FrameId) : R Unit (Exec.bindExports name env frame) (Exec.bindExports name env frame) := by
  refine compatible.lookUp (fun heap => heap.bindings frame) fun heap _ => ?_
  cases name with
  | some name =>
      exact compatible.bind (compatible.store (.newRecord _)) fun record =>
        compatible.store (.set held name record)
  | none => exact compatible.store (.setAll held _)

theorem importBy {opening other : Module → FrameId → Exec FrameId}
    (loaders : first.loader = second.loader) (path : String) (name : Option String)
    {env : FrameId} (held : permits.frame env)
    (opens : ∀ loader dir found, first.loader = some loader → loader dir path = .ok found →
      R FrameId (opening found env) (other found env)) :
    R Unit (first.importBy opening path name env) (second.importBy other path name env) := by
  unfold Engine.importBy
  rw [← loaders]
  cases given : first.loader with
  | none => exact compatible.raise _ rfl
  | some loader =>
      refine compatible.lookUp (fun heap => heap.dir env) fun heap _ => ?_
      cases resolved : loader (heap.dir env) path with
      | error problem => exact compatible.raise _ rfl
      | ok found =>
          exact compatible.bind (opens loader _ found given resolved) fun frame =>
            compatible.bindExports name held frame

end Compatible

/-! ## Handlers -/

namespace Catching

variable {permits : Permits} {R : Relation} {first second : Engine}
variable (catching : Catching permits R)
include catching

theorem handle (handler : Handler) (fault : Fault) (env : FrameId)
    (inner : ∀ part ∈ handler.stmts, ExecRelated permits R first second part) :
    R Signal (first.handle handler fault env) (second.handle handler fault env) :=
  catching.child env fun _ held =>
    catching.bind (catching.store (.caught fault)) fun value =>
      catching.bind (catching.store (.define held.overwrites handler.name value)) fun _ =>
        catching.execAll held.frame handler.body.stmts .nil inner

theorem execGuarded (body : Block) (handler : Option Handler) (env : FrameId)
    (bodyInner : ∀ part ∈ body.stmts, ExecRelated permits R first second part)
    (handlerInner : ∀ part ∈ handler.toList.flatMap Handler.stmts,
      ExecRelated permits R first second part) :
    R Signal (first.execGuarded body handler env) (second.execGuarded body handler env) := by
  refine catching.bind (catching.attempt (catching.execBlock body env bodyInner)) fun result => ?_
  split
  · exact catching.handle _ _ env (by simpa using handlerInner)
  · exact catching.settle _

theorem execTry (body : Block) (handler : Option Handler) (cleanup : Option Block) (env : FrameId)
    (bodyInner : ∀ part ∈ body.stmts, ExecRelated permits R first second part)
    (handlerInner : ∀ part ∈ handler.toList.flatMap Handler.stmts,
      ExecRelated permits R first second part)
    (cleanupInner : ∀ part ∈ cleanup.toList.flatMap Block.stmts,
      ExecRelated permits R first second part) :
    R Signal (first.execTry body handler cleanup env)
      (second.execTry body handler cleanup env) := by
  have guarded := catching.execGuarded body handler env bodyInner handlerInner
  cases cleanup with
  | none => exact guarded
  | some cleanup =>
      refine catching.bind (catching.attempt guarded) fun result => ?_
      refine catching.bind (catching.execBlock cleanup env (by simpa using cleanupInner))
        fun signal => ?_
      cases signal with
      | normal value => exact catching.settle result
      | _ => exact catching.pure _

theorem tryRelated (stmt : Stmt) (env : FrameId)
    (inner : ∀ part ∈ stmt.stmts, ExecRelated permits R first second part) :
    TryRelated R first second env stmt := by
  cases stmt with
  | try_ pos body handler cleanup =>
      simp only [Stmt.stmts, List.mem_append] at inner
      exact catching.execTry body handler cleanup env
        (fun part member => inner part (Or.inl (Or.inl member)))
        (fun part member => inner part (Or.inl (Or.inr member)))
        (fun part member => inner part (Or.inr member))
  | _ => trivial

end Catching

/-! ## Statements -/

theorem TryRelated.mono {R S : Relation} {first second : Engine} {env : FrameId} {stmt : Stmt}
    (weaken : ∀ (α : Type) (x y : Exec α), S α x y → R α x y)
    (related : TryRelated S first second env stmt) : TryRelated R first second env stmt := by
  cases stmt with
  | try_ => exact weaken _ _ _ related
  | _ => trivial

theorem Compatible.execForm {permits : Permits} {R : Relation} {first second : Engine}
    (compatible : Compatible permits R) (stmt : Stmt) {env : FrameId}
    (held : stmt.declares = true → permits.frame env) (effects : permits.effects)
    (exprs : ∀ part ∈ stmt.exprs, EvalRelated R first second part)
    (stmts : ∀ part ∈ stmt.stmts, ExecRelated permits R first second part)
    (functions : ∀ fn ∈ stmt.functions, permits.function fn)
    (classes : ∀ decl ∈ stmt.classes, permits.Class decl)
    (loops : LoopRelated R first second env stmt) (tries : TryRelated R first second env stmt)
    (throws : ThrowRelated R) (imports : ImportRelated permits R first second) :
    R Signal (first.execForm stmt env) (second.execForm stmt env) := by
  cases stmt with
  | expr pos value =>
      simp only [Stmt.exprs, List.mem_singleton, forall_eq] at exprs
      exact compatible.bind (exprs env) fun value => compatible.pure _
  | declare pos constant bindings =>
      exact compatible.bind (compatible.declare constant (held rfl) bindings exprs) fun _ =>
        compatible.pure _
  | destructure pos constant names value =>
      simp only [Stmt.exprs, List.mem_singleton, forall_eq] at exprs
      exact compatible.bind (exprs env) fun value =>
        compatible.bind (compatible.store (.parts names value)) fun parts =>
          compatible.bind (compatible.store (.declareAll (held rfl) constant parts)) fun _ =>
            compatible.pure _
  | assign pos target op value =>
      simp only [Stmt.exprs, List.mem_cons, forall_eq_or_imp] at exprs
      have assigned := compatible.assign target op value env effects exprs.2 exprs.1
      exact compatible.bind assigned fun result =>
        compatible.pure _
  | function pos fn =>
      have own := functions fn (by simp [Stmt.functions])
      exact compatible.bind (compatible.store (.newClosure _ own)) fun closure =>
        compatible.bind (compatible.store (.set (held rfl) fn.label closure)) fun _ => compatible.pure _
  | class_ pos decl =>
      have members := classes decl (by simp [Stmt.classes])
      exact compatible.bind (compatible.store (.declareClass (held rfl) decl members)) fun _ =>
        compatible.pure _
  | if_ pos cond yes no =>
      simp only [Stmt.exprs, List.mem_singleton, forall_eq] at exprs
      simp only [Stmt.stmts, List.mem_append] at stmts
      refine compatible.bind (exprs env) fun answer => ?_
      split
      · exact compatible.execBlock yes env fun part member => stmts part (Or.inl member)
      · cases no with
        | none => exact compatible.pure _
        | some branch => exact stmts branch (Or.inr (by simp)) env held
  | while_ pos cond body => exact loops
  | for_ pos init cond post body => exact loops
  | forIn pos name source body => exact loops
  | block pos block => exact compatible.execBlock block env stmts
  | return_ pos value =>
      exact compatible.bind (compatible.evalOption value env exprs) fun value =>
        compatible.pure _
  | break_ pos => exact compatible.pure _
  | continue_ pos => exact compatible.pure _
  | try_ pos body handler cleanup => exact tries
  | throw_ pos value =>
      simp only [Stmt.exprs, List.mem_singleton, forall_eq] at exprs
      exact compatible.bind (exprs env) fun value =>
        compatible.bind (compatible.store (.display value)) fun shown =>
          compatible.locate pos (throws value shown)
  | import_ pos path name =>
      exact compatible.bind (imports path name env (held rfl)) fun _ => compatible.pure _

theorem Catching.throws {permits : Permits} {R : Relation} (catching : Catching permits R) :
    ThrowRelated R := fun _ _ => catching.traced (catching.raise _ rfl)

theorem Catching.execForm {permits : Permits} {R : Relation} {first second : Engine}
    (catching : Catching permits R) (stmt : Stmt) {env : FrameId}
    (held : stmt.declares = true → permits.frame env) (effects : permits.effects)
    (exprs : ∀ part ∈ stmt.exprs, EvalRelated R first second part)
    (stmts : ∀ part ∈ stmt.stmts, ExecRelated permits R first second part)
    (functions : ∀ fn ∈ stmt.functions, permits.function fn)
    (classes : ∀ decl ∈ stmt.classes, permits.Class decl)
    (loops : LoopRelated R first second env stmt) (imports : ImportRelated permits R first second) :
    R Signal (first.execForm stmt env) (second.execForm stmt env) :=
  catching.toCompatible.execForm stmt held effects exprs stmts functions classes loops
    (catching.tryRelated stmt env stmts) catching.throws imports

end Rill

import Rill.Proofs.Barring
import Rill.Proofs.Bindings

/-!
# Constants

Parameters are bound whatever a name stood for, and a `super` call runs the method of a parent in
the frame of the method that makes it, so it is there that the parameters are bound. No other call
or statement binds a name in this way in a frame in which a constant may have been declared.

`Engine.sealed` is the evaluator without the `super` calls that bind one name again in one frame.
Constants last under it, and for a frame in which no method is noted it is the evaluator
(`constants_last`). A call that it leaves out puts a variable in place of the constant
(`Engine.callSuper_isVariable`).
-/

set_option autoImplicit false

namespace Rill

/-! ## Super calls that bind a name again -/

/-- A `super` call finds a frame, for a method that has a parameter of a name. -/
def Heap.rebinds (heap : Heap) (home : FrameId) (name : String) (target : Option String)
    (env : FrameId) : Bool :=
  match heap.superMethod target env with
  | .ok (frame, _, method) => decide (frame = home) && method.fn.params.any (·.name = name)
  | .error _ => false

abbrev LeavesConstant (home : FrameId) (name : String) (value : Value) : Relation :=
  Keeps fun state next =>
    state.heap.Constant home name value → next.heap.Constant home name value

namespace Engine

/-- Give up instead of binding a parameter of one name in one frame. -/
def sealing (home : FrameId) (name : String) (engine _ordinary : Engine) : SuperWay :=
  fun target args env pos => do
    if ← Exec.read (·.heap.rebinds home name target env) then Exec.spent
    else engine.callSuper target args env pos

/-- The evaluator without the `super` calls that bind a parameter of one name in one frame. -/
def sealed (home : FrameId) (name : String) : Option Loader → Nat → Engine :=
  via (sealing home name)

variable {home : FrameId} {name : String} {engine ordinary : Engine}

theorem sealing_eq (target : Option String) (args : List Value) (env : FrameId) (pos : Position)
    (state : State) : sealing home name engine ordinary target args env pos state
      = if state.heap.rebinds home name target env then .spent
        else engine.callSuper target args env pos state :=
  show barring (fun heap => heap.rebinds home name) engine ordinary target args env pos state = _ from
    barring_eq target args env pos state

variable {value : Value}
  (related : EnginesRelated (LeavesConstant home name value) engine engine)
include related

theorem bindParams_constant (params : List Binding) (others : ∀ param ∈ params, param.name ≠ name)
    (args : List Value) : LeavesConstant home name value Unit
      (engine.bindParams home params args) (engine.bindParams home params args) := by
  have kept := Heap.Constant.kept home name value
  have define (key : String) (other : key ≠ name) (arg : Value) :
      LeavesConstant home name value Unit
      (liftM (Store.define home key arg)) (liftM (Store.define home key arg)) := by
    intro state next left before
    cases left
    exact before.bind (Or.inr other) _
  -- A missing argument is filled by a default, which may be any code.
  induction params generalizing args with
  | nil => exact kept.catching.pure ()
  | cons param rest ih =>
      simp only [List.mem_cons, forall_eq_or_imp] at others
      cases args with
      | cons arg args =>
          exact kept.bind (define param.name others.1 arg) fun _ => ih others.2 args
      | nil =>
          exact kept.bind (kept.catching.evalOption param.value home fun part _ =>
            kept.uniform.evals related part) fun value =>
              kept.bind (define param.name others.1 value) fun _ => ih others.2 []

/-- A function without a parameter of that name leaves a constant alone, whatever frame it runs
in. -/
theorem invoke_constant (fn : Function) (others : ∀ param ∈ fn.params, param.name ≠ name)
    (args : List Value) (pos : Position) : LeavesConstant home name value Value
      (engine.invoke fn home args pos) (engine.invoke fn home args pos) := by
  have kept := Heap.Constant.kept home name value
  exact kept.catching.locate pos (kept.calledKeeps fn.label pos (kept.catching.traced
    (kept.bind (bindParams_constant related fn.params others args) fun _ =>
      kept.uniform.runBody related fn.body home)))

theorem sealing_constant (target : Option String) (args : List Value) (env : FrameId)
    (pos : Position) : LeavesConstant home name value Value
      (sealing home name engine ordinary target args env pos)
      (sealing home name engine ordinary target args env pos) := by
  have kept := Heap.Constant.kept home name value
  intro state next left
  rw [sealing_eq] at left
  by_cases again : state.heap.rebinds home name target env = true
  · rw [if_pos again] at left
    cases left
  · rw [if_neg again, callSuper_eq] at left
    unfold Heap.rebinds at again
    cases resolved : state.heap.superMethod target env with
    | error problem =>
        rw [resolved] at left
        cases left
        exact id
    | ok found =>
        obtain ⟨frame, called, method⟩ := found
        simp only [resolved] at left again
        have inner : LeavesConstant home name value Value
            (engine.invoke method.fn frame args pos) (engine.invoke method.fn frame args pos) := by
          by_cases here : frame = home
          · -- It runs in the frame of the constant, but no parameter has its name.
            subst here
            exact invoke_constant related method.fn (by simpa using again) args pos
          · have scope : (Permits.apart home).Scope frame := ⟨trivial, here⟩
            exact kept.uniform.invokeRelated related method.fn trivial frame scope args pos
        exact kept.duringKeeps frame _ inner state next left

omit related in
theorem sealed_constant (home : FrameId) (name : String) (value : Value) (loader : Option Loader)
    (depth : Nat) :
    EnginesRelated (LeavesConstant home name value) (sealed home name loader depth)
      (sealed home name loader depth) := by
  have kept := Heap.Constant.kept home name value
  induction depth with
  | zero => exact ⟨fun _ _ _ left => (by cases left), Nat.le_refl _, rfl⟩
  | succ depth ih =>
      refine ⟨fun job => ?_, Nat.le_refl _, rfl⟩
      exact kept.uniform.stepVia ih (sealing_constant ih) (fun act _ =>
        kept.act ih (fun _ _ _ before => before) act (act.only_of_all fun _ => trivial)) job

omit related in
theorem sealed_agrees (home : FrameId) (name : String) (loader : Option Loader)
    (depth : Nat) :
    EnginesRelated Agrees (sealed home name loader depth) (ofDepth loader depth) :=
  barred_agrees (fun heap => heap.rebinds home name) loader depth

omit related in
theorem sealed_sameWhile (home : FrameId) (name : String) (loader : Option Loader)
    (depth : Nat) :
    EnginesRelated (SameWhile home none) (ofDepth loader depth)
      (sealed home name loader depth) := by
  have only (heap : Heap) (target : Option String) (env : FrameId)
      (again : heap.rebinds home name target env = true) :
      Heap.enters home heap target env = true := by
    unfold Heap.rebinds at again
    cases resolved : heap.superMethod target env with
    | error problem => simp [resolved] at again
    | ok found =>
        simp only [resolved, Bool.and_eq_true, decide_eq_true_eq] at again
        exact Heap.enters_iff.mpr ⟨found, resolved, again.1⟩
  exact barred_sameWhile only loader depth

end Engine

/-! ## What such a call leaves behind -/

section Rebound

variable {home : FrameId} {name : String} {state next : State} {value : Value}

theorem Outcome.mapState_done {α : Type} {outcome : Outcome α} {leave : State → State} {a : α}
    (ended : outcome.mapState leave = .done a next) :
    ∃ after, outcome = .done a after ∧ next = leave after := by
  cases outcome with
  | done b after =>
      cases ended
      exact ⟨after, rfl, rfl⟩
  | fault | spent => cases ended

theorem Exec.locate_done {α : Type} {x : Exec α} {pos : Position} {a : α}
    (ended : Exec.locate pos x state = .done a next) : x state = .done a next := by
  unfold Exec.locate at ended
  split at ended
  · cases ended
  · exact ended

theorem Exec.traced_done {α : Type} {x : Exec α} {a : α}
    (ended : Exec.traced x state = .done a next) : x state = .done a next := by
  unfold Exec.traced at ended
  split at ended
  · cases ended
  · exact ended

theorem Exec.called_done {α : Type} {x : Exec α} {label : String} {pos : Position} {a : α}
    (ended : Exec.called label pos x state = .done a next) :
    ∃ entered after : State, entered.heap = state.heap ∧ x entered = .done a after ∧
      next.heap = after.heap := by
  rw [Exec.called_eq] at ended
  split at ended
  · cases ended
  · rename_i limiter _
    obtain ⟨after, inner, rfl⟩ := Outcome.mapState_done ended
    exact ⟨{ state with limiter }, after, rfl, inner, rfl⟩

namespace Engine

variable (loader : Option Loader) (depth : Nat)

theorem ofDepth_isVariable (home : FrameId) (name : String) :
    EnginesRelated (Keeps fun state next =>
      state.heap.IsVariable home name → next.heap.IsVariable home name)
      (ofDepth loader depth) (ofDepth loader depth) :=
  (Heap.IsVariable.kept home name).ofDepth (fun _ => trivial) (fun _ _ before => before)
    loader depth

theorem bindParams_isVariable {params : List Binding} {args : List Value}
    (old : home < state.heap.frames.size) (param : ∃ param ∈ params, param.name = name)
    (ended : (ofDepth loader depth).bindParams home params args state = .done () next) :
    next.heap.IsVariable home name := by
  induction params generalizing args state with
  | nil => simp at param
  | cons first rest ih =>
      have kept := Heap.IsVariable.kept home name
      have held : (Permits.anyCode True).overwrites home := trivial
      have others (args : List Value) := kept.catching.bindParams held rest args fun part _ =>
        kept.uniform.evals (ofDepth_isVariable loader depth home name) part
      have bound (arg : Value) (args : List Value) (before : State)
          (old : home < before.heap.frames.size)
          (ended : (liftM (Store.define home first.name arg) >>= fun _ =>
            (ofDepth loader depth).bindParams home rest args) before = .done () next) :
          next.heap.IsVariable home name := by
        obtain ⟨⟨⟩, defined, wrote, ended⟩ := Exec.bind_done ended
        cases wrote
        by_cases same : first.name = name
        · -- Later parameters may bind it again, but a variable never becomes a constant.
          subst same
          exact others args _ next (by rw [ended]; rfl) (.define old arg)
        · simp only [List.mem_cons, exists_eq_or_imp, same, false_or] at param
          exact ih (by simpa using old) param ended
      cases args with
      | cons arg args => exact bound arg args state old ended
      | nil =>
          obtain ⟨value, filled, evaluated, ended⟩ := Exec.bind_done ended
          have stays := (Heap.StaysAt.kept home).catching.evalOption first.value home fun part _ =>
            (Heap.StaysAt.kept home).uniform.evals (ofDepth_staysAt home loader depth) part
          have later := stays state filled (by rw [evaluated]; rfl)
          exact bound value [] filled (later.size old) ended

theorem callSuper_isVariable {target : Option String} {args : List Value} {env : FrameId}
    {pos : Position} (again : state.heap.rebinds home name target env = true)
    (ended : (ofDepth loader depth).callSuper target args env pos state = .done value next) :
    next.heap.IsVariable home name := by
  have kept := Heap.IsVariable.kept home name
  unfold Heap.rebinds at again
  split at again
  · rename_i frame called method resolved
    simp only [Bool.and_eq_true, decide_eq_true_eq, List.any_eq_true] at again
    obtain ⟨rfl, param⟩ := again
    obtain ⟨running, nearest, -⟩ := Heap.superMethod_noted resolved
    have old := Heap.size_of_noted? (Heap.methodFrame?_noted nearest)
    rw [callSuper_eq, resolved] at ended
    dsimp only at ended
    rw [Exec.asMethod_eq] at ended
    obtain ⟨after, ran, rfl⟩ := Outcome.mapState_done ended
    obtain ⟨entered, left, same, inside, still⟩ := Exec.called_done (Exec.locate_done ran)
    obtain ⟨⟨⟩, filled, params, body⟩ := Exec.bind_done (Exec.traced_done inside)
    have bound := bindParams_isVariable loader depth
      (by rw [same]; simpa using old) param params
    have related := ofDepth_isVariable loader depth frame name
    have lasts : left.heap.IsVariable frame name :=
      kept.uniform.runBody related method.fn.body frame filled left (by rw [body]; rfl) bound
    exact (Heap.IsVariable.lasting frame name).setMethod frame _ (by rw [still]; exact lasts)
  · cases again

end Engine

end Rebound

/-! ## What is left to do -/

/-- What may be left to do when a constant stands: a job, the statements that follow in a body, or
those that follow in a program or a module. -/
inductive Rest : Type → Type 1 where
  | job {α : Type} (job : Job α) : Rest α
  | body (env : FrameId) (stmts : List Stmt) (last : Value) : Rest Signal
  | program (env : FrameId) (stmts : List Stmt) (last : Value) : Rest Value

namespace Engine

def finish (engine : Engine) {α : Type} : Rest α → Exec α
  | .job job => engine.perform job
  | .body env stmts last => engine.execAll env stmts last
  | .program env stmts last => engine.execProgram env stmts last

end Engine

theorem Uniform.finish {permits : Permits} {R S : Relation} {first second : Engine}
    (uniform : Uniform permits R S) (related : EnginesRelated S first second) {α : Type}
    (rest : Rest α) : R α (first.finish rest) (second.finish rest) := by
  cases rest with
  | job job => exact uniform.weaken _ _ _ (related.jobs job)
  | body env stmts last =>
      exact uniform.execAll (uniform.anyCode.frame env) stmts last
        fun part _ => uniform.execs related part
  | program env stmts last =>
      exact uniform.execProgram (uniform.anyCode.frame env) stmts last
        fun part _ => uniform.execs related part

theorem Heap.Constant.get_eq {heap : Heap} {env place : FrameId} {name : String} {value : Value}
    (constant : heap.Constant env name value) (found : heap.holder? place name = some env) :
    Store.get place name heap = (.ok value, heap) := by
  have read : heap.get? place name = some value := by
    simp only [Heap.get?, Heap.lookup?, found, constant.bound, Option.map_some]
  unfold Store.get
  rw [Store.read_bind, read]
  rfl

namespace Engine

variable (loader : Option Loader) (depth : Nat) {α : Type} {state next : State} {env : FrameId}

/-- Whatever evaluation is asked for, a frame that was there does not become that of an instance. -/
theorem fulfil_apart (request : Request α) (apart : state.heap.Apart env)
    (left : ((ofDepth loader depth).fulfil request state).state? = some next) :
    next.heap.Apart env := by
  have uniform := (Heap.Apart.kept env).uniform
  have related := (Heap.Apart.kept env).ofDepth (fun _ => trivial) (fun _ _ before => before)
    loader depth
  have supers := uniform.supers related fun _ => trivial
  exact uniform.answer related supers request state next left apart

/-- While no method is noted in a frame, none is when what is left to do is done, and the sealed
evaluator does the same. -/
theorem finish_unnoted (rest : Rest α) (name : String) (old : env < state.heap.frames.size)
    (unnoted : state.heap.noted? env = none)
    (left : ((ofDepth loader depth).finish rest state).state? = some next) :
    next.heap.noted? env = none ∧
      (sealed env name loader depth).finish rest state
        = (ofDepth loader depth).finish rest state := by
  have related := SameWhile.uniform.finish (sealed_sameWhile env name loader depth) rest
  obtain ⟨same, notes⟩ := related state ⟨old, unnoted⟩ (Outcome.ended_of_left left)
  exact ⟨(notes next left).2, same⟩

theorem finish_constant (rest : Rest α) {name : String} {value : Value}
    (constant : state.heap.Constant env name value)
    (same : (sealed env name loader depth).finish rest state
      = (ofDepth loader depth).finish rest state)
    (left : ((ofDepth loader depth).finish rest state).state? = some next) :
    next.heap.Constant env name value := by
  have kept := (Heap.Constant.kept env name value).uniform.finish
    (sealed_constant env name value loader depth) rest
  exact kept state next (by rw [same]; exact left) constant

end Engine

/-- Frames in which statements run are new at first, and so not those of instances, and they do not
become that, whatever evaluation is asked for. What is declared to be a constant in one of them is
one. It keeps its value whatever is left to do and however that ends, and wherever its name is found
in its frame it reads as that value. This holds without exception of a frame in which no method is
noted, and such a frame remains one. In the frame of a method it holds unless a `super` call that is
made there binds a parameter of the name, and one that does and comes back leaves a variable in
place of the constant. -/
theorem constants_last (loader : Option Loader) (depth : Nat) :
    (∀ (heap : Heap) (env : FrameId), (∀ (id : Nat) (object : Object),
        heap.objects[id]? = some object → object.frame < heap.frames.size) →
      (Store.child env heap).2.Apart heap.frames.size) ∧
    (∀ {α : Type} (request : Request α) (state next : State) (env : FrameId),
      state.heap.Apart env →
      ((Engine.ofDepth loader depth).fulfil request state).state? = some next →
        next.heap.Apart env) ∧
    (∀ (heap : Heap) (env : FrameId) (name : String) (value : Value), heap.Apart env →
      (Store.setConst env name value heap).1 = .ok () →
        (Store.setConst env name value heap).2.Constant env name value) ∧
    (∀ {α : Type} (rest : Rest α) (state next : State) (env : FrameId) (name : String)
        (value : Value), state.heap.Constant env name value →
      (state.heap.noted? env = none ∨
        (Engine.sealed env name loader depth).finish rest state ≠ .spent) →
      ((Engine.ofDepth loader depth).finish rest state).state? = some next →
        next.heap.Constant env name value ∧
        (state.heap.noted? env = none → next.heap.noted? env = none) ∧
        ∀ place, next.heap.holder? place name = some env →
          Store.get place name next.heap = (.ok value, next.heap)) ∧
    ∀ (target : Option String) (args : List Value) (place : FrameId) (pos : Position)
        (state next : State) (env : FrameId) (name : String) (value : Value),
      state.heap.rebinds env name target place = true →
      (Engine.ofDepth loader depth).callSuper target args place pos state = .done value next →
        next.heap.IsVariable env name := by
  refine ⟨fun heap env => .child env,
    fun request state next env apart => Engine.fulfil_apart loader depth request apart,
    fun heap env name value apart succeeds => .declared apart succeeds,
    fun rest state next env name value constant allowed left => ?_,
    fun target args place pos state next env name value =>
      Engine.callSuper_isVariable loader depth⟩
  have unnoted (unshared : state.heap.noted? env = none) :=
    Engine.finish_unnoted loader depth rest name constant.apart.old unshared left
  have same : (Engine.sealed env name loader depth).finish rest state
      = (Engine.ofDepth loader depth).finish rest state := by
    rcases allowed with unshared | finishes
    · exact (unnoted unshared).2
    · have agrees := Agrees.uniform.finish (Engine.sealed_agrees env name loader depth) rest
      exact (agrees state finishes).symm
  have after := Engine.finish_constant loader depth rest constant same left
  exact ⟨after, fun unshared => (unnoted unshared).1, fun place found => after.get_eq found⟩

def Method.takes : Method :=
  ⟨⟨some "k", [⟨"x", none⟩], .value (.ident .unknown "x"), .unknown⟩, 0⟩

/-- The heap after a class `A` with a method that takes nothing and one that takes `x`, and a class
`B` that extends it, while a method of `B` runs in the second frame, after `const x = "one"`. -/
def Heap.promised : Heap :=
  { chain with
    frames := #[⟨.empty, none, ".", none⟩,
      ⟨⟨[("x", ⟨.text "one", true⟩)]⟩, some 0, ".", some ⟨1, "m"⟩⟩]
    blueprints := #[⟨"A", none, .empty, ⟨[("m", .greets), ("k", .takes)]⟩, 0⟩,
      ⟨"B", some 0, .empty, ⟨[("m", .asks)]⟩, 0⟩] }

theorem Heap.promised_constant : Heap.promised.Constant 1 "x" (.text "one") :=
  ⟨rfl, by decide, fun _ _ found => by simp [promised, chain, empty] at found⟩

/-- The constant outlasts `super.m()` and an assignment; `super.k("two")` makes it a variable. -/
theorem constants_last_promised :
    let state : State := .ofHeap .promised
    let rest : Rest Signal := .body 1
      [.expr .unknown (.call .unknown (.super_ .unknown (some "m")) []),
        .assign .unknown (.ident .unknown "x") .set (.literal .unknown (.text "two"))] .nil
    (∃ next, ((Engine.ofDepth none 3).finish rest state).state? = some next ∧
      next.heap.Constant 1 "x" (.text "one")) ∧
    ∃ value next, (Engine.ofDepth none 3).callSuper (some "k") [.text "two"] 1 .unknown state
        = .done value next ∧
      next.heap.IsVariable 1 "x" := by
  intro state rest
  obtain ⟨-, -, -, lasts, again⟩ := constants_last none 3
  constructor
  · have finishes : ((Engine.sealed 1 "x" none 3).finish rest state).isSpent = false := by
      decide +kernel
    have ended : ((Engine.ofDepth none 3).finish rest state).state?.isSome = true := by
      decide +kernel
    obtain ⟨next, left⟩ := Option.isSome_iff_exists.mp ended
    exact ⟨next, left, (lasts rest state next 1 "x" (.text "one") Heap.promised_constant
      (Or.inr (Outcome.isSpent_eq_false_iff.mp finishes)) left).1⟩
  · have rebinds : state.heap.rebinds 1 "x" (some "k") 1 = true := by decide +kernel
    have returns : ((Engine.ofDepth none 3).callSuper (some "k") [.text "two"] 1 .unknown
        state).isDone = true := by decide +kernel
    cases ended : (Engine.ofDepth none 3).callSuper (some "k") [.text "two"] 1 .unknown state with
    | done value next =>
        exact ⟨value, next, rfl,
          again (some "k") [.text "two"] 1 .unknown state next 1 "x" value rebinds ended⟩
    | fault | spent =>
        rw [ended] at returns
        cases returns

end Rill

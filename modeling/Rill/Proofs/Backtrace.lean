import Rill.Proofs.Raised
import Rill.Proofs.Bookkeeping

/-!
# Exact backtraces

A fault that reaches a host lists the calls that were active where it was raised. `Reports` says of
an execution that whenever it ends in a fault there is a place where the fault was raised, and that
otherwise the active calls are as they were. It passes through all of evaluation as long as the
limiter is not started over, and what is noted on the way from that place is known from
`Raised.underway`.

Statements only run where the innermost active call is of a function of a program, or where no call
is active. Values of expressions are also asked for below native functions: the defaults of fields,
when a native function makes an instance.
-/

set_option autoImplicit false

namespace Rill

namespace Outcome

def fault? {α : Type} : Outcome α → Option Fault
  | fault problem _ => some problem
  | _ => none

theorem eq_fault_of_fault? {α : Type} {outcome : Outcome α} {problem : Fault}
    (found : outcome.fault? = some problem) : ∃ next, outcome = .fault problem next := by
  cases outcome with
  | fault problem next =>
      cases found
      exact ⟨next, rfl⟩
  | done | spent => cases found

end Outcome

/-- An end of an execution is the end of another one, too, unless it gives up. When it is a fault,
that was raised somewhere, and otherwise the active calls are as they were. -/
inductive Tells {α : Type} (y : Exec α) (state : State) (active : List ActiveCall) :
    Outcome α → Prop where
  | done {a : α} {next : State} (same : y state = .done a next)
      (back : next.limiter.calls = state.limiter.calls) : Tells y state active (.done a next)
  | fault {fault : Fault} {next : State} {calls : List ActiveCall}
      (same : y state = .fault fault next) (raised : Raised y state active calls) :
      Tells y state active (.fault fault next)
  | spent : Tells y state active .spent

/-- An execution ends as another one does, and faults were raised somewhere, when the calls that are
active at its beginning fit. -/
def Reports (fits : List ActiveCall → Prop) : Relation := fun _ x y =>
  ∀ state active, fits active → ActiveCall.names active = state.limiter.calls →
    Tells y state active (x state)

theorem Raised.back {α : Type} {x : Exec α} {state next : State} {active calls : List ActiveCall}
    {fault : Fault} (raised : Raised x state active calls)
    (known : ActiveCall.names active = state.limiter.calls) (ended : x state = .fault fault next) :
    next.limiter.calls = state.limiter.calls := by
  obtain ⟨other, after, same, back, -⟩ := raised.underway known
  rw [ended] at same
  cases same
  exact back

theorem Tells.later {α β : Type} {y : Exec α} {g : α → Exec β} {state between : State}
    {active : List ActiveCall} {a : α} {outcome : Outcome β} (same : y state = .done a between)
    (back : between.limiter.calls = state.limiter.calls)
    (tells : Tells (g a) between active outcome) : Tells (y >>= g) state active outcome := by
  cases tells with
  | done same' back' => exact .done (by simp only [Exec.bind_eq, same, same']) (back'.trans back)
  | fault same' raised =>
      exact .fault (by simp only [Exec.bind_eq, same, same']) (.later same back raised)
  | spent => exact .spent

namespace Reports

variable {fits : List ActiveCall → Prop} {α β : Type} {x y : Exec α}

theorem mono {other : List ActiveCall → Prop} (weaker : ∀ active, other active → fits active)
    (reports : Reports fits α x y) : Reports other α x y :=
  fun state active fitting => reports state active (weaker active fitting)

theorem still (still : ∀ state, ∃ a next,
    x state = .done a next ∧ next.limiter.calls = state.limiter.calls) : Reports fits α x x := by
  intro state active _ _
  obtain ⟨a, next, same, back⟩ := still state
  rw [same]
  exact .done same back

theorem bind {f g : α → Exec β} (first : Reports fits α x y)
    (second : ∀ a, Reports fits β (f a) (g a)) : Reports fits β (x >>= f) (y >>= g) := by
  intro state active fitting known
  have begun := first state active fitting known
  rw [Exec.bind_eq]
  generalize x state = outcome at begun ⊢
  cases begun with
  | done same back =>
      exact .later same back (second _ _ active fitting (known.trans back.symm))
  | fault same raised => exact .fault (by simp only [Exec.bind_eq, same]) (.first raised)
  | spent => exact .spent

/-- An operation of the heap, which is never refused by the limiter. -/
theorem store {x : Store α}
    (own : ∀ heap cause, (x heap).1 = .error cause → cause.isLimit = false) :
    Reports fits α (liftM x) (liftM x) := by
  intro state active _ _
  rw [Exec.store_eq]
  cases same : x state.heap with
  | mk result heap =>
      cases result with
      | ok a => exact .done (by rw [Exec.store_eq, same]) rfl
      | error cause =>
          have failed : (x state.heap).1 = .error cause := by rw [same]
          exact .fault (by rw [Exec.store_eq, same])
            (.store (own state.heap cause failed) failed active)

theorem locate (pos : Position) (inner : Reports fits α x y) :
    Reports fits α (Exec.locate pos x) (Exec.locate pos y) := by
  intro state active fitting known
  have inner := inner state active fitting known
  rw [Exec.locate_eq]
  generalize x state = outcome at inner ⊢
  cases inner with
  | done same back => exact .done (by rw [Exec.locate_eq, same]; rfl) back
  | fault same raised => exact .fault (by rw [Exec.locate_eq, same]; rfl) (.locate pos raised)
  | spent => exact .spent

theorem traced (inProgram : ∀ active, fits active → ActiveCall.InProgram active)
    (inner : Reports fits α x y) : Reports fits α (Exec.traced x) (Exec.traced y) := by
  intro state active fitting known
  have inner := inner state active fitting known
  rw [Exec.traced_eq]
  generalize x state = outcome at inner ⊢
  cases inner with
  | done same back => exact .done (by rw [Exec.traced_eq, same]; rfl) back
  | fault same raised =>
      exact .fault (by rw [Exec.traced_eq, same]; rfl) (.traced (inProgram active fitting) raised)
  | spent => exact .spent

theorem loading (key : String) (inner : Reports fits α x y) :
    Reports fits α (Exec.loading key x) (Exec.loading key y) := by
  intro state active fitting known
  have inner := inner { state with loading := key :: state.loading } active fitting known
  rw [Exec.loading_eq]
  generalize x { state with loading := key :: state.loading } = outcome at inner ⊢
  cases inner with
  | done same back => exact .done (by rw [Exec.loading_eq, same]; rfl) back
  | fault same raised => exact .fault (by rw [Exec.loading_eq, same]; rfl) (.loading raised)
  | spent => exact .spent

theorem asMethod (env : FrameId) (method : MethodRef) (inner : Reports fits α x y) :
    Reports fits α (Exec.asMethod env method x) (Exec.asMethod env method y) := by
  intro state active fitting known
  have inner := inner { state with heap := (Store.setMethod env (some method) state.heap).2 }
    active fitting known
  rw [Exec.asMethod_eq]
  generalize x { state with heap := (Store.setMethod env (some method) state.heap).2 } = outcome
    at inner ⊢
  cases inner with
  | done same back => exact .done (by rw [Exec.asMethod_eq, same]; rfl) back
  | fault same raised => exact .fault (by rw [Exec.asMethod_eq, same]; rfl) (.asMethod raised)
  | spent => exact .spent

theorem ticks : TickRelated (Reports fits) := by
  intro kind pos state active _ _
  cases asked : state.limiter.tick kind pos with
  | error breach limiter =>
      simp only [Exec.tick, asked]
      exact .fault (by simp only [Exec.tick, asked]) (.tick asked active)
  | ok granted limiter =>
      simp only [Exec.tick, asked]
      exact .done (by simp only [Exec.tick, asked]) (Limiter.tick_calls asked)

theorem called {within : List ActiveCall → Prop} (call : ActiveCall) (pos : Position)
    (enters : ∀ active, within (call :: active)) (inner : Reports within α x y)
    (raises : ∀ {state : State} {limiter : Limiter} {active calls : List ActiveCall},
      state.limiter.enter call.name pos = .ok () limiter →
        Raised y { state with limiter } (call :: active) calls →
          Raised (Exec.called call.name pos y) state active calls) :
    Reports fits α (Exec.called call.name pos x) (Exec.called call.name pos y) := by
  intro state active _ known
  rw [Exec.called_eq]
  cases asked : state.limiter.enter call.name pos with
  | error breach limiter => exact .fault (by rw [Exec.called_eq, asked]) (.barred asked active)
  | ok granted limiter =>
      have entered := Limiter.enter_calls asked
      have inner := inner { state with limiter } (call :: active) (enters active)
        (by rw [entered, ← known]; rfl)
      dsimp only
      generalize x { state with limiter } = outcome at inner ⊢
      cases inner with
      | @done a next same back =>
          refine .done (by simp only [Exec.called_eq, asked, same]; rfl) ?_
          show next.limiter.calls.tail = _
          rw [back, entered, List.tail_cons]
      | fault same raised =>
          exact .fault (by simp only [Exec.called_eq, asked, same]; rfl) (raises asked raised)
      | spent => exact .spent

theorem compatible : Compatible (.anyCode True) (Reports fits) where
  pure _ := still fun state => ⟨_, state, rfl, rfl⟩
  bind := bind
  raise _ own state active _ _ := .fault rfl (.raise own state active)
  locate pos _ _ inner := locate pos inner
  child env _ _ inner := bind (store fun _ _ failed => by cases failed) fun frame =>
    inner frame ⟨⟨trivial, trivial⟩, trivial⟩
  store ordinary := store fun heap cause => ordinary.isLimit_eq_false heap cause
  lookUp _ _ _ found state active fitting known := .later rfl rfl
    (found state.heap (state.heap.holds_anyCode trivial) state active fitting known)
  print _ text := still fun state => ⟨_, _, rfl, rfl⟩

theorem methodRelated : MethodRelated (.anyCode True) (Reports fits) where
  fresh _ _ _ _ inner := compatible.child _ fun frame held =>
    bind (store fun _ _ failed => by cases failed) fun _ => inner frame held
  during env _ method _ _ inner := asMethod env method inner

end Reports

/-! ## Engines -/

def Job.fits {α : Type} : Job α → List ActiveCall → Prop
  | .exec _ _ => ActiveCall.InProgram
  | _ => fun _ => True

/-- The second engine performs every job as the first one does, and its faults were raised
somewhere. -/
structure Reporting (first second : Engine) : Prop where
  jobs {α : Type} (job : Job α) :
    Reports job.fits α (first.perform job) (second.perform job)
  passes : first.passes ≤ second.passes
  loaders : first.loader = second.loader

namespace Reporting

variable {first second : Engine} {fits : List ActiveCall → Prop}
variable (related : Reporting first second)
include related

theorem evals (expr : Expr) : EvalRelated (Reports fits) first second expr :=
  fun env => (related.jobs (.eval expr env)).mono fun _ _ => trivial

theorem execs (stmt : Stmt) :
    ExecRelated (.anyCode True) (Reports ActiveCall.InProgram) first second stmt :=
  fun env _ => related.jobs (.exec stmt env)

theorem calls : CallRelated (Reports fits) first second :=
  fun callee args pos => (related.jobs (.call callee args pos)).mono fun _ _ => trivial

/-! ## Calls -/

theorem invokeRelated : InvokeRelated (.anyCode True) (Reports fits) first second := by
  intro fn _ env _ args pos
  have runs : Reports ActiveCall.InProgram Value (first.runFunction fn env args)
      (second.runFunction fn env args) :=
    Reports.compatible.enter fn ⟨trivial, trivial⟩ args (fun part _ => related.evals part)
      fun part _ => related.execs part
  refine .locate pos (.called ⟨fn.label, false⟩ pos (fun active call innermost => ?_)
    (runs.traced fun _ fitting => fitting) Raised.function)
  cases innermost
  rfl

theorem supers : SuperRelated (Reports fits) first second :=
  Reports.compatible.callSuper (fun env => Reports.methodRelated.during env trivial)
    fun fn held env args pos => related.invokeRelated fn held env ⟨trivial, trivial⟩ args pos

theorem act {act : HostAct} (continued : act.Only (· ≠ .reset)) :
    Reports fits Value (first.act act) (second.act act) := by
  refine Reports.compatible.act trivial related.calls (.still fun _ => ⟨_, _, rfl, rfl⟩)
    (fun change going => .still fun state => ⟨_, _, rfl, ?_⟩) act continued
  exact Limiter.Change.calls_apply going state.limiter

theorem callNative (native : Native) (args : List Value) (pos : Position)
    (continued : native.resets = false) :
    Reports fits Value (Exec.called native.label pos (first.callNative native args))
      (Exec.called native.label pos (second.callNative native args)) := by
  have inner : Reports (fun _ => True) Value (first.callNative native args)
      (second.callNative native args) := by
    refine Reports.compatible.callNative native args trivial related.calls
      (fun name env pos _ => related.supers name args env pos) fun fn same => ?_
    subst same
    exact related.act (fn.honest continued args)
  exact .called ⟨native.label, true⟩ pos (fun _ => trivial) inner Raised.native

theorem callById (id : Nat) (args : List Value) (pos : Position) {state : State}
    (continued : (Job.call (.native id) args pos).resets state = false)
    {active : List ActiveCall} (known : ActiveCall.names active = state.limiter.calls) :
    Tells (second.callValue (.native id) args pos) state active
      (first.callValue (.native id) args pos state) := by
  cases found : state.heap.natives[id]? with
  | none =>
      simp only [Engine.callValue, Exec.bind_eq, Exec.read, found]
      exact .done (by simp only [Exec.bind_eq, Exec.read, found]; rfl) rfl
  | some native =>
      have continued : native.resets = false := by
        simpa only [Job.resets, found] using continued
      have reports : Reports (fun _ => True) Value _ _ :=
        (related.callNative native args pos continued).locate pos
      have inner := reports state active trivial known
      simp only [Engine.callValue, Exec.bind_eq, Exec.read, found]
      exact .later (a := some native) (by simp only [Exec.read, found]) rfl inner

/-! ## Statements -/

theorem execBlock (body : Block) (env : FrameId) : Reports ActiveCall.InProgram Signal
    (first.execBlock body env) (second.execBlock body env) :=
  Reports.compatible.execBlock body env fun part _ => related.execs part

theorem handle (handler : Handler) (fault : Fault) (env : FrameId) :
    Reports ActiveCall.InProgram Signal (first.handle handler fault env)
      (second.handle handler fault env) :=
  Reports.compatible.child env fun _ held =>
    Reports.compatible.bind (Reports.compatible.store (.caught fault)) fun value =>
      Reports.compatible.bind
        (Reports.compatible.store (.define held.overwrites handler.name value)) fun _ =>
          Reports.compatible.execAll held.frame handler.body.stmts .nil
            fun part _ => related.execs part

theorem execGuarded (body : Block) (handler : Option Handler) (env : FrameId) :
    Reports ActiveCall.InProgram Signal (first.execGuarded body handler env)
      (second.execGuarded body handler env) := by
  intro state active fitting known
  have inner := related.execBlock body env state active fitting known
  cases handler with
  | none =>
      rw [Engine.execGuarded_none]
      generalize first.execBlock body env state = outcome at inner ⊢
      cases inner with
      | done same back => exact .done (by rw [Engine.execGuarded_none, same]) back
      | fault same raised => exact .fault (by rw [Engine.execGuarded_none, same]) (.unhandled raised)
      | spent => exact .spent
  | some handler =>
      rw [Engine.execGuarded_some]
      generalize first.execBlock body env state = outcome at inner ⊢
      cases inner with
      | done same back => exact .done (by simp only [Engine.execGuarded_some, same]) back
      | @fault fault between _ same raised =>
          have back := raised.back known same
          have handled := related.handle handler fault env between active fitting
            (known.trans back.symm)
          dsimp only
          generalize first.handle handler fault env between = outcome at handled ⊢
          cases handled with
          | done same' back' =>
              exact .done (by simp only [Engine.execGuarded_some, same, same']) (back'.trans back)
          | fault same' raised' =>
              exact .fault (by simp only [Engine.execGuarded_some, same, same'])
                (.handler same back raised')
          | spent => exact .spent
      | spent => exact .spent

theorem cleanup {body cleanup : Block} {handler : Option Handler} {env : FrameId}
    {state between : State} {active : List ActiveCall} {ended : Outcome Signal}
    (same : second.execGuarded body handler env state = ended)
    (left : ended.state? = some between) (back : between.limiter.calls = state.limiter.calls)
    (raised : ∀ fault, ended = .fault fault between →
      ∃ calls, Raised (second.execGuarded body handler env) state active calls)
    (fitting : ActiveCall.InProgram active)
    (known : ActiveCall.names active = state.limiter.calls) :
    Tells (second.execTry body handler (some cleanup) env) state active
      (match first.execBlock cleanup env between with
      | .done (.normal _) next => ended.mapState fun _ => next
      | outcome => outcome) := by
  have cleaned := related.execBlock cleanup env between active fitting (known.trans back.symm)
  generalize first.execBlock cleanup env between = outcome at cleaned ⊢
  cases cleaned with
  | @done signal next normal back' =>
      cases signal with
      | normal value =>
          cases ended with
          | done a before =>
              exact .done (by simp only [Engine.execTry_some, same, left, normal, Outcome.mapState])
                (back'.trans back)
          | fault fault before =>
              cases left
              obtain ⟨calls, raised⟩ := raised fault rfl
              exact .fault (by
                simp only [Engine.execTry_some, same, Outcome.state?, normal, Outcome.mapState])
                (.cleaned raised same normal back')
          | spent => cases left
      | _ =>
          exact .done (by simp only [Engine.execTry_some, same, left, normal]) (back'.trans back)
  | fault same' raised' =>
      exact .fault (by simp only [Engine.execTry_some, same, left, same'])
        (.cleanup (by rw [same, left]) back raised')
  | spent => exact .spent

theorem execTry (body : Block) (handler : Option Handler) (cleanup : Option Block)
    (env : FrameId) :
    Reports ActiveCall.InProgram Signal (first.execTry body handler cleanup env)
      (second.execTry body handler cleanup env) := by
  cases cleanup with
  | none => exact related.execGuarded body handler env
  | some cleanup =>
      intro state active fitting known
      have guarded := related.execGuarded body handler env state active fitting known
      rw [Engine.execTry_some]
      generalize first.execGuarded body handler env state = outcome at guarded ⊢
      cases guarded with
      | done same back =>
          exact related.cleanup same rfl back (fun _ other => by cases other) fitting known
      | fault same raised =>
          exact related.cleanup same rfl (raised.back known same) (fun _ _ => ⟨_, raised⟩)
            fitting known
      | spent => exact .spent

/-! ## Steps -/

theorem evalStep (expr : Expr) (env : FrameId) :
    Reports fits Value (first.evalStep expr env) (second.evalStep expr env) :=
  .locate expr.pos (Reports.compatible.evalForm expr env (fun part _ => related.evals part)
    (fun _ _ => trivial) (fun _ => related.calls) (fun _ => related.supers) (fun _ => trivial)
    (Reports.compatible.passRelated Reports.ticks))

theorem importRelated :
    ImportRelated (.anyCode True) (Reports ActiveCall.InProgram) first second :=
  fun path name _ held => Reports.compatible.importBy related.loaders path name held
    fun _ _ found _ _ => Reports.compatible.openModule
      (.still fun _ => ⟨_, _, rfl, rfl⟩) (fun _ => .still fun _ => ⟨_, _, rfl, rfl⟩)
      (fun key _ _ inner => inner.loading key) (fun _ _ => .still fun _ => ⟨_, _, rfl, rfl⟩)
      found _ fun _ _ part _ => related.execs part

theorem execStep (stmt : Stmt) (env : FrameId) : Reports ActiveCall.InProgram Signal
    (first.execStep stmt env) (second.execStep stmt env) := by
  refine .locate stmt.pos (Reports.compatible.execForm stmt (fun _ => trivial) trivial
    (fun part _ => related.evals part) (fun part _ => related.execs part) (fun _ _ => trivial)
    (fun _ _ => ⟨fun _ _ _ _ => trivial, fun _ _ => trivial⟩) ?_ ?_ (fun value shown => ?_)
    related.importRelated)
  · exact Reports.compatible.loopRelated (fun _ _ _ _ _ => .spent)
      (Reports.compatible.passRelated Reports.ticks) related.passes stmt env
      (fun part _ => related.evals part) fun part _ => related.execs part
  · cases stmt with
    | try_ => exact related.execTry _ _ _ _
    | _ => trivial
  · exact (Reports.compatible.raise _ rfl).traced fun _ fitting => fitting

theorem callStep (callee : Value) (args : List Value) (pos : Position)
    (nonnative : ∀ id, callee ≠ .native id) :
    Reports fits Value (first.callValue callee args pos) (second.callValue callee args pos) :=
  Reports.compatible.callValue Reports.methodRelated related.invokeRelated
    (fun part _ => related.evals part) callee args pos
    fun id _ native _ => absurd native (nonnative id)

theorem step {α : Type} (job : Job α) {state : State} (continued : job.resets state = false)
    {active : List ActiveCall} (fitting : job.fits active)
    (known : ActiveCall.names active = state.limiter.calls) :
    Tells (second.step job) state active (first.step job state) := by
  cases job with
  | eval expr env => exact related.evalStep expr env state active fitting known
  | exec stmt env => exact related.execStep stmt env state active fitting known
  | call callee args pos =>
      by_cases native : ∃ id, callee = .native id
      · obtain ⟨id, rfl⟩ := native
        exact related.callById id args pos continued known
      · exact related.callStep callee args pos (fun id same => native ⟨id, same⟩) state active
          fitting known

theorem outside : EnginesRelated (Reports (· = [])) first second := by
  refine ⟨fun job => (related.jobs job).mono ?_, related.passes, related.loaders⟩
  rintro _ rfl
  cases job with
  | exec => simp [Job.fits, ActiveCall.InProgram]
  | eval | call => trivial

end Reporting

namespace Engine

theorem watched_reports (loader : Option Loader) (depth : Nat) :
    Reporting (watched noReset loader depth) (ofDepth loader depth) := by
  induction depth with
  | zero => exact ⟨fun _ _ _ _ _ => .spent, Nat.le_refl _, rfl⟩
  | succ depth ih =>
      refine ⟨fun job state active fitting known => ?_, Nat.le_refl _, rfl⟩
      rcases watched_perform noReset loader depth job state with gone | ⟨passed, stepped⟩
      · rw [gone]
        exact .spent
      · rw [stepped, perform_succ]
        exact ih.step job (by simpa [noReset] using passed) fitting known

end Engine

/-- A fault reaches a host that has asked for something, and the limiter has not been started over
in the middle. Then the fault was raised somewhere, and wherever that was, its backtrace lists
the calls that were active there. -/
theorem backtraces_exact (loader : Option Loader) {state : State} (session : Session loader state)
    (depth : Nat) {α : Type} (visit : Visit α)
    (continued : Engine.Throughout Engine.noReset loader depth (·.visit visit) state)
    {fault : Fault} {next : State}
    (ended : (Engine.ofDepth loader depth).visit visit state = .fault fault next) :
    (∃ calls, Raised ((Engine.ofDepth loader depth).visit visit) state [] calls) ∧
      ∀ calls, Raised ((Engine.ofDepth loader depth).visit visit) state [] calls →
        fault.backtrace = ActiveCall.listed fault.cause calls := by
  have idle : ActiveCall.names [] = state.limiter.calls :=
    (List.eq_nil_of_length_eq_zero session.idle.1).symm
  refine ⟨?_, fun calls raised => ?_⟩
  · have reset : ResetRelated (Reports (· = [])) := by
      rintro before active rfl known
      exact .done rfl known
    have told := Reports.compatible.visit reset trivial trivial
      (Engine.watched_reports loader depth).outside visit state [] rfl idle
    have plain := Agrees.uniform.toCompatible.visit (fun _ _ => rfl) trivial trivial
      (Engine.watched_agrees Engine.noReset loader depth) visit state continued
    rw [← plain, ended] at told
    cases told with
    | fault same raised => exact ⟨_, raised⟩
  · obtain ⟨other, after, same, -, underway⟩ := raised.underway idle
    rw [ended] at same
    cases same
    exact underway.backtrace_eq

/-- A native function fails below another one, and the fault passes through a `finally` and a
function: `func f() { try { [true].map(len) } finally {} }` and `f()`. -/
def Program.cleaning : Program :=
  let mapped : Expr := .member .unknown (.array .unknown [.literal .unknown (.bool true)]) "map" false
  let body : Block := ⟨[.expr .unknown (.call .unknown mapped [.ident .unknown "len"])], .unknown⟩
  let guarded : Stmt := .try_ .unknown body none (some ⟨[], .unknown⟩)
  ⟨[.function .unknown ⟨some "f", [], .block ⟨[guarded], .unknown⟩, .unknown⟩,
    .expr .unknown (.call .unknown (.ident .unknown "f") [])], "."⟩

/-- Three calls are active where the fault is raised, and those of native functions are left out. -/
theorem backtraces_exact_cleaning : ∃ fault next calls,
    (Engine.ofDepth none 9).visit (.run .cleaning) (Setup.plain .default).start
      = .fault fault next ∧
    Raised ((Engine.ofDepth none 9).visit (.run .cleaning)) (Setup.plain .default).start [] calls ∧
    fault.backtrace = ActiveCall.listed fault.cause calls ∧ fault.backtrace = ["f"] := by
  have failed : ((Engine.ofDepth none 9).visit (.run .cleaning)
      (Setup.plain .default).start).fault?.map (·.backtrace) = some ["f"] := by
    decide +kernel
  obtain ⟨fault, found, noted⟩ := Option.map_eq_some_iff.mp failed
  obtain ⟨next, ended⟩ := Outcome.eq_fault_of_fault? found
  obtain ⟨⟨calls, raised⟩, exact_⟩ := backtraces_exact none (.start (Setup.plain .default)) 9
    (.run .cleaning) (by decide +kernel) ended
  exact ⟨fault, next, calls, ended, raised, exact_ calls raised, noted⟩

end Rill

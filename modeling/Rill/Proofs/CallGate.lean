import Rill.Proofs.Kept
import Rill.Proofs.Limiter

/-!
# The gate before calls

In a state in which the limiter grants no call, a call of a native function or of a closure is
refused before it has any effect. A call of a blueprint is not: it makes an instance first, and
only a constructor asks the limiter.

What goes on before is harmless all the same. The expressions that fields start from come to no
statement and to no native function, so they can only add cells, bind names in frames that are new,
and count passes of comprehensions (`Untouched`).
-/

set_option autoImplicit false

namespace Rill

/-- Any code may run, but names are bound in frames from a number on alone and nothing else is
affected. -/
def Permits.above (base : FrameId) : Permits :=
  ⟨fun _ => True, fun _ => True, True, fun env => base ≤ env, fun env => base ≤ env,
    fun env => base ≤ env, False⟩

theorem Permits.above_fresh {base env : FrameId} (new : base ≤ env) : (above base).Fresh env :=
  ⟨⟨new, new⟩, new⟩

namespace Heap

/-- Frames below a number are as they were, and so are all arrays and records. -/
structure Extends (base : FrameId) (heap next : Heap) : Prop where
  size : heap.frames.size ≤ next.frames.size
  frames (env : FrameId) (old : env < base) : next.frames[env]? = heap.frames[env]?
  arrays : heap.arrays.toList <+: next.arrays.toList
  records : heap.records.toList <+: next.records.toList

namespace Extends

variable {base : FrameId}

theorem of_same {heap next : Heap} (frames : next.frames = heap.frames)
    (arrays : next.arrays = heap.arrays) (records : next.records = heap.records) :
    Extends base heap next := by
  have prefixed : ∀ {α : Type} {items others : List α}, others = items → items <+: others :=
    fun same => same ▸ List.prefix_refl _
  refine ⟨Nat.le_of_eq (by rw [frames]), fun env _ => by rw [frames], prefixed ?_, prefixed ?_⟩
  · rw [arrays]
  · rw [records]

theorem trans {before between after : Heap} (first : Extends base before between)
    (second : Extends base between after) : Extends base before after := by
  refine ⟨Nat.le_trans first.size second.size, fun env old => ?_,
    first.arrays.trans second.arrays, first.records.trans second.records⟩
  rw [second.frames env old, first.frames env old]

theorem push (heap : Heap) (frame : Frame) (room : base ≤ heap.frames.size) :
    Extends base heap { heap with frames := heap.frames.push frame } := by
  refine ⟨by simp, fun env old => ?_, List.prefix_refl _, List.prefix_refl _⟩
  have earlier : env ≠ heap.frames.size := Nat.ne_of_lt (Nat.lt_of_lt_of_le old room)
  simp [Array.getElem?_push, earlier]

theorem changeFrame (heap : Heap) {env : FrameId} (f : Frame → Frame) (new : base ≤ env) :
    Extends base heap (heap.changeFrame env f) := by
  refine ⟨by simp, fun other old => ?_, List.prefix_refl _,
    List.prefix_refl _⟩
  have different : env ≠ other := Nat.ne_of_gt (Nat.lt_of_lt_of_le old new)
  simp [Heap.changeFrame, Array.getElem?_modify, different]

theorem during {heap next : Heap} (env : FrameId) (method : Option MethodRef)
    (inner : Extends base (Store.setMethod env method heap).2 next) :
    Extends base heap
      (Store.setMethod env (heap.frames[env]?.bind Frame.method) next).2 := by
  refine ⟨by simpa using inner.size, ?_, inner.arrays, inner.records⟩
  intro other old
  have kept := inner.frames other old
  simp only [Store.setMethod, Store.change, Heap.changeFrame, Array.getElem?_modify] at kept ⊢
  by_cases same : env = other
  · subst same
    rw [if_pos rfl] at kept ⊢
    rw [kept]
    cases heap.frames[env]? <;> rfl
  · rw [if_neg same] at kept ⊢
    exact kept

end Extends

end Heap

theorem Store.Ordinary.extends {base : FrameId} {α : Type} {x : Store α}
    (ordinary : Store.Ordinary (.above base) x) (heap : Heap) (room : base ≤ heap.frames.size) :
    Heap.Extends base heap (x heap).2 := by
  induction ordinary generalizing heap with
  | bind first second ihFirst ihSecond =>
      have begun := ihFirst heap room
      exact Store.bind_leaves begun fun a =>
        begun.trans (ihSecond a _ (Nat.le_trans room begun.size))
  | newArray items =>
      exact ⟨Nat.le_refl _, fun _ _ => rfl, by simp [Store.newArray], List.prefix_refl _⟩
  | newRecord fields =>
      exact ⟨Nat.le_refl _, fun _ _ => rfl, List.prefix_refl _, by simp [Store.newRecord]⟩
  | child env => exact .push heap _ room
  | write op =>
      rcases op.heap_eq heap with same | ⟨env, name, variable_, new | new | effects, bound⟩
      · exact .of_same (by rw [same]) (by rw [same]) (by rw [same])
      · rw [bound]
        exact .changeFrame heap _ new
      · rw [bound]
        exact .changeFrame heap _ new
      · exact effects.elim
  | setDir env dir new => exact .changeFrame heap _ new
  | changeArray id f effects => exact effects.elim
  | changeRecord id f effects => exact effects.elim
  | _ => exact .of_same rfl rfl rfl

/-- Nothing that was there is affected but the number of passes counted and the clock, and when the run
was cancelled only the clock. -/
structure Untouched (base : FrameId) (state next : State) : Prop where
  heap : state.heap.Extends base next.heap
  limiter : ∃ passes,
    { state.limiter with iterations := state.limiter.iterations + passes }.Aged next.limiter
  cancelled : state.limiter.cancelled = true → state.limiter.Aged next.limiter
  loading : next.loading = state.loading
  modules : next.modules = state.modules
  imported : next.imported = state.imported
  output : next.output = state.output

namespace Untouched

variable {base : FrameId} {state : State}

theorem refl (base : FrameId) (state : State) : Untouched base state state :=
  ⟨.of_same rfl rfl rfl, ⟨0, .refl _⟩, fun _ => .refl _, rfl, rfl, rfl, rfl⟩

theorem aged {limiter : Limiter} (aged : state.limiter.Aged limiter) :
    Untouched base state { state with limiter } :=
  ⟨.of_same rfl rfl rfl, ⟨0, aged⟩, fun _ => aged, rfl, rfl, rfl, rfl⟩

theorem withHeap {heap : Heap} (grown : state.heap.Extends base heap) :
    Untouched base state { state with heap } :=
  ⟨grown, ⟨0, .refl _⟩, fun _ => .refl _, rfl, rfl, rfl, rfl⟩

theorem trans {before between after : State} (first : Untouched base before between)
    (second : Untouched base between after) : Untouched base before after := by
  obtain ⟨passes, taken, counted⟩ := first.limiter
  obtain ⟨more, later, recounted⟩ := second.limiter
  refine ⟨first.heap.trans second.heap, ⟨passes + more, later, ?_⟩, fun cancelled => ?_,
    second.loading.trans first.loading, second.modules.trans first.modules,
    second.imported.trans first.imported, second.output.trans first.output⟩
  · rw [recounted, counted, Nat.add_assoc]
  · have same := first.cancelled cancelled
    refine same.trans (second.cancelled ?_)
    rw [counted]
    exact cancelled

theorem shut {next : State} (untouched : Untouched base state next)
    (shut : state.limiter.Shut) : next.limiter.Shut := by
  obtain ⟨passes, taken, counted⟩ := untouched.limiter
  rw [counted]
  exact shut

end Untouched

/-- Untouched by what begins when the limiter grants no call and new frames are new. -/
def Harmless (base : FrameId) (state next : State) : Prop :=
  base ≤ state.heap.frames.size → state.limiter.Shut → Untouched base state next

namespace Harmless

variable {base : FrameId}

theorem trans {before between after : State} (first : Harmless base before between)
    (second : Harmless base between after) : Harmless base before after := by
  intro room shut
  have begun := first room shut
  exact begun.trans (second (Nat.le_trans room begun.heap.size) (begun.shut shut))

theorem kept : Kept (.above base) (Harmless base) where
  holds _ := ⟨fun _ _ _ => trivial, fun _ _ _ _ _ => trivial, fun _ _ _ _ _ _ _ => trivial,
    fun _ _ _ _ => trivial⟩
  refl state _ _ := .refl base state
  trans := trans
  store ordinary state room _ := .withHeap (ordinary.extends state.heap room)
  child env state next inner := by
    intro room shut
    have pushed : Untouched base state { state with heap := (Store.child env state.heap).2 } :=
      .withHeap (.push state.heap _ room)
    exact pushed.trans (inner (Permits.above_fresh room) (Nat.le_trans room pushed.heap.size) shut)
  print effects := effects.elim
  tick granted _ shut := by
    obtain ⟨off, -⟩ | ⟨-, running, -, rfl⟩ := Limiter.tick_ok_iff.mp granted
    · rw [shut.1] at off
      cases off
    · refine ⟨.of_same rfl rfl rfl, ⟨1, .look _⟩, fun cancelled => ?_, rfl, rfl, rfl, rfl⟩
      rw [running.1] at cancelled
      cases cancelled
  aged aged _ _ := .aged aged
  fresh env method state next inner := by
    intro room shut
    have told : Untouched base state { state with heap :=
        (Store.setMethod state.heap.frames.size method (Store.child env state.heap).2).2 } :=
      .withHeap ((Heap.Extends.push state.heap _ room).trans (.changeFrame _ _ room))
    exact told.trans (inner (Permits.above_fresh room) (Nat.le_trans room told.heap.size) shut)
  during env method state next inner := by
    intro room shut
    have still : base ≤ (Store.setMethod env (some method) state.heap).2.frames.size := by
      simpa using room
    have inside := inner still shut
    exact ⟨.during env (some method) inside.heap, inside.limiter, inside.cancelled,
      inside.loading, inside.modules, inside.imported, inside.output⟩

end Harmless

namespace Exec

theorem called_refused {α : Type} {state : State} (shut : state.limiter.Shut) (name : String)
    (pos : Position) (x : Exec α) :
    ∃ breach limiter, called name pos x state
        = .fault (.ofBreach breach limiter.calls) { state with limiter } ∧
      state.limiter.Aged limiter := by
  obtain ⟨breach, limiter, refused, aged⟩ := shut.enter name pos
  refine ⟨breach, limiter, ?_, aged⟩
  rw [called_eq, refused]

end Exec

namespace Harmless

variable {base : FrameId}

theorem called {α : Type} (name : String) (pos : Position) (x y : Exec α) :
    Keeps (Harmless base) α (Exec.called name pos x) y := by
  intro state next left _ shut
  obtain ⟨breach, limiter, refused, aged⟩ := Exec.called_refused shut name pos x
  rw [refused] at left
  cases left
  exact .aged aged

theorem invokes {first second : Engine} (fn : Function) (env : FrameId) (args : List Value)
    (pos : Position) :
    Keeps (Harmless base) Value (first.invoke fn env args pos) (second.invoke fn env args pos) :=
  kept.catching.locate pos (called fn.label pos _ _)

/-- No value of an expression and no call does more than that, however deep the engine is. -/
theorem ofDepth (loader : Option Loader) (depth : Nat) :
    (∀ expr, EvalRelated (Keeps (Harmless base)) (Engine.ofDepth loader depth)
      (Engine.ofDepth loader depth) expr) ∧
      CallRelated (Keeps (Harmless base)) (Engine.ofDepth loader depth)
        (Engine.ofDepth loader depth) := by
  induction depth with
  | zero =>
      refine ⟨fun expr env state next left => ?_, fun callee args pos state next left => ?_⟩
      · cases left
      · cases left
  | succ depth ih =>
      obtain ⟨evals, calls⟩ := ih
      have catching := (@kept base).catching
      refine ⟨fun expr env => ?_, fun callee args pos => ?_⟩
      · rw [Engine.eval, Engine.perform_succ]
        refine catching.locate expr.pos (catching.evalForm expr env (fun part _ => evals part)
          (fun _ _ => trivial) (fun _ => calls) (fun _ => ?_) (fun _ => trivial) kept.passKeeps)
        exact catching.callSuper kept.duringKeeps fun fn _ => invokes fn
      · rw [Engine.call, Engine.perform_succ]
        refine catching.callValue kept.methodRelated (fun fn _ env _ => invokes fn env)
          (fun expr _ => evals expr) callee args pos fun id native _ _ => ?_
        exact called native.label pos _ _

end Harmless

/-! ## Refusals -/

namespace Engine

variable (engine : Engine) {state : State}

theorem callClosure_refused (shut : state.limiter.Shut) (closure : Closure) (args : List Value)
    (pos : Position) : ∃ fault next, engine.callClosure closure args pos state = .fault fault next ∧
      fault.cause.isLimit = true ∧ state.limiter.Aged next.limiter := by
  let entered : State := { state with heap := (Store.setMethod state.heap.frames.size closure.method
    (Store.child closure.env state.heap).2).2 }
  have closed : entered.limiter.Shut := shut
  obtain ⟨breach, limiter, refused, aged⟩ := Exec.called_refused closed closure.fn.label pos (Exec.traced (do
    engine.bindParams state.heap.frames.size closure.fn.params args
    engine.runBody closure.fn.body state.heap.frames.size))
  refine ⟨(Fault.ofBreach breach limiter.calls).locate pos, { entered with limiter }, ?_, ?_, aged⟩
  · change engine.invoke closure.fn state.heap.frames.size args pos entered = _
    unfold invoke Exec.locate
    rw [refused]
  · rw [Fault.locate_cause]
    rfl

def furnish (id : BlueprintId) (blueprint : Blueprint) : Exec (FrameId × Value) := do
  let frame ← Store.child blueprint.env
  engine.defineFields frame blueprint.fields.entries
  Store.defineMethods frame blueprint.methods.entries
  let object ← Store.newObject ⟨id, frame⟩
  Store.define frame "self" object
  Store.define frame "this" object
  return (frame, object)

def construct (args : List Value) (pos : Position) (made : FrameId × Value) : Exec Value := do
  match ← Exec.read (·.heap.constructor? made.1) with
  | some constructor =>
      let _ ← engine.callClosure constructor args pos
      return made.2
  | none => return made.2

theorem instantiate_eq {id : BlueprintId} {blueprint : Blueprint}
    (found : state.heap.blueprints[id]? = some blueprint) (args : List Value) (pos : Position) :
    engine.instantiate id args pos state
      = (engine.furnish id blueprint >>= engine.construct args pos) state := by
  simp only [furnish, Exec.bind_assoc]
  unfold instantiate
  rw [Exec.bind_eq]
  simp only [Exec.read, found]
  rfl

end Engine

theorem Harmless.furnish {base : FrameId} {engine : Engine}
    (evals : ∀ expr, EvalRelated (Keeps (Harmless base)) engine engine expr) (id : BlueprintId)
    (blueprint : Blueprint) :
    Keeps (Harmless base) (FrameId × Value) (engine.furnish id blueprint)
      (engine.furnish id blueprint) := by
  have catching := (@kept base).catching
  refine catching.child blueprint.env fun frame held => ?_
  have fields := catching.defineFields held.overwrites blueprint.fields.entries
    fun entry _ part _ => evals part
  refine catching.bind fields fun _ => ?_
  refine catching.bind (catching.store (.defineMethods held.overwrites _ fun _ _ => trivial))
    fun _ => ?_
  refine catching.bind (catching.store (.newObject _ held.moves)) fun object => ?_
  refine catching.bind (catching.store (.define held.overwrites "self" object)) fun _ => ?_
  exact catching.bind (catching.store (.define held.overwrites "this" object))
    fun _ => catching.pure _

/-- What the gate does to a call: the limiter refuses it and is as it was, but for the clock. -/
def Gated (state : State) (outcome : Outcome Value) : Prop :=
  outcome.isRefused = true ∧ ∃ next, outcome.state? = some next ∧ state.limiter.Aged next.limiter

namespace Engine

variable (engine : Engine) {state : State}

theorem callValue_native (shut : state.limiter.Shut) {id : Nat} {native : Native}
    (found : state.heap.natives[id]? = some native) (args : List Value) (pos : Position) :
    Gated state (engine.callValue (.native id) args pos state) := by
  obtain ⟨breach, limiter, refused, aged⟩ :=
    Exec.called_refused shut native.label pos (engine.callNative native args)
  have result : engine.callValue (.native id) args pos state
      = .fault ((Fault.ofBreach breach limiter.calls).locate pos) { state with limiter } := by
    simp only [callValue, Exec.bind_eq, Exec.read, found, Exec.locate, refused]
  rw [result]
  refine ⟨?_, _, rfl, aged⟩
  simp only [Outcome.isRefused, Fault.locate_cause]
  rfl

theorem callValue_closure (shut : state.limiter.Shut) {id : Nat} {closure : Closure}
    (found : state.heap.closures[id]? = some closure) (args : List Value) (pos : Position) :
    Gated state (engine.callValue (.closure id) args pos state) := by
  obtain ⟨fault, next, refused, limit, same⟩ :=
    engine.callClosure_refused shut closure args pos
  have result : engine.callValue (.closure id) args pos state = .fault fault next := by
    simp only [callValue, Exec.bind_eq, Exec.read, found, refused]
  rw [result]
  exact ⟨limit, next, rfl, same⟩

theorem construct_isRefused (shut : state.limiter.Shut) (args : List Value) (pos : Position)
    (made : FrameId × Value) : (engine.construct args pos made state).isRefused
      = (state.heap.constructor? made.1).isSome := by
  unfold construct
  rw [Exec.bind_eq]
  simp only [Exec.read]
  cases state.heap.constructor? made.1 with
  | none => rfl
  | some constructor =>
      obtain ⟨fault, next, refused, limit, -⟩ :=
        engine.callClosure_refused shut constructor args pos
      simp only [Exec.bind_eq, refused]
      exact limit

theorem callValue_blueprint (shut : state.limiter.Shut) {id : BlueprintId} {blueprint : Blueprint}
    (found : state.heap.blueprints[id]? = some blueprint) (args : List Value) (pos : Position)
    (evals : ∀ expr, EvalRelated (Keeps (Harmless state.heap.frames.size)) engine engine expr) :
    (engine.callValue (.blueprint id) args pos state).isRefused = true ↔
      (engine.furnish id blueprint state).isRefused = true ∨
        ∃ made next, engine.furnish id blueprint state = .done made next ∧
          (next.heap.constructor? made.1).isSome = true := by
  have harmless := Harmless.furnish evals id blueprint state
  have step : engine.callValue (.blueprint id) args pos state
      = (engine.furnish id blueprint >>= engine.construct args pos) state :=
    engine.instantiate_eq found args pos
  rw [step, Exec.bind_eq]
  cases outcome : engine.furnish id blueprint state with
  | done made next =>
      have closed := (harmless next (by rw [outcome]; rfl) (Nat.le_refl _) shut).shut shut
      change (engine.construct args pos made next).isRefused = true ↔ _
      rw [engine.construct_isRefused closed]
      constructor
      · intro present
        exact Or.inr ⟨made, next, rfl, present⟩
      · rintro (refused | ⟨made, next, same, present⟩)
        · cases refused
        · cases same
          exact present
  | fault fault next => simp [Outcome.isRefused]
  | spent => simp [Outcome.isRefused]

end Engine

/-- In a state in which the limiter grants no call, nothing that was there is affected by one, and
calls of native functions and closures are refused. A call of a blueprint is refused exactly when
the start values of its fields are, or when they are found and there is a constructor to run. -/
theorem call_gate (loader : Option Loader) (depth : Nat) (callee : Value) (args : List Value)
    (pos : Position) (state : State) (shut : state.limiter.Shut) :
    (∀ next, ((Engine.ofDepth loader (depth + 1)).call callee args pos state).state? = some next →
      Untouched state.heap.frames.size state next) ∧
    (∀ id native, callee = .native id → state.heap.natives[id]? = some native →
      Gated state ((Engine.ofDepth loader (depth + 1)).call callee args pos state)) ∧
    (∀ id closure, callee = .closure id → state.heap.closures[id]? = some closure →
      Gated state ((Engine.ofDepth loader (depth + 1)).call callee args pos state)) ∧
    (∀ id blueprint, callee = .blueprint id → state.heap.blueprints[id]? = some blueprint →
      (((Engine.ofDepth loader (depth + 1)).call callee args pos state).isRefused = true ↔
        ((Engine.ofDepth loader depth).furnish id blueprint state).isRefused = true ∨
          ∃ made next, (Engine.ofDepth loader depth).furnish id blueprint state = .done made next ∧
            (next.heap.constructor? made.1).isSome = true)) := by
  have harmless := fun depth => @Harmless.ofDepth state.heap.frames.size loader depth
  refine ⟨fun next left => ?_, ?_, ?_, ?_⟩
  · exact (harmless (depth + 1)).2 callee args pos state next left (Nat.le_refl _) shut
  · rintro id native rfl found
    rw [Engine.call, Engine.perform_succ]
    exact Engine.callValue_native _ shut found args pos
  · rintro id closure rfl found
    rw [Engine.call, Engine.perform_succ]
    exact Engine.callValue_closure _ shut found args pos
  · rintro id blueprint rfl found
    rw [Engine.call, Engine.perform_succ]
    exact Engine.callValue_blueprint _ shut found args pos (harmless depth).1

/-- A state in which no call is granted, with a function and with a blueprint that has a field but
no constructor. -/
def State.gated : State :=
  let idle : Function := ⟨some "idle", [], .block ⟨[], .unknown⟩, .unknown⟩
  { heap := { Heap.empty with
      frames := #[⟨.empty, none, ".", none⟩]
      closures := #[⟨idle, 0, none⟩]
      blueprints := #[⟨"A", none, ⟨[("b", none)]⟩, .empty, 0⟩] }
    limiter := ⟨⟨0, 0, 1, true⟩, 0, [], false, 0, .ticking⟩
    loading := []
    modules := .empty
    imported := []
    output := ⟨"", false⟩ }

/-- The function is refused. The blueprint is not, and makes its instance. -/
theorem call_gate_gated :
    Gated State.gated ((Engine.ofDepth none 3).call (.closure 0) [] .unknown State.gated) ∧
      ((Engine.ofDepth none 3).call (.blueprint 0) [] .unknown State.gated).isRefused ≠ true ∧
      ∃ next, (Engine.ofDepth none 3).call (.blueprint 0) [] .unknown State.gated
        = .done (.object 0) next ∧ Untouched State.gated.heap.frames.size State.gated next := by
  have shut : State.gated.limiter.Shut := ⟨rfl, .inr (Nat.le_refl 0)⟩
  obtain ⟨-, -, closures, -⟩ := call_gate none 2 (.closure 0) [] .unknown State.gated shut
  obtain ⟨untouched, -, -, blueprints⟩ :=
    call_gate none 2 (.blueprint 0) [] .unknown State.gated shut
  refine ⟨closures 0 _ rfl rfl, fun refused => ?_, ⟨_, rfl, untouched _ rfl⟩⟩
  rcases (blueprints 0 _ rfl rfl).mp refused with early | ⟨made, next, furnished, present⟩
  · cases early
  · cases furnished
    cases present

end Rill

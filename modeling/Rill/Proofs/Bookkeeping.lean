import Rill.Proofs.Kept
import Rill.Proofs.Limiter
import Rill.Proofs.Visit

/-!
# Restored bookkeeping

Three things are changed for a while and put back: the names of the active calls, the keys of the
modules whose bodies run, and the method noted in a frame. `Restored` says that all three are as
they were. It is kept by every step of evaluation, however the step ends, as long as no function
of the host starts the limiter over.

A limiter that is started over in the middle of calls forgets them all. What is left after that is
weaker (`Settled`), but still says that a run which began with nothing active ends with nothing
active.
-/

set_option autoImplicit false

namespace Rill

namespace Heap

/-- Old frames are still there and know the methods they knew. -/
structure MethodsKept (heap next : Heap) : Prop where
  size : heap.frames.size ≤ next.frames.size
  method (env : FrameId) (old : env < heap.frames.size) :
    next.frames[env]?.bind Frame.method = heap.frames[env]?.bind Frame.method

namespace MethodsKept

theorem refl (heap : Heap) : heap.MethodsKept heap := ⟨Nat.le_refl _, fun _ _ => rfl⟩

theorem trans {before between after : Heap} (first : before.MethodsKept between)
    (second : between.MethodsKept after) : before.MethodsKept after := by
  refine ⟨Nat.le_trans first.size second.size, fun env old => ?_⟩
  rw [second.method env (Nat.lt_of_lt_of_le old first.size), first.method env old]

theorem of_frames {heap next : Heap} (same : next.frames = heap.frames) :
    heap.MethodsKept next := by
  refine ⟨Nat.le_of_eq (by rw [same]), fun env _ => ?_⟩
  rw [same]

theorem push (heap : Heap) (frame : Frame) :
    heap.MethodsKept { heap with frames := heap.frames.push frame } := by
  refine ⟨by simp, fun env old => ?_⟩
  simp only [Array.getElem?_push, Nat.ne_of_lt old, if_false]

theorem changeFrame (heap : Heap) (env : FrameId) (f : Frame → Frame)
    (still : ∀ frame, (f frame).method = frame.method) :
    heap.MethodsKept (heap.changeFrame env f) := by
  refine ⟨by simp, fun other _ => ?_⟩
  simp only [Heap.changeFrame, Array.getElem?_modify]
  split
  · cases heap.frames[other]? with
    | none => rfl
    | some frame => exact still frame
  · rfl

theorem fresh (heap : Heap) (env : FrameId) (method : Option MethodRef) :
    heap.MethodsKept
      (Store.setMethod heap.frames.size method (Store.child env heap).2).2 := by
  simp only [Store.setMethod, Store.change, Store.child, Heap.changeFrame]
  refine ⟨by simp, fun other old => ?_⟩
  have earlier : heap.frames.size ≠ other := Nat.ne_of_gt old
  simp [Array.getElem?_modify, Array.getElem?_push, earlier, earlier.symm]

theorem during {heap next : Heap} (env : FrameId) (method : Option MethodRef)
    (inner : (Store.setMethod env method heap).2.MethodsKept next) :
    heap.MethodsKept
      (Store.setMethod env (heap.frames[env]?.bind Frame.method) next).2 := by
  have size : heap.frames.size ≤ next.frames.size := by
    simpa using inner.size
  refine ⟨by simpa using size, ?_⟩
  intro other old
  have kept := inner.method other (by simpa using old)
  simp only [Store.setMethod, Store.change, Heap.changeFrame, Array.getElem?_modify] at kept ⊢
  by_cases same : env = other
  · subst same
    have present : env < next.frames.size := Nat.lt_of_lt_of_le old size
    simp [Array.getElem?_eq_getElem present]
  · simpa [same] using kept

end MethodsKept

end Heap

namespace Store.Ordinary

theorem methodsKept {permits : Permits} {α : Type} {x : Store α}
    (ordinary : Store.Ordinary permits x) (heap : Heap) : heap.MethodsKept (x heap).2 := by
  induction ordinary generalizing heap with
  | bind first second ihFirst ihSecond =>
      have begun := ihFirst heap
      exact Store.bind_leaves begun fun a => begun.trans (ihSecond a _)
  | child env => exact .push heap _
  | write op =>
      rcases op.heap_eq heap with same | ⟨env, name, variable_, -, bound⟩
      · exact .of_frames (by rw [same])
      · rw [bound]
        exact .changeFrame heap env _ fun _ => rfl
  | setDir env dir => exact .changeFrame heap env _ fun _ => rfl
  | _ => exact .of_frames rfl

end Store.Ordinary

/-! ## Executions that start nothing over -/

/-- Only starting over touches the active calls. -/
theorem Limiter.Change.calls_apply {change : Limiter.Change} (going : change ≠ .reset)
    (limiter : Limiter) : (change.apply limiter).calls = limiter.calls := by
  cases change with
  | reset => exact absurd rfl going
  | setEnabled | reconfigure | setCancelled => rfl

/-- The calls that are active, the modules that are running and the methods of old frames are as
they were. -/
structure Restored (state next : State) : Prop where
  calls : next.limiter.calls = state.limiter.calls
  loading : next.loading = state.loading
  methods : state.heap.MethodsKept next.heap

namespace Restored

theorem refl (state : State) : Restored state state := ⟨rfl, rfl, .refl _⟩

theorem trans {before between after : State} (first : Restored before between)
    (second : Restored between after) : Restored before after :=
  ⟨second.calls.trans first.calls, second.loading.trans first.loading,
    first.methods.trans second.methods⟩

theorem withHeap {state : State} {heap : Heap} (methods : state.heap.MethodsKept heap) :
    Restored state { state with heap } := ⟨rfl, rfl, methods⟩

theorem kept : KeptThroughout (.anyCode True) Restored where
  anyCode := .of_anyCode True
  holds heap := heap.holds_anyCode trivial
  refl := refl
  trans := trans
  store ordinary state := withHeap (ordinary.methodsKept state.heap)
  child env state _ inner :=
    trans (withHeap (.push state.heap _)) (inner ⟨⟨trivial, trivial⟩, trivial⟩)
  print _ _ _ := ⟨rfl, rfl, .refl _⟩
  tick granted := ⟨Limiter.tick_calls granted, rfl, .refl _⟩
  aged aged := ⟨aged.calls, rfl, .refl _⟩
  keepModule left := by
    cases left
    exact ⟨rfl, rfl, .refl _⟩
  called granted inner := by
    refine ⟨?_, inner.loading, inner.methods⟩
    have entered := inner.calls
    rw [Limiter.enter_calls granted] at entered
    simp [Limiter.leave, entered]
  loading inner := by
    refine ⟨inner.calls, ?_, inner.methods⟩
    simp [inner.loading]
  fresh env method state _ inner :=
    trans (withHeap (.fresh state.heap env method)) (inner ⟨⟨trivial, trivial⟩, trivial⟩)
  during env method _ _ inner := ⟨inner.calls, inner.loading, .during env _ inner.methods⟩

end Restored

def Native.resets : Native → Bool
  | host fn => fn.resets
  | _ => false

/-- Whether a job calls a function that may start the limiter over. -/
def Job.resets {α : Type} (job : Job α) (state : State) : Bool :=
  match job with
  | .call (.native id) _ _ =>
      match state.heap.natives[id]? with
      | some native => native.resets
      | none => false
  | _ => false

namespace Engine

def noReset : Test := fun job state _ => !job.resets state

theorem step_restored {engine : Engine}
    (related : EnginesRelated (Keeps Restored) engine engine) {α : Type} (job : Job α)
    {state next : State} (continued : job.resets state = false)
    (left : (engine.step job state).state? = some next) : Restored state next := by
  have uniform := Restored.kept.uniform
  have supers := uniform.supers related fun _ => trivial
  by_cases native : ∃ id, job.callee? = some (.native id)
  · obtain ⟨id, callee⟩ := native
    cases job with
    | eval | exec => cases callee
    | call callee args pos =>
        cases callee
        -- Which function is called depends on the state, so the step is followed from this state.
        cases found : state.heap.natives[id]? with
        | none =>
            simp only [step, callValue, Exec.bind_eq, Exec.read, found] at left
            cases left
            exact .refl state
        | some native =>
            simp only [step, callValue, Exec.bind_eq, Exec.read, found, Exec.locate_state?] at left
            refine uniform.callNative related native args pos
              (fun name env pos _ => supers name args env pos) (fun fn same => ?_) state next left
            subst same
            simp only [Job.resets, found] at continued
            refine Restored.kept.act related (fun change going state => ?_) _ (fn.honest continued args)
            exact ⟨Limiter.Change.calls_apply going state.limiter, rfl, .refl _⟩
  · refine uniform.step related supers job (fun id callee => ?_) state next left
    exact absurd ⟨id, callee⟩ native

theorem watched_restored (loader : Option Loader) (depth : Nat) :
    EnginesRelated (Keeps Restored) (watched noReset loader depth)
      (watched noReset loader depth) := by
  induction depth with
  | zero => exact ⟨fun _ _ _ left => (by cases left), Nat.le_refl _, rfl⟩
  | succ depth ih =>
      refine ⟨fun job state next left => ?_, Nat.le_refl _, rfl⟩
      rcases watched_perform noReset loader depth job state with gone | ⟨passed, stepped⟩
      · rw [gone] at left
        cases left
      · rw [stepped] at left
        exact step_restored ih job (by simpa [noReset] using passed) left

end Engine

/-! ## Executions that may start the limiter over -/

/-- The calls that are active are as they were or forgotten, and the modules that are running are as
they were. -/
structure Settled (state next : State) : Prop where
  calls : next.limiter.calls = state.limiter.calls ∨ next.limiter.calls = []
  loading : next.loading = state.loading

namespace Settled

theorem same {state next : State} (calls : next.limiter.calls = state.limiter.calls)
    (loading : next.loading = state.loading) : Settled state next := ⟨Or.inl calls, loading⟩

theorem withHeap (state : State) (heap : Heap) : Settled state { state with heap } :=
  same rfl rfl

theorem trans {before between after : State} (first : Settled before between)
    (second : Settled between after) : Settled before after := by
  refine ⟨?_, second.loading.trans first.loading⟩
  rcases second.calls with later | forgotten
  · rw [later]
    exact first.calls
  · exact Or.inr forgotten

theorem kept : KeptThroughout (.anyCode True) Settled where
  anyCode := .of_anyCode True
  holds heap := heap.holds_anyCode trivial
  refl _ := same rfl rfl
  trans := trans
  store _ _ := same rfl rfl
  child _ _ _ inner := trans (withHeap _ _) (inner ⟨⟨trivial, trivial⟩, trivial⟩)
  print _ _ _ := same rfl rfl
  tick granted := same (Limiter.tick_calls granted) rfl
  aged aged := same aged.calls rfl
  keepModule left := by
    cases left
    exact same rfl rfl
  called granted inner := by
    refine ⟨?_, inner.loading⟩
    have entered := inner.calls
    rw [Limiter.enter_calls granted] at entered
    rcases entered with later | forgotten
    · exact Or.inl (by simp [Limiter.leave, later])
    · exact Or.inr (by simp [Limiter.leave, forgotten])
  loading inner := ⟨inner.calls, by simp [inner.loading]⟩
  fresh _ _ _ _ inner := trans (withHeap _ _) (inner ⟨⟨trivial, trivial⟩, trivial⟩)
  during _ _ _ _ inner := ⟨inner.calls, inner.loading⟩

theorem change (change : Limiter.Change) (state : State) :
    Settled state { state with limiter := change.apply state.limiter } := by
  refine ⟨?_, rfl⟩
  cases change with
  | reset => exact Or.inr rfl
  | setEnabled | reconfigure | setCancelled => exact Or.inl rfl

end Settled

namespace Engine

theorem ofDepth_settled (loader : Option Loader) (depth : Nat) :
    EnginesRelated (Keeps Settled) (ofDepth loader depth) (ofDepth loader depth) :=
  Settled.kept.ofDepth (fun _ => trivial) Settled.change loader depth

end Engine

def State.Idle (state : State) : Prop := state.limiter.depth = 0 ∧ state.loading = []

theorem Settled.idle {state next : State} (settled : Settled state next) (idle : state.Idle) :
    next.Idle := by
  refine ⟨?_, settled.loading.trans idle.2⟩
  have inactive := List.eq_nil_of_length_eq_zero idle.1
  rcases settled.calls with later | forgotten
  · simp [Limiter.depth, later, inactive]
  · simp [Limiter.depth, forgotten]

theorem Session.idle {loader : Option Loader} {state : State} (session : Session loader state) :
    state.Idle := by
  induction session with
  | start setup => exact ⟨rfl, rfl⟩
  | visited visit depth _ left ih =>
      refine Settled.idle ?_ ih
      have settled := Engine.ofDepth_settled loader depth
      refine Settled.kept.catching.visit ?_ trivial trivial settled visit _ _ left
      intro state next left
      cases left
      exact .change .reset state
  | between _ move ih =>
      cases move with
      | heap | output => exact ih
      | change change => exact (Settled.change change _).idle ih

/-- Whatever evaluation is asked for, and however it ends: as long as the limiter is not started
over in the middle, the calls, the running modules and the methods of old frames are afterwards as
they were before. Whether it is started over or not, a host finds no call active and no module
running between its visits. -/
theorem bookkeeping_restored (loader : Option Loader) :
    (∀ (depth : Nat) {α : Type} (request : Request α) (state next : State),
      Engine.Throughout Engine.noReset loader depth (·.fulfil request) state →
        ((Engine.ofDepth loader depth).fulfil request state).state? = some next →
          Restored state next) ∧
      ∀ state, Session loader state → state.Idle := by
  refine ⟨fun depth α request state next continued left => ?_, fun _ session => session.idle⟩
  have plain : Agrees α ((Engine.watched Engine.noReset loader depth).fulfil request)
      ((Engine.ofDepth loader depth).fulfil request) :=
    Agrees.uniform.fulfil (Engine.watched_agrees _ loader depth) request
  have restored : Keeps Restored α _ _ :=
    Restored.kept.uniform.fulfil (Engine.watched_restored loader depth) request
  refine restored state next ?_
  rw [← plain state continued]
  exact left

/-- A state in the middle of a call and of a module, with a function that throws. -/
def State.midway : State :=
  let throws : Function :=
    ⟨some "fail", [], .block ⟨[.throw_ .unknown (.literal .unknown .nil)], .unknown⟩, .unknown⟩
  { heap := { Heap.empty with
      frames := #[⟨.empty, none, ".", some ⟨0, "m"⟩⟩], closures := #[⟨throws, 0, none⟩] }
    limiter := ⟨.default, 3, ["outer"], false, 0, .ticking⟩
    loading := ["lib"]
    modules := .empty
    imported := []
    output := ⟨"", false⟩ }

/-- A call that ends in a fault. -/
theorem bookkeeping_restored_midway : ∃ fault next,
    (Engine.ofDepth none 3).fulfil (.call (.closure 0) [] .unknown) State.midway
      = .fault fault next ∧ Restored State.midway next :=
  ⟨_, _, rfl, (bookkeeping_restored none).1 3 (.call (.closure 0) [] .unknown) State.midway _
    (fun gone => by cases gone) rfl⟩

end Rill

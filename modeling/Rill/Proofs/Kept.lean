import Rill.Proofs.Depth
import Rill.Proofs.Limiter

/-!
# What executions keep

A relation between the state before an execution and the state after it, however the execution
ends, is kept by all of evaluation once it is reflexive and transitive, single steps keep it, and
the brackets around calls, module bodies and parents' methods close what they open.
-/

set_option autoImplicit false

namespace Rill

/-- Any state an execution leaves behind is related to the one it began in. -/
def Keeps (Q : State → State → Prop) : Relation :=
  fun _ x _ => ∀ state next, (x state).state? = some next → Q state next

/-- A relation between states that every step of evaluation keeps. New frames are asked for together
with what follows, since names may be bound in them if they are permitted. -/
structure Kept (permits : Permits) (Q : State → State → Prop) : Prop where
  holds (heap : Heap) : heap.Holds permits
  refl (state : State) : Q state state
  trans {before between after : State} : Q before between → Q between after → Q before after
  store {α : Type} {x : Store α} (ordinary : Store.Ordinary permits x) (state : State) :
    Q state { state with heap := (x state.heap).2 }
  child (env : FrameId) {state next : State}
    (inner : permits.Fresh state.heap.frames.size →
      Q { state with heap := (Store.child env state.heap).2 } next) : Q state next
  print (effects : permits.effects) (text : String) (state : State) :
    Q state { state with output := state.output.write text }
  tick {kind : BreachKind} {pos : Position} {state : State} {limiter : Limiter} :
    state.limiter.tick kind pos = .ok () limiter → Q state { state with limiter }
  aged {state : State} {limiter : Limiter} :
    state.limiter.Aged limiter → Q state { state with limiter }
  fresh (env : FrameId) (method : Option MethodRef) {state next : State}
    (inner : permits.Fresh state.heap.frames.size → Q { state with heap :=
      (Store.setMethod state.heap.frames.size method (Store.child env state.heap).2).2 } next) :
    Q state next
  during (env : FrameId) (method : MethodRef) {state next : State} :
    Q { state with heap := (Store.setMethod env (some method) state.heap).2 } next →
      Q state { next with heap := (Store.setMethod env
        (state.heap.frames[env]?.bind Frame.method) next.heap).2 }

/-- A relation between states that all of evaluation keeps, whatever it does. -/
structure KeptThroughout (permits : Permits) (Q : State → State → Prop) : Prop
    extends Kept permits Q where
  anyCode : permits.AnyCode
  keepModule {key : String} {env : FrameId} {state next : State} :
    (Exec.keepModule key env state).state? = some next → Q state next
  called {name : String} {pos : Position} {state next : State} {limiter : Limiter} :
    state.limiter.enter name pos = .ok () limiter → Q { state with limiter } next →
      Q state { next with limiter := next.limiter.leave }
  loading {key : String} {state next : State} :
    Q { state with loading := key :: state.loading } next →
      Q state { next with loading := next.loading.tail }

namespace Kept

variable {permits : Permits} {Q : State → State → Prop} (kept : Kept permits Q)
include kept

theorem unchanged {α : Type} {x y : Exec α}
    (still : ∀ state next, (x state).state? = some next → next = state) : Keeps Q α x y := by
  intro state next left
  rw [still state next left]
  exact kept.refl state

theorem bind {α β : Type} {x y : Exec α} {f g : α → Exec β} (first : Keeps Q α x y)
    (second : ∀ a, Keeps Q β (f a) (g a)) : Keeps Q β (x >>= f) (y >>= g) := by
  intro state next left
  rw [Exec.bind_eq] at left
  cases outcome : x state with
  | done a between =>
      rw [outcome] at left
      exact kept.trans (first state between (by rw [outcome]; rfl)) (second a between next left)
  | fault fault between =>
      rw [outcome] at left
      exact first state next (by rw [outcome]; exact left)
  | spent =>
      rw [outcome] at left
      cases left

theorem storeKeeps {α : Type} {x : Store α} (ordinary : Store.Ordinary permits x)
    {y : Exec α} : Keeps Q α (liftM x) y := by
  intro state next left
  rw [Exec.store_state?] at left
  cases left
  exact kept.store ordinary state

theorem tickKeeps : TickRelated (Keeps Q) := by
  intro kind pos state next left
  simp only [Exec.tick] at left
  cases asked : state.limiter.tick kind pos with
  | error breach limiter =>
      rw [asked] at left
      cases left
      exact kept.aged (Limiter.aged_of_tick_error asked)
  | ok granted limiter =>
      rw [asked] at left
      cases left
      exact kept.tick asked

theorem duringKeeps (env : FrameId) : DuringRelated (Keeps Q) env := by
  intro method x y inner state next left
  rw [Exec.asMethod_eq, Outcome.mapState_state?] at left
  obtain ⟨after, ended, rfl⟩ := Option.map_eq_some_iff.mp left
  exact kept.during env method (inner _ after ended)

theorem methodRelated : MethodRelated permits (Keeps Q) where
  fresh env method f _ inner := by
    intro state next left
    exact kept.fresh env method fun frame => inner state.heap.frames.size frame _ next left
  during env _ := kept.duringKeeps env

theorem catching : Catching permits (Keeps Q) where
  pure _ := kept.unchanged (by intro state next left; cases left; rfl)
  bind := kept.bind
  raise _ _ := kept.unchanged (by intro state next left; cases left; rfl)
  locate _ _ _ inner state next left := inner state next (by simpa using left)
  traced inner state next left := inner state next (by simpa using left)
  child env _ _ inner := by
    intro state next left
    exact kept.child env fun frame => inner state.heap.frames.size frame _ next left
  store ordinary := kept.storeKeeps ordinary
  lookUp f _ _ found state := found state.heap (kept.holds state.heap) state
  print effects text := by
    intro state next left
    cases left
    exact kept.print effects text state
  attempt inner state next left := inner state next (by simpa using left)
  settle result := by
    cases result with
    | ok a => exact kept.unchanged (by intro state next left; cases left; rfl)
    | error fault => exact kept.unchanged (by intro state next left; cases left; rfl)

theorem passKeeps : PassRelated (Keeps Q) := kept.catching.passRelated kept.tickKeeps

end Kept

namespace KeptThroughout

variable {permits : Permits} {Q : State → State → Prop} (kept : KeptThroughout permits Q)
include kept

theorem calledKeeps {α : Type} (name : String) (pos : Position) {x y : Exec α}
    (inner : Keeps Q α x y) : Keeps Q α (Exec.called name pos x) (Exec.called name pos y) := by
  intro state next left
  rw [Exec.called_eq] at left
  cases asked : state.limiter.enter name pos with
  | error breach limiter =>
      rw [asked] at left
      cases left
      exact kept.aged (Limiter.aged_of_enter_error asked)
  | ok granted limiter =>
      simp only [asked, Outcome.mapState_state?] at left
      obtain ⟨after, ended, rfl⟩ := Option.map_eq_some_iff.mp left
      exact kept.called asked (inner _ after ended)

theorem loadingKeeps {α : Type} (key : String) {x y : Exec α} (inner : Keeps Q α x y) :
    Keeps Q α (Exec.loading key x) (Exec.loading key y) := by
  intro state next left
  rw [Exec.loading_eq, Outcome.mapState_state?] at left
  obtain ⟨after, ended, rfl⟩ := Option.map_eq_some_iff.mp left
  exact kept.loading (inner _ after ended)

theorem uniform : Uniform permits (Keeps Q) (Keeps Q) where
  anyCode := kept.anyCode
  toCompatible := kept.catching.toCompatible
  traced := kept.catching.traced
  strong := kept.catching
  weaken _ _ _ inner := inner
  methods := kept.methodRelated
  passes := kept.passKeeps
  called := kept.calledKeeps
  opens := kept.catching.openModule
    (kept.unchanged (by intro state next left; cases left; rfl))
    (fun _ => kept.unchanged (by intro state next left; cases left; rfl)) kept.loadingKeeps
    fun _ _ _ _ left => kept.keepModule left
  spent _ _ _ left := by cases left

theorem lookKeeps : LookRelated (Keeps Q) :=
  kept.unchanged (by intro state next left; cases left; rfl)

theorem act {first second : Engine} (related : EnginesRelated (Keeps Q) first second)
    {kind : Limiter.Change → Prop}
    (changes : ∀ change, kind change → ∀ state : State,
      Q state { state with limiter := change.apply state.limiter })
    (act : HostAct) (only : act.Only kind) : Keeps Q Value (first.act act) (second.act act) := by
  refine kept.catching.act kept.anyCode.effects (kept.uniform.calls related) kept.lookKeeps
    (fun change allowed => ?_) act only
  intro state next left
  cases left
  exact changes change allowed state

theorem ofDepth (overwrites : ∀ env, permits.overwrites env)
    (changes : ∀ (change : Limiter.Change) (state : State),
      Q state { state with limiter := change.apply state.limiter })
    (loader : Option Loader) (depth : Nat) :
    EnginesRelated (Keeps Q) (Engine.ofDepth loader depth) (Engine.ofDepth loader depth) := by
  induction depth with
  | zero => exact ⟨fun _ _ _ left => (by cases left), Nat.le_refl _, rfl⟩
  | succ depth ih =>
      refine ⟨fun job => ?_, Nat.le_refl _, rfl⟩
      rw [Engine.perform_succ]
      have supers := kept.uniform.supers ih overwrites
      refine kept.uniform.step ih supers job fun _ _ native args pos _ => ?_
      exact kept.uniform.callNative ih native args pos
        (fun name env pos _ => supers name args env pos)
        fun fn _ => kept.act ih (fun change _ => changes change) _ (HostAct.only_of_all (fun _ => trivial) _)

end KeptThroughout

end Rill

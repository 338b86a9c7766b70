import Rill.Proofs.Passes
import Rill.Proofs.Visit

/-!
# What a run asks of the limiter

All loops run the bodies of their passes behind the limiter (`Exec.granted`). `Runs` follows an
execution from the state it begins in and records, in order, the passes that were started, those
that were refused, and the changes that a host made to the limiter. It has one rule for every way in
which executions are put together and none by which a pass could be counted without a body of its
own.

Every execution of the evaluator that ends has a record (`Recorded.uniform`), and without functions
of the host no change is in it.
-/

set_option autoImplicit false

namespace Rill

inductive Event where
  | started (kind : BreachKind) (pos : Position)
  | refused (breach : Breach)
  | changed (change : Limiter.Change)
deriving DecidableEq

namespace Event

def isChange : Event → Bool
  | changed _ => true
  | _ => false

end Event

/-- An execution goes through events from a state on. -/
inductive Runs : {α : Type} → Exec α → State → List Event → Prop where
  | pure {α : Type} (a : α) (state : State) : Runs (pure a : Exec α) state []
  | throw {α : Type} (fault : Fault) (state : State) : Runs (Exec.throw fault : Exec α) state []
  | read {α : Type} (f : State → α) (state : State) : Runs (Exec.read f) state []
  | store {α : Type} (x : Store α) (state : State) : Runs (liftM x : Exec α) state []
  | print (text : String) (state : State) : Runs (Exec.print text) state []
  | keepModule (key : String) (env : FrameId) (state : State) :
      Runs (Exec.keepModule key env) state []
  | bind {α β : Type} {x : Exec α} {f : α → Exec β} {state between : State} {a : α}
      {events more : List Event} (first : Runs x state events)
      (ended : x state = .done a between) (second : Runs (f a) between more) :
      Runs (x >>= f) state (events ++ more)
  | stop {α β : Type} {x : Exec α} {f : α → Exec β} {state next : State} {fault : Fault}
      {events : List Event} (first : Runs x state events) (ended : x state = .fault fault next) :
      Runs (x >>= f) state events
  | locate {α : Type} {x : Exec α} {state : State} {events : List Event} (pos : Position)
      (inner : Runs x state events) : Runs (Exec.locate pos x) state events
  | traced {α : Type} {x : Exec α} {state : State} {events : List Event}
      (inner : Runs x state events) : Runs (Exec.traced x) state events
  | attempt {α : Type} {x : Exec α} {state : State} {events : List Event}
      (inner : Runs x state events) : Runs (Exec.attempt x) state events
  | started {α : Type} {body : Exec α} {kind : BreachKind} {pos : Position} {state : State}
      {limiter : Limiter} {events : List Event} (asked : state.limiter.tick kind pos = .ok () limiter)
      (inner : Runs body { state with limiter } events) :
      Runs (Exec.granted kind pos body) state (.started kind pos :: events)
  | refused {α : Type} {body : Exec α} {kind : BreachKind} {pos : Position} {state : State}
      {breach : Breach} {limiter : Limiter}
      (asked : state.limiter.tick kind pos = .error breach limiter) :
      Runs (Exec.granted kind pos body) state [.refused breach]
  | entered {α : Type} {x : Exec α} {name : String} {pos : Position} {state : State}
      {limiter : Limiter} {events : List Event}
      (asked : state.limiter.enter name pos = .ok () limiter)
      (inner : Runs x { state with limiter } events) :
      Runs (Exec.called name pos x) state events
  | barred {α : Type} {x : Exec α} {name : String} {pos : Position} {state : State}
      {breach : Breach} {limiter : Limiter}
      (asked : state.limiter.enter name pos = .error breach limiter) :
      Runs (Exec.called name pos x) state []
  | loading {α : Type} {x : Exec α} {key : String} {state : State} {events : List Event}
      (inner : Runs x { state with loading := key :: state.loading } events) :
      Runs (Exec.loading key x) state events
  | changed (change : Limiter.Change) (state : State) :
      Runs (Exec.changeLimiter change.apply) state [.changed change]

/-! ## Every execution that ends has a record -/

/-- An execution that ends has a record, and one without changes when there are no functions of the
host. -/
def Recorded (hosts : Prop) : Relation := fun _ x _ =>
  ∀ state, state.heap.Holds (.anyCode hosts) → ∀ next, (x state).state? = some next →
    next.heap.Holds (.anyCode hosts) ∧ ∃ events, Runs x state events ∧
      (hosts ∨ ∀ event ∈ events, event.isChange = false)

namespace Recorded

variable {hosts : Prop}

theorem quiet {α : Type} {x y : Exec α} (runs : ∀ state, Runs x state [])
    (still : ∀ state next, (x state).state? = some next → next.heap = state.heap) :
    Recorded hosts α x y := by
  intro state holds next left
  refine ⟨?_, [], runs state, Or.inr (by simp)⟩
  rw [still state next left]
  exact holds

theorem pure {α : Type} (a : α) : Recorded hosts α (Pure.pure a) (Pure.pure a) :=
  quiet (.pure a) (by intro state next left; cases left; rfl)

theorem throw {α : Type} (fault : Fault) :
    Recorded hosts α (Exec.throw fault) (Exec.throw fault) :=
  quiet (.throw fault) (by intro state next left; cases left; rfl)

theorem read {α : Type} (f : State → α) : Recorded hosts α (Exec.read f) (Exec.read f) :=
  quiet (.read f) (by intro state next left; cases left; rfl)

theorem store {α : Type} {x : Store α} (holds : ∀ heap : Heap,
    heap.Holds (.anyCode hosts) → (x heap).2.Holds (.anyCode hosts)) :
    Recorded hosts α (liftM x) (liftM x) := by
  intro state before next left
  rw [Exec.store_state?] at left
  cases left
  exact ⟨holds state.heap before, [], .store x state, Or.inr (by simp)⟩

theorem bind {α β : Type} {x y : Exec α} {f g : α → Exec β} (first : Recorded hosts α x y)
    (second : ∀ a, Recorded hosts β (f a) (g a)) : Recorded hosts β (x >>= f) (y >>= g) := by
  intro state holds next left
  rw [Exec.bind_eq] at left
  cases outcome : x state with
  | done a between =>
      rw [outcome] at left
      obtain ⟨middle, events, runs, unchanged⟩ :=
        first state holds between (by rw [outcome]; rfl)
      obtain ⟨after, more, later, still⟩ := second a between middle next left
      refine ⟨after, events ++ more, .bind runs outcome later, ?_⟩
      rcases unchanged with allowed | unchanged
      · exact Or.inl allowed
      · rcases still with allowed | still
        · exact Or.inl allowed
        · refine Or.inr fun event member => ?_
          rcases List.mem_append.mp member with early | late
          · exact unchanged event early
          · exact still event late
  | fault fault between =>
      rw [outcome] at left
      obtain ⟨after, events, runs, unchanged⟩ :=
        first state holds next (by rw [outcome]; exact left)
      exact ⟨after, events, .stop runs outcome, unchanged⟩
  | spent =>
      rw [outcome] at left
      cases left

theorem around {α β : Type} {x y : Exec α} {f g : Exec β}
    (same : ∀ state, (f state).state? = (x state).state?)
    (runs : ∀ state events, Runs x state events → Runs f state events)
    (inner : Recorded hosts α x y) : Recorded hosts β f g := by
  intro state holds next left
  obtain ⟨after, events, recorded, unchanged⟩ :=
    inner state holds next (by rw [← same]; exact left)
  exact ⟨after, events, runs state events recorded, unchanged⟩

theorem catching : Catching (.anyCode hosts) (Recorded hosts) where
  pure := pure
  bind := bind
  raise cause _ := throw (.of cause)
  locate pos _ _ := around (Exec.locate_state? pos _) fun _ _ => .locate pos
  traced := around (Exec.traced_state? _) fun _ _ => .traced
  child env _ _ inner :=
    bind (store (Store.Ordinary.child env).holds) fun frame =>
      inner frame ⟨⟨trivial, trivial⟩, trivial⟩
  store ordinary := store ordinary.holds
  lookUp f _ _ found := by
    intro state holds next left
    obtain ⟨after, events, runs, unchanged⟩ := found state.heap holds state holds next left
    exact ⟨after, events, .bind (.read _ state) rfl runs, unchanged⟩
  print _ text := quiet (.print text) (by intro state next left; cases left; rfl)
  attempt := around (Exec.attempt_state? _) fun _ _ => .attempt
  settle result := by
    cases result with
    | ok a => exact pure a
    | error fault => exact throw fault

theorem passes : PassRelated (Recorded hosts) := by
  intro kind pos α x y inner state holds next left
  simp only [Exec.bind_eq, Exec.tick] at left
  cases asked : state.limiter.tick kind pos with
  | ok granted limiter =>
      rw [asked] at left
      obtain ⟨after, events, runs, unchanged⟩ := inner { state with limiter } holds next left
      refine ⟨after, _, .started asked runs, unchanged.imp_right fun unchanged => ?_⟩
      simpa [Event.isChange] using unchanged
  | error breach limiter =>
      rw [asked] at left
      cases left
      exact ⟨holds, _, .refused asked, Or.inr (by simp [Event.isChange])⟩

theorem called {α : Type} (name : String) (pos : Position) {x y : Exec α}
    (inner : Recorded hosts α x y) :
    Recorded hosts α (Exec.called name pos x) (Exec.called name pos y) := by
  intro state holds next left
  rw [Exec.called_eq] at left
  cases asked : state.limiter.enter name pos with
  | error breach limiter =>
      rw [asked] at left
      cases left
      exact ⟨holds, [], .barred asked, Or.inr (by simp)⟩
  | ok granted limiter =>
      simp only [asked, Outcome.mapState_state?] at left
      obtain ⟨after, ended, rfl⟩ := Option.map_eq_some_iff.mp left
      obtain ⟨held, events, runs, unchanged⟩ := inner { state with limiter } holds after ended
      exact ⟨held, events, .entered asked runs, unchanged⟩

theorem loading {α : Type} (key : String) {x y : Exec α} (inner : Recorded hosts α x y) :
    Recorded hosts α (Exec.loading key x) (Exec.loading key y) := by
  intro state holds next left
  rw [Exec.loading_eq, Outcome.mapState_state?] at left
  obtain ⟨after, ended, rfl⟩ := Option.map_eq_some_iff.mp left
  obtain ⟨held, events, runs, unchanged⟩ :=
    inner { state with loading := key :: state.loading } holds after ended
  exact ⟨held, events, .loading runs, unchanged⟩

theorem setMethod (env : FrameId) (method : Option MethodRef) :
    Recorded hosts Unit (liftM (Store.setMethod env method))
      (liftM (Store.setMethod env method)) :=
  store fun _ holds => holds.setMethod env method

theorem methods : MethodRelated (.anyCode hosts) (Recorded hosts) where
  fresh env method _ _ inner :=
    bind (catching.store (.child env)) fun frame =>
      bind (setMethod frame method) fun _ => inner frame ⟨⟨trivial, trivial⟩, trivial⟩
  during env _ _ _ _ inner :=
    bind (read _) fun _ => bind (setMethod env _) fun _ =>
      bind (catching.attempt inner) fun result =>
        bind (setMethod env _) fun _ => catching.settle result

theorem uniform : Uniform (.anyCode hosts) (Recorded hosts) (Recorded hosts) where
  anyCode := .of_anyCode hosts
  toCompatible := catching.toCompatible
  traced := catching.traced
  strong := catching
  weaken _ _ _ inner := inner
  methods := methods
  passes := passes
  called := called
  opens := catching.openModule (read _) (fun _ => read _) loading fun key env =>
    quiet (.keepModule key env) (by intro state next left; cases left; rfl)
  spent _ _ _ _ left := by cases left

theorem change (allowed : hosts) (change : Limiter.Change) :
    Recorded hosts Unit (Exec.changeLimiter change.apply) (Exec.changeLimiter change.apply) := by
  intro state holds next left
  cases left
  exact ⟨holds, _, .changed change state, Or.inl allowed⟩

theorem act (allowed : hosts) {first second : Engine}
    (related : EnginesRelated (Recorded hosts) first second) (act : HostAct) :
    Recorded hosts Value (first.act act) (second.act act) :=
  uniform.act related (read _) (change allowed) act

theorem ofDepth (hosts : Prop) (loader : Option Loader) (depth : Nat) :
    EnginesRelated (Recorded hosts) (Engine.ofDepth loader depth)
      (Engine.ofDepth loader depth) := by
  induction depth with
  | zero => exact ⟨fun _ _ _ _ left => (by cases left), Nat.le_refl _, rfl⟩
  | succ depth ih =>
      refine ⟨fun job => ?_, Nat.le_refl _, rfl⟩
      rw [Engine.perform_succ]
      have supers := uniform.supers ih fun _ => trivial
      refine uniform.step ih supers job fun _ _ native args pos held => ?_
      refine uniform.callNative ih native args pos (fun name env pos _ => supers name args env pos)
        fun fn same => ?_
      exact act (held (by rw [same]; rfl)) ih (fn.body args)

end Recorded

end Rill

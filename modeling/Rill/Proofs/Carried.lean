import Rill.Proofs.Depth

/-!
# What executions carry along

An execution that begins in a state of some kind may be sure to keep it in order, and a second one
may do the same from such states. `Carries` says both at once, so that an engine that watches or
notes something more can be shown to do what the evaluator does.
-/

set_option autoImplicit false

namespace Rill

/-- From a state of some kind, what the first execution leaves behind is related to the state, and
the second one ends in the same way. -/
def Carries (I : State → Prop) (Q : State → State → Prop) : Relation := fun _ x y =>
  ∀ state, I state → ∀ next, (x state).state? = some next → y state = x state ∧ Q state next

/-- A kind of states, and a relation between them, that the single steps of evaluation keep. The
limiter and what is printed have no part in it. -/
structure Carried (permits : Permits) (I : State → Prop) (Q : State → State → Prop) : Prop where
  refl {state : State} : I state → Q state state
  trans {before between after : State} : Q before between → Q between after → Q before after
  next {state next : State} : Q state next → I next
  holds {state : State} : I state → state.heap.Holds permits
  fresh {state : State} : I state → permits.Fresh state.heap.frames.size
  store {α : Type} {x : Store α} (ordinary : Store.Ordinary permits x) {state : State} :
    I state → Q state { state with heap := (x state.heap).2 }
  setMethod (env : FrameId) (method : Option MethodRef) {state : State} :
    I state → Q state { state with heap := (Store.setMethod env method state.heap).2 }
  limiter (limiter : Limiter) {state : State} : I state → Q state { state with limiter }
  output (output : Output) {state : State} : I state → Q state { state with output }

namespace Carried

variable {permits : Permits} {I : State → Prop} {Q : State → State → Prop}
variable (carried : Carried permits I Q)

theorem own {α : Type} {x : Exec α}
    (keeps : ∀ state next, I state → (x state).state? = some next → Q state next) :
    Carries I Q α x x :=
  fun state before next left => ⟨rfl, keeps state next before left⟩

theorem around {α β : Type} {make : Outcome α → Outcome β} {x y : Exec α} {f g : Exec β}
    (made : ∀ state, f state = make (x state)) (other : ∀ state, g state = make (y state))
    (ends : ∀ outcome, (make outcome).state? = outcome.state?)
    (inner : Carries I Q α x y) : Carries I Q β f g := by
  intro state before next left
  rw [made, ends] at left
  obtain ⟨same, kept⟩ := inner state before next left
  rw [made, other, same]
  exact ⟨rfl, kept⟩

theorem lookUp {α β : Type} (f : State → α) {g h : α → Exec β}
    (found : ∀ state, I state → Carries I Q β (g (f state)) (h (f state))) :
    Carries I Q β (Exec.read f >>= g) (Exec.read f >>= h) :=
  fun state before => found state before state before

theorem within {α : Type} {x y f g : Exec α} {state entered : State} (before : I entered)
    (leave : State → State) (made : f state = (x entered).mapState leave)
    (other : g state = (y entered).mapState leave)
    (leaves : ∀ after, Q entered after → Q state (leave after)) (inner : Carries I Q α x y)
    {next : State} (left : (f state).state? = some next) : g state = f state ∧ Q state next := by
  rw [made, Outcome.mapState_state?] at left
  obtain ⟨after, inside, rfl⟩ := Option.map_eq_some_iff.mp left
  obtain ⟨same, kept⟩ := inner entered before after inside
  rw [made, other, same]
  exact ⟨rfl, leaves after kept⟩

include carried

theorem still {α : Type} {x : Exec α}
    (unchanged : ∀ state next, (x state).state? = some next → next = state) :
    Carries I Q α x x := by
  refine own fun state next before left => ?_
  rw [unchanged state next left]
  exact carried.refl before

theorem read {α : Type} (f : State → α) : Carries I Q α (Exec.read f) (Exec.read f) :=
  carried.still (by intro state next left; cases left; rfl)

theorem bind {α β : Type} {x y : Exec α} {f g : α → Exec β} (first : Carries I Q α x y)
    (second : ∀ a, Carries I Q β (f a) (g a)) : Carries I Q β (x >>= f) (y >>= g) := by
  intro state before next left
  rw [Exec.bind_eq] at left
  rw [Exec.bind_eq, Exec.bind_eq]
  cases outcome : x state with
  | done a between =>
      obtain ⟨same, kept⟩ := first state before between (by rw [outcome]; rfl)
      rw [outcome] at left same
      rw [same]
      obtain ⟨again, still⟩ := second a between (carried.next kept) next left
      exact ⟨again, carried.trans kept still⟩
  | fault fault between =>
      rw [outcome] at left
      obtain ⟨same, kept⟩ := first state before next (by rw [outcome]; exact left)
      rw [outcome] at same
      rw [same]
      exact ⟨rfl, kept⟩
  | spent =>
      rw [outcome] at left
      cases left

theorem storeCarries {α : Type} {x : Store α} (ordinary : Store.Ordinary permits x) :
    Carries I Q α (liftM x) (liftM x) := by
  refine own fun state next before left => ?_
  rw [Exec.store_state?] at left
  cases left
  exact carried.store ordinary before

theorem setMethodCarries (env : FrameId) (method : Option MethodRef) :
    Carries I Q Unit (liftM (Store.setMethod env method))
      (liftM (Store.setMethod env method)) := by
  refine own fun state next before left => ?_
  rw [Exec.store_state?] at left
  cases left
  exact carried.setMethod env method before

theorem child {α : Type} (env : FrameId) {f g : FrameId → Exec α}
    (inner : ∀ frame, permits.Fresh frame → Carries I Q α (f frame) (g frame)) :
    Carries I Q α (liftM (Store.child env) >>= f) (liftM (Store.child env) >>= g) := by
  intro state before next left
  have made := carried.store (.child env) before
  obtain ⟨same, kept⟩ := inner state.heap.frames.size (carried.fresh before)
    { state with heap := (Store.child env state.heap).2 } (carried.next made) next left
  exact ⟨same, carried.trans made kept⟩

theorem catching : Catching permits (Carries I Q) where
  pure _ := carried.still (by intro state next left; cases left; rfl)
  bind := carried.bind
  raise _ _ := carried.still (by intro state next left; cases left; rfl)
  locate pos _ _ := around (Exec.locate_eq pos _) (Exec.locate_eq pos _)
    fun _ => Outcome.mapFault_state? _ _
  traced := around (Exec.traced_eq _) (Exec.traced_eq _) fun _ => Outcome.mapFault_state? _ _
  child env _ _ := carried.child env
  store := carried.storeCarries
  lookUp _ _ _ found := lookUp _ fun state before => found state.heap (carried.holds before)
  print _ text := own fun state next before left => by
    cases left
    exact carried.output _ before
  attempt := around (Exec.attempt_eq _) (Exec.attempt_eq _) Outcome.attempted_state?
  settle result := by
    cases result with
    | ok a => exact carried.still (by intro state next left; cases left; rfl)
    | error fault => exact carried.still (by intro state next left; cases left; rfl)

theorem changeLimiter (f : Limiter → Limiter) :
    Carries I Q Unit (Exec.changeLimiter f) (Exec.changeLimiter f) := by
  refine own fun state next before left => ?_
  cases left
  exact carried.limiter _ before

theorem tick : TickRelated (Carries I Q) := by
  refine fun kind pos => own fun state next before left => ?_
  simp only [Exec.tick] at left
  split at left
  · cases left
    exact carried.limiter _ before
  · cases left
    exact carried.limiter _ before

theorem called {α : Type} (name : String) (pos : Position) {x y : Exec α}
    (inner : Carries I Q α x y) :
    Carries I Q α (Exec.called name pos x) (Exec.called name pos y) := by
  intro state before next left
  cases asked : state.limiter.enter name pos with
  | error breach limiter =>
      simp only [Exec.called_eq, asked] at left ⊢
      cases left
      exact ⟨trivial, carried.limiter _ before⟩
  | ok granted limiter =>
      have entered := carried.limiter limiter before
      refine within (carried.next entered)
        (fun next => { next with limiter := next.limiter.leave }) ?_ ?_ (fun after kept => ?_)
        inner left
      · rw [Exec.called_eq, asked]
      · rw [Exec.called_eq, asked]
      · exact carried.trans entered (carried.trans kept (carried.limiter _ (carried.next kept)))

theorem methods : MethodRelated permits (Carries I Q) where
  fresh env method f g inner := carried.child env fun frame own =>
    carried.bind (carried.setMethodCarries frame method) fun _ => inner frame own
  during env _ := by
    intro method x y inner state before next left
    have noted := carried.setMethod env (some method) before
    refine within (carried.next noted) _ (Exec.asMethod_eq env method x state)
      (Exec.asMethod_eq env method y state) (fun after kept => ?_) inner left
    exact carried.trans noted (carried.trans kept (carried.setMethod env _ (carried.next kept)))

theorem thorough (opens : ∀ {first second : Engine} (found : Module) (env : FrameId),
      BodyRelated permits (Carries I Q) first second found →
        Carries I Q FrameId (first.openModule found env) (second.openModule found env)) :
    Thorough permits (Carries I Q) :=
  { carried.catching with
    passes := carried.catching.passRelated carried.tick
    called := carried.called
    opens
    spent := fun _ _ _ _ left => by cases left }

theorem act (effects : permits.effects) {first second : Engine}
    (calls : CallRelated (Carries I Q) first second) (act : HostAct) :
    Carries I Q Value (first.act act) (second.act act) :=
  carried.catching.act effects calls (carried.read _) (fun _ _ => carried.changeLimiter _) act
    (act.only_of_all fun _ => trivial)

end Carried

end Rill

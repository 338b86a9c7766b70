import Rill.Proofs.Related.Engine

/-!
# Depth

An engine that gives up says nothing; an engine that finishes a job finishes it as every deeper
engine does (`ofDepth_agrees`).

A watched engine tests every job it has performed and gives up when a test fails. A run that a
watched engine finishes is thus a run of the plain engine of the same depth in which every job
passed the test (`watched_agrees`). This is how a condition on everything that happens during a run
is expressed.
-/

set_option autoImplicit false

namespace Rill

namespace Fault

@[simp] theorem locate_cause (fault : Fault) (pos : Position) :
    (fault.locate pos).cause = fault.cause := by
  unfold locate
  split <;> rfl

@[simp] theorem trace_cause (fault : Fault) (calls : List String) :
    (fault.trace calls).cause = fault.cause := by
  unfold trace
  split <;> rfl

end Fault

namespace Outcome

def state? {α : Type} : Outcome α → Option State
  | done _ state | fault _ state => some state
  | spent => none

def isSpent {α : Type} : Outcome α → Bool
  | spent => true
  | _ => false

def isDone {α : Type} : Outcome α → Bool
  | done _ _ => true
  | _ => false

theorem isSpent_eq_false_iff {α : Type} {outcome : Outcome α} :
    outcome.isSpent = false ↔ outcome ≠ spent := by
  cases outcome <;> simp [isSpent]

def isRefused {α : Type} : Outcome α → Bool
  | fault problem _ => problem.cause.isLimit
  | _ => false

/-- The same end, but in a state that is made from the one left behind. -/
def mapState {α : Type} (f : State → State) : Outcome α → Outcome α
  | done a state => done a (f state)
  | fault problem state => fault problem (f state)
  | spent => spent

/-- The same end, but with something noted on a fault. -/
def mapFault {α : Type} (f : Fault → State → Fault) : Outcome α → Outcome α
  | fault problem state => fault (f problem state) state
  | outcome => outcome

def attempted {α : Type} : Outcome α → Outcome (Except Fault α)
  | done a state => done (.ok a) state
  | fault problem state => done (.error problem) state
  | spent => spent

@[simp] theorem mapState_state? {α : Type} (f : State → State) (outcome : Outcome α) :
    (outcome.mapState f).state? = outcome.state?.map f := by
  cases outcome <;> rfl

@[simp] theorem mapFault_state? {α : Type} (f : Fault → State → Fault) (outcome : Outcome α) :
    (outcome.mapFault f).state? = outcome.state? := by
  cases outcome <;> rfl

@[simp] theorem attempted_state? {α : Type} (outcome : Outcome α) :
    outcome.attempted.state? = outcome.state? := by
  cases outcome <;> rfl

/-- Whether an execution has ended with a result that passes a test. -/
def passes {α : Type} (test : α → State → Bool) : Outcome α → Bool
  | done a state => test a state
  | fault _ _ | spent => false

theorem passes_iff {α : Type} {test : α → State → Bool} {outcome : Outcome α} :
    outcome.passes test = true ↔ ∃ a state, outcome = .done a state ∧ test a state = true := by
  cases outcome with
  | done a state =>
      constructor
      · intro passed
        exact ⟨a, state, rfl, passed⟩
      · rintro ⟨_, _, same, passed⟩
        cases same
        exact passed
  | fault | spent => simp [passes]

theorem ended_of_left {α : Type} {outcome : Outcome α} {next : State}
    (left : outcome.state? = some next) : outcome ≠ .spent := by
  rintro rfl
  cases left

theorem eq_of_left {α : Type} {outcome other : Outcome α}
    (first : ∀ next, outcome.state? = some next → other = outcome)
    (second : ∀ next, other.state? = some next → outcome = other) : other = outcome := by
  cases outcome with
  | done a next => exact first next rfl
  | fault fault next => exact first next rfl
  | spent =>
      cases other with
      | done a next => exact (second next rfl).symm
      | fault fault next => exact (second next rfl).symm
      | spent => rfl

theorem ended_of_made {α β : Type} {outcome : Outcome α} {make : Outcome α → Outcome β}
    (gone : make .spent = .spent) (ended : make outcome ≠ .spent) : outcome ≠ .spent := by
  rintro rfl
  exact ended gone

end Outcome

namespace Exec

variable {α β : Type}

theorem bind_eq (x : Exec α) (f : α → Exec β) (state : State) :
    (x >>= f) state = match x state with
      | .done a next => f a next
      | .fault fault next => .fault fault next
      | .spent => .spent := rfl

theorem bind_assoc {γ : Type} (x : Exec α) (f : α → Exec β) (g : β → Exec γ) :
    x >>= f >>= g = x >>= fun a => f a >>= g := by
  funext state
  simp only [bind_eq]
  cases x state <;> rfl

theorem ended_of_bind {x : Exec α} {f : α → Exec β} {state : State}
    (ended : (x >>= f) state ≠ .spent) : x state ≠ .spent := by
  intro gone
  rw [bind_eq, gone] at ended
  exact ended rfl

theorem store_eq (x : Store α) (state : State) :
    (liftM x : Exec α) state = match x state.heap with
      | (.ok a, next) => .done a { state with heap := next }
      | (.error cause, next) => .fault (.of cause) { state with heap := next } := rfl

theorem store_state? (x : Store α) (state : State) :
    ((liftM x : Exec α) state).state? = some { state with heap := (x state.heap).2 } := by
  rw [store_eq]
  obtain ⟨result, next⟩ := x state.heap
  cases result <;> rfl

theorem locate_eq (pos : Position) (x : Exec α) (state : State) :
    locate pos x state = (x state).mapFault fun fault _ => fault.locate pos := by
  unfold locate
  cases x state <;> rfl

theorem traced_eq (x : Exec α) (state : State) :
    traced x state = (x state).mapFault fun fault next => fault.trace next.limiter.calls := by
  unfold traced
  cases x state <;> rfl

theorem attempt_eq (x : Exec α) (state : State) : attempt x state = (x state).attempted := by
  unfold attempt
  cases x state <;> rfl

@[simp] theorem locate_state? (pos : Position) (x : Exec α) (state : State) :
    (locate pos x state).state? = (x state).state? := by
  rw [locate_eq, Outcome.mapFault_state?]

@[simp] theorem traced_state? (x : Exec α) (state : State) :
    (traced x state).state? = (x state).state? := by
  rw [traced_eq, Outcome.mapFault_state?]

@[simp] theorem attempt_state? (x : Exec α) (state : State) :
    (attempt x state).state? = (x state).state? := by
  rw [attempt_eq, Outcome.attempted_state?]

theorem called_eq (name : String) (pos : Position) (x : Exec α) (state : State) :
    called name pos x state = match state.limiter.enter name pos with
      | .error breach limiter => .fault (.ofBreach breach limiter.calls) { state with limiter }
      | .ok () limiter => (x { state with limiter }).mapState fun next =>
          { next with limiter := next.limiter.leave } := by
  unfold called
  cases state.limiter.enter name pos with
  | error breach limiter => rfl
  | ok granted limiter => cases x { state with limiter } <;> rfl

theorem loading_eq (key : String) (x : Exec α) (state : State) :
    loading key x state = (x { state with loading := key :: state.loading }).mapState fun next =>
      { next with loading := next.loading.tail } := by
  unfold loading
  cases x { state with loading := key :: state.loading } <;> rfl

theorem asMethod_eq (env : FrameId) (method : MethodRef) (x : Exec α) (state : State) :
    asMethod env method x state =
      (x { state with heap := (Store.setMethod env (some method) state.heap).2 }).mapState
        fun next => { next with heap :=
          (Store.setMethod env (state.heap.frames[env]?.bind Frame.method) next.heap).2 } := by
  change (attempt x >>= fun result => do
    Store.setMethod env (state.heap.frames[env]?.bind Frame.method)
    settle result) { state with heap := (Store.setMethod env (some method) state.heap).2 } = _
  rw [bind_eq]
  simp only [attempt]
  cases x { state with heap := (Store.setMethod env (some method) state.heap).2 } <;> rfl

end Exec

namespace Engine

theorem ofDepth_loader (loader : Option Loader) (depth : Nat) :
    (ofDepth loader depth).loader = loader := by
  cases depth <;> rfl

theorem ofDepth_passes (loader : Option Loader) (depth : Nat) :
    (ofDepth loader depth).passes = depth := by
  cases depth <;> rfl

theorem perform_succ (loader : Option Loader) (depth : Nat) {α : Type} (job : Job α) :
    (ofDepth loader (depth + 1)).perform job = (ofDepth loader depth).step job := by
  funext state
  simp only [ofDepth, onOwnStack]
  split <;> rfl

end Engine

theorem Heap.holds_anyCode (heap : Heap) {hosts : Prop} (allowed : hosts) :
    heap.Holds (.anyCode hosts) :=
  ⟨fun _ _ _ => trivial, fun _ _ _ _ _ => trivial, fun _ _ _ _ _ _ _ => trivial,
    fun _ _ _ _ => allowed⟩

/-! ## Agreement up to giving up -/

/-- The second execution ends as the first one does, unless that one gives up. -/
def Agrees : Relation := fun _ x y => ∀ state, x state ≠ .spent → y state = x state

namespace Agrees

theorem refl {α : Type} (x : Exec α) : Agrees α x x := fun _ _ => rfl

theorem bind {α β : Type} {x y : Exec α} {f g : α → Exec β} (first : Agrees α x y)
    (second : ∀ a, Agrees β (f a) (g a)) : Agrees β (x >>= f) (y >>= g) := by
  intro state ended
  have begun := Exec.ended_of_bind ended
  rw [Exec.bind_eq] at ended
  rw [Exec.bind_eq, Exec.bind_eq, first state begun]
  cases outcome : x state with
  | done a next =>
      rw [outcome] at ended
      exact second a next ended
  | fault fault next => rfl
  | spent => exact absurd outcome begun

theorem map {α β : Type} {x y : Outcome α} (f : Outcome α → Outcome β)
    (gone : f .spent = .spent) (inner : x ≠ .spent → y = x) (ended : f x ≠ .spent) :
    f y = f x := by
  rw [inner (Outcome.ended_of_made gone ended)]

theorem locate {α : Type} (pos : Position) {x y : Exec α} (inner : Agrees α x y) :
    Agrees α (Exec.locate pos x) (Exec.locate pos y) := by
  intro state
  rw [Exec.locate_eq, Exec.locate_eq]
  exact map (Outcome.mapFault _) rfl (inner state)

theorem traced {α : Type} {x y : Exec α} (inner : Agrees α x y) :
    Agrees α (Exec.traced x) (Exec.traced y) := by
  intro state
  rw [Exec.traced_eq, Exec.traced_eq]
  exact map (Outcome.mapFault _) rfl (inner state)

theorem attempt {α : Type} {x y : Exec α} (inner : Agrees α x y) :
    Agrees (Except Fault α) (Exec.attempt x) (Exec.attempt y) := by
  intro state
  rw [Exec.attempt_eq, Exec.attempt_eq]
  exact map Outcome.attempted rfl (inner state)

theorem called {α : Type} (name : String) (pos : Position) {x y : Exec α}
    (inner : Agrees α x y) : Agrees α (Exec.called name pos x) (Exec.called name pos y) := by
  intro state
  rw [Exec.called_eq, Exec.called_eq]
  cases state.limiter.enter name pos with
  | error breach limiter => exact fun _ => rfl
  | ok granted limiter => exact map (Outcome.mapState _) rfl (inner { state with limiter })

theorem loading {α : Type} (key : String) {x y : Exec α} (inner : Agrees α x y) :
    Agrees α (Exec.loading key x) (Exec.loading key y) := by
  intro state
  rw [Exec.loading_eq, Exec.loading_eq]
  exact map (Outcome.mapState _) rfl (inner _)

theorem catching : Catching (.anyCode True) Agrees where
  pure _ := refl _
  bind := bind
  raise _ _ := refl _
  locate := locate
  traced := traced
  child _ _ _ inner := bind (refl _) fun frame => inner frame ⟨⟨trivial, trivial⟩, trivial⟩
  store _ := refl _
  lookUp _ _ _ found state := found state.heap (state.heap.holds_anyCode trivial) state
  print _ _ := refl _
  attempt := attempt
  settle _ := refl _

theorem uniform : Uniform (.anyCode True) Agrees Agrees where
  anyCode := .of_anyCode True
  toCompatible := catching.toCompatible
  traced := traced
  strong := catching
  weaken _ _ _ inner := inner
  methods :=
    { fresh := fun _ _ _ _ inner =>
        bind (refl _) fun frame => bind (refl _) fun _ =>
          inner frame ⟨⟨trivial, trivial⟩, trivial⟩
      during := fun _ _ _ _ _ inner =>
        bind (refl _) fun _ => bind (refl _) fun _ => bind (attempt inner) fun _ => refl _ }
  passes := catching.passRelated fun _ _ => refl _
  called := called
  opens := catching.openModule (refl _) (fun _ => refl _) loading fun _ _ => refl _
  spent _ _ ended := absurd rfl ended

theorem act {first second : Engine} (related : EnginesRelated Agrees first second)
    (act : HostAct) : Agrees Value (first.act act) (second.act act) :=
  uniform.act related (refl _) (fun _ => refl _) act

theorem step {first second : Engine} (related : EnginesRelated Agrees first second) {α : Type}
    (job : Job α) : Agrees α (first.step job) (second.step job) := by
  have supers := uniform.supers related fun _ => trivial
  refine uniform.step related supers job fun _ _ native args pos _ => ?_
  exact uniform.callNative related native args pos (fun name env pos _ => supers name args env pos)
    fun fn _ => act related (fn.body args)

end Agrees

namespace Engine

theorem ofDepth_agrees (loader : Option Loader) {depth more : Nat} (enough : depth ≤ more) :
    EnginesRelated Agrees (ofDepth loader depth) (ofDepth loader more) := by
  induction depth generalizing more with
  | zero =>
      refine ⟨fun _ _ ended => absurd rfl ended, ?_, ?_⟩
      · exact Nat.zero_le _
      · rw [ofDepth_loader, ofDepth_loader]
  | succ depth ih =>
      cases more with
      | zero => omega
      | succ more =>
          refine ⟨fun job => ?_, enough, rfl⟩
          rw [perform_succ, perform_succ]
          exact Agrees.step (ih (by omega)) job

/-! ## Watched engines -/

/-- A test of a job that was performed: the job, the state it began in, and how it ended. -/
abbrev Test := {α : Type} → Job α → State → Outcome α → Bool

/-- The engine of a depth, but one that gives up on a job that fails a test. -/
def watched (test : Test) (loader : Option Loader) : Nat → Engine
  | 0 => ofDepth loader 0
  | depth + 1 =>
      { perform := fun job state =>
          let outcome := (watched test loader depth).step job state
          if test job state outcome then outcome else .spent
        passes := depth + 1
        loader }

/-- A run ends, and every job it has performed passed a test. -/
def Throughout (test : Test) (loader : Option Loader) (depth : Nat) {α : Type}
    (run : Engine → Exec α) (state : State) : Prop :=
  run (watched test loader depth) state ≠ .spent

instance (test : Test) (loader : Option Loader) (depth : Nat) {α : Type} (run : Engine → Exec α)
    (state : State) : Decidable (Throughout test loader depth run state) :=
  decidable_of_iff _ Outcome.isSpent_eq_false_iff

theorem watched_perform (test : Test) (loader : Option Loader) (depth : Nat) {α : Type}
    (job : Job α) (state : State) :
    (watched test loader (depth + 1)).perform job state = .spent ∨
      test job state ((watched test loader depth).step job state) = true ∧
        (watched test loader (depth + 1)).perform job state
          = (watched test loader depth).step job state := by
  by_cases passed : test job state ((watched test loader depth).step job state) = true
  · exact Or.inr ⟨passed, if_pos passed⟩
  · exact Or.inl (if_neg passed)

theorem watched_agrees (test : Test) (loader : Option Loader) (depth : Nat) :
    EnginesRelated Agrees (watched test loader depth) (ofDepth loader depth) := by
  induction depth with
  | zero => exact ofDepth_agrees loader (Nat.le_refl 0)
  | succ depth ih =>
      refine ⟨fun job state ended => ?_, Nat.le_refl _, rfl⟩
      rcases watched_perform test loader depth job state with gone | ⟨-, stepped⟩
      · exact absurd gone ended
      · rw [stepped] at ended
        rw [perform_succ, stepped]
        exact Agrees.step ih job state ended

end Engine

end Rill

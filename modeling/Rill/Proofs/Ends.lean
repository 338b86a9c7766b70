import Mathlib.Data.Finset.Card
import Rill.Proofs.Depth
import Rill.Proofs.Limiter
import Rill.Proofs.Tame

/-!
# Executions that end

The stage of a run is what is active in it: its calls and the modules that are running. An execution
ends at some stages when it leaves a state behind from every state at one of them, at the same stage
as before and with no fewer passes counted. Ending passes through everything evaluation is made of,
except for loops: that each pass ends is not enough, every pass also has to be counted.

How much deeper a run can still go is bounded by its level: the calls that the limiter would still
grant and the modules that are not running. Calls and module bodies run at a lower level than what
surrounds them.
-/

set_option autoImplicit false

namespace Rill

/-- What bounds a run: its budgets, the keys of the modules it may find, and a size that none of its
functions exceeds. -/
structure Terms where
  limits : Limits
  keys : List String
  size : Nat

namespace Terms

variable (terms : Terms)

def code : Permits where
  function fn := fn.Tame ∧ sizeOf fn ≤ terms.size
  default expr := expr.CallFree ∧ expr.Tame ∧ sizeOf expr ≤ terms.size
  hosts := False
  frame _ := True
  overwrites _ := True
  moves _ := True
  effects := True

theorem code_fresh (env : FrameId) : terms.code.Fresh env := ⟨⟨trivial, trivial⟩, trivial⟩

/-- A state with these budgets and no other code. -/
structure Sound (state : State) : Prop where
  code : state.heap.Holds terms.code
  limits : state.limiter.limits = terms.limits

/-- How many calls and modules can still be nested at a stage. -/
def level (calls loading : List String) : Nat :=
  (terms.limits.maxDepth - calls.length) + (terms.keys.toFinset \ loading.toFinset).card

/-- An execution has ended: the same calls and modules are active as before it. -/
structure Returns (state next : State) : Prop where
  sound : terms.Sound next
  calls : next.limiter.calls = state.limiter.calls
  loading : next.loading = state.loading
  iterations : state.limiter.iterations ≤ next.limiter.iterations

def Ends (stage : List String → List String → Prop) : Relation := fun _ x _ =>
  ∀ state, terms.Sound state → stage state.limiter.calls state.loading →
    ∃ next, (x state).state? = some next ∧ terms.Returns state next

/-- The stages of at most a level. -/
def upTo (level : Nat) (calls loading : List String) : Prop := terms.level calls loading ≤ level

namespace Returns

variable {terms : Terms} {before between after : State}

theorem refl {state : State} (sound : terms.Sound state) : terms.Returns state state :=
  ⟨sound, rfl, rfl, Nat.le_refl _⟩

theorem trans (first : terms.Returns before between) (second : terms.Returns between after) :
    terms.Returns before after :=
  ⟨second.sound, second.calls.trans first.calls, second.loading.trans first.loading,
    Nat.le_trans first.iterations second.iterations⟩

theorem stage (returns : terms.Returns before after) {stage : List String → List String → Prop}
    (here : stage before.limiter.calls before.loading) :
    stage after.limiter.calls after.loading := by
  rw [returns.calls, returns.loading]
  exact here

theorem withHeap {state : State} (sound : terms.Sound state) {heap : Heap}
    (holds : heap.Holds terms.code) : terms.Returns state { state with heap } :=
  ⟨⟨holds, sound.limits⟩, rfl, rfl, Nat.le_refl _⟩

end Returns

namespace Ends

variable {terms : Terms} {stage : List String → List String → Prop}

theorem of_returns {α : Type} {x y : Exec α}
    (still : ∀ state, terms.Sound state →
      ∃ next, (x state).state? = some next ∧ terms.Returns state next) :
    terms.Ends stage α x y := fun state sound _ => still state sound

theorem unchanged {α : Type} {x y : Exec α} (still : ∀ state, (x state).state? = some state) :
    terms.Ends stage α x y :=
  of_returns fun state sound => ⟨state, still state, .refl sound⟩

theorem bind {α β : Type} {x y : Exec α} {f g : α → Exec β} (first : terms.Ends stage α x y)
    (second : ∀ a, terms.Ends stage β (f a) (g a)) :
    terms.Ends stage β (x >>= f) (y >>= g) := by
  intro state sound here
  obtain ⟨between, left, returned⟩ := first state sound here
  rw [Exec.bind_eq]
  cases outcome : x state with
  | done a next =>
      rw [outcome] at left
      cases left
      obtain ⟨after, ended, later⟩ :=
        second a between returned.sound (returned.stage here)
      exact ⟨after, ended, returned.trans later⟩
  | fault fault next =>
      rw [outcome] at left
      exact ⟨between, left, returned⟩
  | spent =>
      rw [outcome] at left
      cases left

theorem store {α : Type} {x : Store α} {y : Exec α}
    (holds : ∀ heap : Heap, heap.Holds terms.code → (x heap).2.Holds terms.code) :
    terms.Ends stage α (liftM x) y := by
  refine of_returns fun state sound => ?_
  exact ⟨_, Exec.store_state? x state, .withHeap sound (holds state.heap sound.code)⟩

theorem catching : Catching terms.code (terms.Ends stage) where
  pure _ := unchanged fun _ => rfl
  bind := bind
  raise _ _ := unchanged fun _ => rfl
  locate _ _ _ inner state sound here := by
    simpa using inner state sound here
  traced inner state sound here := by
    simpa using inner state sound here
  child env _ _ inner :=
    bind (store (Store.Ordinary.child env).holds) fun frame => inner frame (terms.code_fresh frame)
  store ordinary := store ordinary.holds
  lookUp f _ _ found state sound here := found state.heap sound.code state sound here
  print _ _ := of_returns fun state sound =>
    ⟨_, rfl, ⟨sound.code, sound.limits⟩, rfl, rfl, Nat.le_refl _⟩
  attempt inner state sound here := by
    simpa using inner state sound here
  settle result := by
    cases result with
    | ok a => exact unchanged fun _ => rfl
    | error fault => exact unchanged fun _ => rfl

theorem tick : TickRelated (terms.Ends stage) := by
  intro kind pos
  refine of_returns fun state sound => ?_
  simp only [Exec.tick]
  cases asked : state.limiter.tick kind pos with
  | error breach next =>
      obtain ⟨taken, rfl⟩ := Limiter.aged_of_tick_error asked
      exact ⟨_, rfl, ⟨sound.code, sound.limits⟩, rfl, rfl, Nat.le_refl _⟩
  | ok granted next =>
      refine ⟨{ state with limiter := next }, rfl, ?_⟩
      obtain ⟨-, rfl⟩ | ⟨-, -, -, rfl⟩ := Limiter.tick_ok_iff.mp asked
      · exact .refl sound
      · exact ⟨⟨sound.code, sound.limits⟩, rfl, rfl, Nat.le_succ _⟩

theorem passes : PassRelated (terms.Ends stage) := catching.passRelated tick

theorem methods : MethodRelated terms.code (terms.Ends stage) where
  fresh env method _ _ inner := by
    refine bind (store (Store.Ordinary.child env).holds) fun frame => ?_
    exact bind (store fun _ holds => holds.setMethod frame method) fun _ =>
      inner frame (terms.code_fresh frame)
  during env _ method x _ inner := by
    intro state sound here
    have holds := sound.code.setMethod env (some method)
    obtain ⟨next, left, returned⟩ :=
      inner { state with heap := (Store.setMethod env (some method) state.heap).2 }
        ⟨holds, sound.limits⟩ here
    rw [Exec.asMethod_eq, Outcome.mapState_state?, left]
    refine ⟨_, rfl, ?_⟩
    exact ⟨⟨returned.sound.code.setMethod env _, returned.sound.limits⟩, returned.calls,
      returned.loading, returned.iterations⟩

/-! ## Brackets -/

theorem called {α : Type} {level : Nat} (enabled : terms.limits.enabled = true) (name : String)
    (pos : Position) {x y : Exec α} (inner : ∀ lower < level, terms.Ends (terms.upTo lower) α x y) :
    terms.Ends (terms.upTo level) α (Exec.called name pos x) (Exec.called name pos y) := by
  intro state sound here
  rw [Exec.called_eq]
  cases asked : state.limiter.enter name pos with
  | error breach next =>
      obtain ⟨taken, rfl⟩ := Limiter.aged_of_enter_error asked
      exact ⟨_, rfl, ⟨sound.code, sound.limits⟩, rfl, rfl, Nat.le_refl _⟩
  | ok granted limiter =>
      obtain ⟨allowed, rfl⟩ := Limiter.enter_ok_iff.mp asked
      rw [sound.limits] at allowed
      have room : state.limiter.calls.length < terms.limits.maxDepth := (allowed enabled).2
      have lower : terms.level (name :: state.limiter.calls) state.loading < level := by
        simp only [Terms.upTo, Terms.level] at here
        simp only [Terms.level, List.length_cons]
        omega
      obtain ⟨next, left, returned⟩ := inner _ lower
        { state with limiter := { state.limiter with
            calls := name :: state.limiter.calls, clock := state.limiter.clockAfter } }
        ⟨sound.code, sound.limits⟩ (Nat.le_refl _)
      simp only [Outcome.mapState_state?, left]
      refine ⟨_, rfl, ⟨returned.sound.code, returned.sound.limits⟩, ?_, returned.loading,
        returned.iterations⟩
      simp [Limiter.leave, returned.calls]

theorem loading {α : Type} {level : Nat} {key : String} (known : key ∈ terms.keys) {x y : Exec α}
    (inner : ∀ lower < level, terms.Ends (terms.upTo lower) α x y) :
    terms.Ends (fun calls loading => terms.upTo level calls loading ∧ key ∉ loading) α
      (Exec.loading key x) (Exec.loading key y) := by
  intro state sound ⟨here, fresh⟩
  have fewer : (terms.keys.toFinset \ (key :: state.loading).toFinset).card
      < (terms.keys.toFinset \ state.loading.toFinset).card := by
    refine Finset.card_lt_card ((Finset.ssubset_iff_of_subset ?_).mpr ⟨key, ?_, ?_⟩)
    · intro other
      simp +contextual
    · simp [known, fresh]
    · simp
  have lower : terms.level state.limiter.calls (key :: state.loading) < level := by
    simp only [Terms.upTo, Terms.level] at here
    simp only [Terms.level]
    omega
  obtain ⟨next, left, returned⟩ := inner _ lower
    { state with loading := key :: state.loading } ⟨sound.code, sound.limits⟩ (Nat.le_refl _)
  rw [Exec.loading_eq, Outcome.mapState_state?, left]
  refine ⟨_, rfl, ⟨returned.sound.code, returned.sound.limits⟩, returned.calls, ?_,
    returned.iterations⟩
  simp [returned.loading]

end Ends

/-! ## Loops -/

/-- A pass is counted when it does not find its loop over, and it was not the last one allowed. -/
def Counts (stage : List String → List String → Prop) (x : Exec (Option Signal)) : Prop :=
  ∀ state, terms.Sound state → stage state.limiter.calls state.loading →
    ∀ signal next, x state = .done (some signal) next →
      state.limiter.iterations < terms.limits.maxIterations ∧
        state.limiter.iterations < next.limiter.iterations

namespace Counts

variable {terms : Terms} {stage : List String → List String → Prop}

theorem finished : terms.Counts stage (pure none) := by
  intro state _ _ signal next result
  cases result

theorem bind {α : Type} {x y : Exec α} {f : α → Exec (Option Signal)}
    (first : terms.Ends stage α x y) (second : ∀ a, terms.Counts stage (f a)) :
    terms.Counts stage (x >>= f) := by
  intro state sound here signal next result
  obtain ⟨between, left, returned⟩ := first state sound here
  rw [Exec.bind_eq] at result
  cases outcome : x state with
  | done a after =>
      rw [outcome] at left result
      cases left
      have later := second a between returned.sound (returned.stage here) signal next result
      have earlier := returned.iterations
      omega
  | fault fault after =>
      rw [outcome] at result
      cases result
  | spent =>
      rw [outcome] at result
      cases result

theorem tick (enabled : terms.limits.enabled = true) (kind : BreachKind) (pos : Position)
    {x y : Exec (Option Signal)} (rest : terms.Ends stage (Option Signal) x y) :
    terms.Counts stage (Exec.tick kind pos >>= fun _ => x) := by
  intro state sound here signal next result
  rw [Exec.bind_eq] at result
  simp only [Exec.tick] at result
  cases asked : state.limiter.tick kind pos with
  | error breach limiter =>
      rw [asked] at result
      cases result
  | ok granted limiter =>
      rw [asked] at result
      obtain ⟨off, -⟩ | ⟨-, -, room, rfl⟩ := Limiter.tick_ok_iff.mp asked
      · rw [sound.limits, enabled] at off
        cases off
      · rw [sound.limits] at room
        obtain ⟨after, left, returned⟩ := rest
          { state with limiter :=
            { state.limiter.look with iterations := state.limiter.iterations + 1 } }
          ⟨sound.code, sound.limits⟩ here
        have passed := returned.iterations
        simp only at result passed
        rw [result] at left
        cases left
        exact ⟨room, passed⟩

theorem pass {engine : Engine} (enabled : terms.limits.enabled = true) (kind : BreachKind)
    (cond : Option Expr) (body : Block) (env : FrameId) (pos : Position)
    (conds : ∀ part ∈ cond.toList, EvalRelated (terms.Ends stage) engine engine part)
    (stmts : ∀ part ∈ body.stmts, ExecRelated terms.code (terms.Ends stage) engine engine part) :
    terms.Counts stage (engine.pass kind cond body env pos) := by
  refine bind (Ends.catching.holds cond env conds) fun answer => ?_
  cases answer with
  | true =>
      have rest := Ends.catching.bind (Ends.catching.execBlock body env stmts)
        fun signal => Ends.catching.pure (some signal)
      exact tick enabled kind pos rest
  | false => exact finished

theorem passOver {engine : Engine} (enabled : terms.limits.enabled = true) (name : String)
    (value : Value) (entries : Array (Value × Value)) (body : Block) (env : FrameId)
    (pos : Position) (index : Nat)
    (stmts : ∀ part ∈ body.stmts, ExecRelated terms.code (terms.Ends stage) engine engine part) :
    terms.Counts stage (engine.passOver name value entries body env pos index) := by
  have ordinary : ∀ {α : Type} {x : Store α}, Store.Ordinary terms.code x →
      terms.Ends stage α (liftM x) (liftM x) := Ends.catching.store
  refine bind (ordinary (.entryAt value entries index)) fun entry => ?_
  cases entry with
  | none => exact finished
  | some entry =>
      have held := fun frame => (terms.code_fresh frame).toScope
      refine bind (ordinary (.child env)) fun frame => ?_
      refine bind (ordinary (.define (held frame).overwrites name entry.1)) fun _ => ?_
      refine bind (ordinary (.define (held frame).overwrites "$k" entry.1)) fun _ => ?_
      refine bind (ordinary (.define (held frame).overwrites "$v" entry.2)) fun _ => ?_
      refine bind (ordinary (.define (held frame).overwrites "$c" value)) fun _ => ?_
      have runs := Ends.catching.execAll (held frame).frame body.stmts .nil stmts
      have rest := Ends.catching.bind runs fun signal => Ends.catching.pure (some signal)
      exact tick enabled .forIn pos rest

end Counts

/-- A loop whose passes end and are counted ends when it may take more passes than the budget has
left. -/
theorem Ends.loop {terms : Terms} {stage : List String → List String → Prop}
    {pass : Nat → Exec (Option Signal)}
    (ends : ∀ index, terms.Ends stage (Option Signal) (pass index) (pass index))
    (counts : ∀ index, terms.Counts stage (pass index)) (passes : Nat) (index : Nat)
    (last : Value) (state : State) (sound : terms.Sound state)
    (here : stage state.limiter.calls state.loading)
    (enough : terms.limits.maxIterations - state.limiter.iterations < passes) :
    ∃ next, (Exec.loop pass passes index last state).state? = some next ∧
      terms.Returns state next := by
  induction passes generalizing index last state with
  | zero => omega
  | succ passes ih =>
      obtain ⟨between, left, returned⟩ := ends index state sound here
      have counted := counts index state sound here
      simp only [Exec.loop, Exec.bind_eq]
      cases outcome : pass index state with
      | done result after =>
          rw [outcome] at left
          cases left
          cases result with
          | none => exact ⟨between, rfl, returned⟩
          | some signal =>
              have progress := counted signal between outcome
              have again := fun last => ih (index + 1) last between returned.sound
                (returned.stage here) (by omega)
              cases signal with
              | normal value =>
                  obtain ⟨next, ended, later⟩ := again value
                  exact ⟨next, ended, returned.trans later⟩
              | continue_ =>
                  obtain ⟨next, ended, later⟩ := again last
                  exact ⟨next, ended, returned.trans later⟩
              | break_ | return_ => exact ⟨between, rfl, returned⟩
      | fault fault after =>
          rw [outcome] at left
          exact ⟨between, left, returned⟩
      | spent =>
          rw [outcome] at left
          cases left

end Terms

end Rill

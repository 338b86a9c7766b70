import Rill.Proofs.Limiter
import Rill.Proofs.Visit

/-!
# Transparency of the limiter

Two runs that differ in their budgets alone go hand in hand until the one with the smaller budgets
is refused something. Their states differ in the budgets and in the passes counted, and in nothing
else (`Alike`). A limiter that is switched off does not count, so the second run may have counted
fewer passes.

Steps are followed up to a refusal. Jobs are followed strictly, since a refused job is one at which
the watched engine gives up; this is what allows a `try` to stop faults without stopping a refusal.
-/

set_option autoImplicit false

namespace Rill

/-- No two readings of a clock are further apart than a time budget. -/
def Clock.Spans (clock : Clock) (budget : Nat) : Prop :=
  ∀ first later, clock.reading later - clock.reading first ≤ budget

/-- Whatever these budgets allow, the wider ones allow, and their time lasts. -/
def Limits.Within (limits wider : Limits) (clock : Clock) : Prop :=
  wider.enabled = false ∨
    limits.enabled = true ∧ limits.maxIterations ≤ wider.maxIterations ∧
      limits.maxDepth ≤ wider.maxDepth ∧ clock.Spans wider.budget

namespace Limiter

/-- The second limiter has the wider budgets and has counted at most the passes. It may have looked at
its clock more or less often. -/
structure Widened (wider : Limits) (limiter other : Limiter) : Prop where
  within : limiter.limits.Within wider other.clock
  limits : other.limits = wider
  passes : other.iterations ≤ limiter.iterations
  calls : other.calls = limiter.calls
  cancelled : other.cancelled = limiter.cancelled
  started : ∃ first, other.started = other.clock.reading first

namespace Widened

variable {wider : Limits} {limiter other next : Limiter} {kind : BreachKind} {name : String}
  {pos : Position}

theorem uninterrupted (widened : Widened wider limiter other) (running : limiter.Uninterrupted)
    (time : other.clock.Spans wider.budget) : other.Uninterrupted := by
  obtain ⟨first, started⟩ := widened.started
  refine ⟨widened.cancelled.trans running.1, ?_⟩
  rw [elapsed, started, widened.limits]
  exact time first other.clock.taken

theorem tick (widened : Widened wider limiter other)
    (granted : limiter.tick kind pos = .ok () next) :
    ∃ after, other.tick kind pos = .ok () after ∧ Widened wider next after := by
  by_cases on : wider.enabled = true
  · obtain off | ⟨enabled, iterations, -, time⟩ := widened.within
    · rw [on] at off
      cases off
    · obtain ⟨off, -⟩ | ⟨-, running, room, rfl⟩ := tick_ok_iff.mp granted
      · rw [enabled] at off
        cases off
      · have free := widened.uninterrupted running time
        have space : other.iterations < other.limits.maxIterations := by
          have fewer := widened.passes
          rw [widened.limits]
          omega
        have counts : other.limits.enabled = true := by rw [widened.limits, on]
        exact ⟨_, tick_ok_iff.mpr (Or.inr ⟨counts, free, space, rfl⟩), widened.within,
          widened.limits, Nat.succ_le_succ widened.passes, widened.calls, widened.cancelled,
          widened.started⟩
  · have off : other.limits.enabled = false := by
      rw [widened.limits]
      exact Bool.eq_false_iff.mpr on
    refine ⟨other, tick_ok_iff.mpr (Or.inl ⟨off, rfl⟩), ?_⟩
    obtain ⟨-, rfl⟩ | ⟨-, -, -, rfl⟩ := tick_ok_iff.mp granted
    · exact widened
    · exact ⟨widened.within, widened.limits, Nat.le_succ_of_le widened.passes, widened.calls,
        widened.cancelled, widened.started⟩

theorem enter (widened : Widened wider limiter other)
    (granted : limiter.enter name pos = .ok () next) :
    ∃ after, other.enter name pos = .ok () after ∧ Widened wider next after := by
  obtain ⟨allowed, rfl⟩ := enter_ok_iff.mp granted
  refine ⟨_, enter_ok_iff.mpr ⟨fun on => ?_, rfl⟩, ?_⟩
  · rw [widened.limits] at on
    obtain off | ⟨enabled, -, depth, time⟩ := widened.within
    · rw [on] at off
      cases off
    · obtain ⟨running, room⟩ := allowed enabled
      refine ⟨widened.uninterrupted running time, ?_⟩
      rw [Limiter.depth, widened.calls, widened.limits]
      exact Nat.lt_of_lt_of_le room depth
  · obtain ⟨taken, aged⟩ := other.clockAfter_aged
    have same : other.clockAfter.reading = other.clock.reading := congrArg (·.clock.reading) aged
    refine ⟨?_, widened.limits, widened.passes, congrArg (name :: ·) widened.calls, widened.cancelled, ?_⟩
    · simpa only [Limits.Within, Clock.Spans, same] using widened.within
    · simpa only [same] using widened.started

theorem leave (widened : Widened wider limiter other) : Widened wider limiter.leave other.leave :=
  ⟨widened.within, widened.limits, widened.passes, congrArg List.tail widened.calls,
    widened.cancelled, widened.started⟩

theorem reset (widened : Widened wider limiter other) : Widened wider limiter.reset other.reset :=
  ⟨widened.within, widened.limits, Nat.le_refl 0, rfl, widened.cancelled, ⟨_, rfl⟩⟩

end Widened

end Limiter

/-- The second state is the first one, but with wider budgets. No function of the host is around to
tell them apart. -/
structure Alike (wider : Limits) (state other : State) : Prop where
  widened : state.limiter.Widened wider other.limiter
  same : other = { state with limiter := other.limiter }
  natives : state.heap.Holds (.anyCode False)

/-- The second outcome is the first one, but for what the limiter has counted. -/
inductive Follows (wider : Limits) {α : Type} : Outcome α → Outcome α → Prop where
  | done (a : α) {state other : State} (alike : Alike wider state other) :
      Follows wider (.done a state) (.done a other)
  | fault (fault : Fault) {state other : State} (alike : Alike wider state other) :
      Follows wider (.fault fault state) (.fault fault other)
  | spent (outcome : Outcome α) : Follows wider .spent outcome

/-- From alike states the second execution follows the first, unless that one is refused something
and refusals are let pass. -/
def Mirrors (wider : Limits) (refusals : Prop) : Relation := fun _ x y =>
  ∀ state other, Alike wider state other →
    refusals ∧ (x state).isRefused = true ∨ Follows wider (x state) (y other)

namespace Alike

variable {wider : Limits} {state other : State}

theorem withHeap (alike : Alike wider state other) {heap : Heap}
    (natives : heap.Holds (.anyCode False)) :
    Alike wider { state with heap } { other with heap } := by
  refine ⟨alike.widened, ?_, natives⟩
  rw [alike.same]

theorem withLimiter (alike : Alike wider state other) {limiter after : Limiter}
    (widened : limiter.Widened wider after) :
    Alike wider { state with limiter } { other with limiter := after } := by
  refine ⟨widened, ?_, alike.natives⟩
  rw [alike.same]

end Alike

namespace Mirrors

variable {wider : Limits} {refusals : Prop}

theorem pure {α : Type} (a : α) : Mirrors wider refusals α (pure a) (pure a) :=
  fun _ _ alike => Or.inr (.done a alike)

theorem throw {α : Type} (fault : Fault) :
    Mirrors wider refusals α (Exec.throw fault) (Exec.throw fault) :=
  fun _ _ alike => Or.inr (.fault fault alike)

theorem mapState {α : Type} {x y : Outcome α} (f : State → State)
    (left : ∀ {state other}, Alike wider state other → Alike wider (f state) (f other))
    (inner : refusals ∧ x.isRefused = true ∨ Follows wider x y) :
    refusals ∧ (x.mapState f).isRefused = true ∨
      Follows wider (x.mapState f) (y.mapState f) := by
  rcases inner with ⟨passing, refusal⟩ | follows
  · refine Or.inl ⟨passing, ?_⟩
    cases x with
    | done a state => cases refusal
    | fault found state => exact refusal
    | spent => cases refusal
  · refine Or.inr ?_
    cases follows with
    | done a alike => exact .done a (left alike)
    | fault found alike => exact .fault found (left alike)
    | spent outcome => exact .spent _

theorem mapFault {α : Type} {x y : Exec α} (note : Fault → State → Fault)
    (cause : ∀ fault state, (note fault state).cause = fault.cause)
    (same : ∀ fault (state : State) limiter, limiter.calls = state.limiter.calls →
      note fault { state with limiter } = note fault state)
    (inner : Mirrors wider refusals α x y) :
    Mirrors wider refusals α
      (fun state => match x state with
        | .fault fault next => .fault (note fault next) next
        | outcome => outcome)
      (fun state => match y state with
        | .fault fault next => .fault (note fault next) next
        | outcome => outcome) := by
  intro state other alike
  rcases inner state other alike with ⟨passing, refusal⟩ | follows
  · refine Or.inl ⟨passing, ?_⟩
    dsimp only
    generalize x state = outcome at refusal ⊢
    cases outcome with
    | done a next => cases refusal
    | fault found next =>
        simp only [Outcome.isRefused, cause]
        exact refusal
    | spent => cases refusal
  · refine Or.inr ?_
    dsimp only
    generalize x state = outcome at follows ⊢
    generalize y other = answer at follows ⊢
    cases follows with
    | done a alike => exact .done a alike
    | fault found alike =>
        have noted := same found _ _ alike.widened.calls
        rw [← alike.same] at noted
        simp only [noted]
        exact .fault _ alike
    | spent outcome => exact .spent _

theorem bind {α β : Type} {x y : Exec α} {f g : α → Exec β}
    (first : Mirrors wider refusals α x y) (second : ∀ a, Mirrors wider refusals β (f a) (g a)) :
    Mirrors wider refusals β (x >>= f) (y >>= g) := by
  intro state other alike
  rw [Exec.bind_eq, Exec.bind_eq]
  have begun := first state other alike
  generalize x state = outcome at begun ⊢
  generalize y other = answer at begun ⊢
  rcases begun with ⟨passing, refusal⟩ | follows
  · refine Or.inl ⟨passing, ?_⟩
    cases outcome with
    | done a next => cases refusal
    | fault fault next => exact refusal
    | spent => cases refusal
  · cases follows with
    | done a alike => exact second a _ _ alike
    | fault fault alike => exact Or.inr (.fault fault alike)
    | spent outcome => exact Or.inr (.spent _)

theorem locate {α : Type} (pos : Position) {x y : Exec α}
    (inner : Mirrors wider refusals α x y) :
    Mirrors wider refusals α (Exec.locate pos x) (Exec.locate pos y) :=
  mapFault (fun fault _ => fault.locate pos) (by simp) (fun _ _ _ _ => rfl) inner

theorem traced {α : Type} {x y : Exec α} (inner : Mirrors wider refusals α x y) :
    Mirrors wider refusals α (Exec.traced x) (Exec.traced y) :=
  mapFault (fun fault next => fault.trace next.limiter.calls) (by simp)
    (fun fault _ _ calls => congrArg fault.trace calls) inner

theorem attempt {α : Type} {x y : Exec α} (inner : Mirrors wider False α x y) :
    Mirrors wider False (Except Fault α) (Exec.attempt x) (Exec.attempt y) := by
  intro state other alike
  refine Or.inr ?_
  rcases inner state other alike with ⟨impossible, -⟩ | follows
  · exact impossible.elim
  · simp only [Exec.attempt]
    generalize x state = outcome at follows ⊢
    generalize y other = answer at follows ⊢
    cases follows with
    | done a alike => exact .done _ alike
    | fault fault alike => exact .done _ alike
    | spent outcome => exact .spent _

theorem read {α : Type} (f : State → α)
    (same : ∀ (state : State) limiter, f { state with limiter } = f state) :
    Mirrors wider refusals α (Exec.read f) (Exec.read f) := by
  intro state other alike
  have found : f other = f state := by rw [alike.same, same]
  refine Or.inr ?_
  simp only [Exec.read, found]
  exact .done _ alike

theorem store {α : Type} {x : Store α}
    (holds : ∀ heap : Heap, heap.Holds (.anyCode False) → (x heap).2.Holds (.anyCode False)) :
    Mirrors wider refusals α (liftM x) (liftM x) := by
  intro state other alike
  have natives := holds state.heap alike.natives
  have same : other.heap = state.heap := by rw [alike.same]
  refine Or.inr ?_
  rw [Exec.store_eq, Exec.store_eq, same]
  cases outcome : x state.heap with
  | mk result heap =>
      rw [outcome] at natives
      cases result with
      | ok a => exact .done a (alike.withHeap natives)
      | error cause => exact .fault _ (alike.withHeap natives)

theorem lookUp {α β : Type} (f : Heap → α) {g h : α → Exec β}
    (found : ∀ heap : Heap, heap.Holds (.anyCode False) →
      Mirrors wider refusals β (g (f heap)) (h (f heap))) :
    Mirrors wider refusals β (Exec.read (fun state => f state.heap) >>= g)
      (Exec.read (fun state => f state.heap) >>= h) := by
  intro state other alike
  have same : other.heap = state.heap := by rw [alike.same]
  have inner := found state.heap alike.natives state other alike
  simp only [Exec.bind_eq, Exec.read, same]
  exact inner

theorem print (text : String) :
    Mirrors wider refusals Unit (Exec.print text) (Exec.print text) := by
  intro state other alike
  refine Or.inr (.done () ⟨alike.widened, ?_, alike.natives⟩)
  rw [alike.same]

theorem compatible : Compatible (.anyCode False) (Mirrors wider refusals) where
  pure := pure
  bind := bind
  raise cause _ := throw (.of cause)
  locate := locate
  child env _ _ inner :=
    bind (store (Store.Ordinary.child env).holds) fun frame =>
      inner frame ⟨⟨trivial, trivial⟩, trivial⟩
  store ordinary := store ordinary.holds
  lookUp := lookUp
  print _ := print

theorem catching : Catching (.anyCode False) (Mirrors wider False) where
  toCompatible := compatible
  traced := traced
  attempt := attempt
  settle result := by
    cases result with
    | ok a => exact pure a
    | error fault => exact throw fault

/-! ## The limiter and its brackets -/

theorem tick (kind : BreachKind) (pos : Position) :
    Mirrors wider True Unit (Exec.tick kind pos) (Exec.tick kind pos) := by
  intro state other alike
  simp only [Exec.tick]
  cases asked : state.limiter.tick kind pos with
  | error breach next => exact Or.inl ⟨trivial, rfl⟩
  | ok granted next =>
      obtain ⟨after, granted, widened⟩ := alike.widened.tick asked
      simp only [granted]
      exact Or.inr (.done () (alike.withLimiter widened))

theorem called (name : String) (pos : Position) {x y : Exec Value}
    (inner : Mirrors wider True Value x y) :
    Mirrors wider True Value (Exec.called name pos x) (Exec.called name pos y) := by
  intro state other alike
  rw [Exec.called_eq, Exec.called_eq]
  cases asked : state.limiter.enter name pos with
  | error breach limiter => exact Or.inl ⟨trivial, rfl⟩
  | ok granted limiter =>
      obtain ⟨after, granted, widened⟩ := alike.widened.enter asked
      simp only [granted]
      exact mapState _ (fun alike => alike.withLimiter alike.widened.leave)
        (inner _ _ (alike.withLimiter widened))

theorem loading (key : String) {x y : Exec Value} (inner : Mirrors wider True Value x y) :
    Mirrors wider True Value (Exec.loading key x) (Exec.loading key y) := by
  intro state other alike
  rw [Exec.loading_eq, Exec.loading_eq]
  refine mapState _ (fun alike => ⟨alike.widened, ?_, alike.natives⟩)
    (inner _ _ ⟨alike.widened, ?_, alike.natives⟩)
  · rw [alike.same]
  · rw [alike.same]

theorem setMethod (env : FrameId) (method : Option MethodRef) :
    Mirrors wider refusals Unit (liftM (Store.setMethod env method))
      (liftM (Store.setMethod env method)) :=
  store fun _ natives => natives.setMethod env method

theorem during (env : FrameId) (method : MethodRef) {x y : Exec Value}
    (inner : Mirrors wider True Value x y) :
    Mirrors wider True Value (Exec.asMethod env method x) (Exec.asMethod env method y) := by
  intro state other alike
  have same : other.heap = state.heap := by rw [alike.same]
  have noted := inner _ _ (alike.withHeap (alike.natives.setMethod env (some method)))
  rw [Exec.asMethod_eq, Exec.asMethod_eq, same]
  refine mapState _ (fun {after later} alike => ?_) noted
  have heaps : later.heap = after.heap := by rw [alike.same]
  rw [heaps]
  exact alike.withHeap (alike.natives.setMethod env _)

theorem keepModule (key : String) (env : FrameId) :
    Mirrors wider refusals Unit (Exec.keepModule key env) (Exec.keepModule key env) := by
  intro state other alike
  refine Or.inr (.done () ⟨alike.widened, ?_, alike.natives⟩)
  rw [alike.same]

theorem reset : Mirrors wider refusals Unit (Exec.changeLimiter Limiter.reset)
    (Exec.changeLimiter Limiter.reset) :=
  fun _ _ alike => Or.inr (.done () (alike.withLimiter alike.widened.reset))

theorem uniform : Uniform (.anyCode False) (Mirrors wider True) (Mirrors wider False) where
  anyCode := .of_anyCode False
  toCompatible := compatible
  traced := traced
  strong := catching
  weaken _ _ _ inner state other alike := by
    rcases inner state other alike with ⟨impossible, -⟩ | follows
    · exact impossible.elim
    · exact Or.inr follows
  methods :=
    { fresh := fun env method _ _ inner => bind (compatible.store (.child env)) fun frame =>
        bind (setMethod frame method) fun _ => inner frame ⟨⟨trivial, trivial⟩, trivial⟩
      during := fun env _ method _ _ inner => during env method inner }
  passes := compatible.passRelated tick
  called := called
  opens := compatible.openModule (read _ fun _ _ => rfl) (fun _ => read _ fun _ _ => rfl) loading
    keepModule
  spent _ _ _ _ := Or.inr (.spent _)

end Mirrors

namespace Engine

def unrefused : Test := fun _ _ outcome => !outcome.isRefused

theorem watched_mirrors (wider : Limits) (loader : Option Loader) (depth : Nat) :
    EnginesRelated (Mirrors wider False) (watched unrefused loader depth)
      (ofDepth loader depth) := by
  induction depth with
  | zero => exact ⟨fun _ _ _ _ => Or.inr (.spent _), Nat.le_refl _, rfl⟩
  | succ depth ih =>
      refine ⟨fun job state other alike => Or.inr ?_, Nat.le_refl _, rfl⟩
      have supers := Mirrors.uniform.supers ih fun _ => trivial
      have stepped := Mirrors.uniform.step ih supers job
        (fun _ _ native args pos held => Mirrors.uniform.callNative ih native args pos
          (fun name env pos _ => supers name args env pos)
          fun fn same => (held (by rw [same]; rfl)).elim) state other alike
      rcases watched_perform unrefused loader depth job state with gone | ⟨passed, taken⟩
      · rw [gone]
        exact .spent _
      · rw [taken, perform_succ]
        rcases stepped with ⟨-, refusal⟩ | follows
        · simp [unrefused, refusal] at passed
        · exact follows

end Engine

/-- A state without the budgets, the passes counted and the time. -/
def State.sight (state : State) : State :=
  { state with limiter :=
      ⟨⟨0, 0, 0, false⟩, 0, state.limiter.calls, state.limiter.cancelled, 0, .ticking⟩ }

def Outcome.sight {α : Type} (outcome : Outcome α) : Outcome α := outcome.mapState State.sight

theorem Alike.sight {wider : Limits} {state other : State} (alike : Alike wider state other) :
    other.sight = state.sight := by
  rw [State.sight, alike.widened.calls, alike.widened.cancelled, alike.same]
  rfl

theorem Follows.sight {wider : Limits} {α : Type} {outcome answer : Outcome α}
    (follows : Follows wider outcome answer) (ended : outcome ≠ .spent) :
    answer.sight = outcome.sight := by
  cases follows with
  | done a alike => exact congrArg (Outcome.done a) alike.sight
  | fault fault alike => exact congrArg (Outcome.fault fault) alike.sight
  | spent outcome => exact absurd rfl ended

/-- A program that runs under some budgets without any refusal, caught or not, runs in the same way
under wider budgets or without any, whatever the time it takes as long as that does not run out: it
ends with the same value or the same fault, in the same heap and with the same output. -/
theorem limiter_transparent (setup : Setup) (wider : Limits) (loader : Option Loader) (depth : Nat)
    (program : Program) (clock : Clock)
    (prelude : ∀ native ∈ setup.natives, native.isHost = false)
    (within : setup.limits.Within wider clock)
    (unrefused : Engine.Throughout Engine.unrefused loader depth (·.runWhole program)
      setup.start) :
    ((Engine.ofDepth loader depth).runWhole program setup.start) ≠ .spent ∧
      ((Engine.ofDepth loader depth).runWhole program
          { setup with limits := wider, clock }.start).sight
        = ((Engine.ofDepth loader depth).runWhole program setup.start).sight := by
  have agrees := Engine.watched_agrees Engine.unrefused loader depth
  have plain : (Engine.ofDepth loader depth).runWhole program setup.start
      = (Engine.watched Engine.unrefused loader depth).runWhole program setup.start :=
    Agrees.catching.runWhole (Agrees.refl _) program trivial trivial
      (fun part _ env _ => agrees.jobs (.exec part env))
      (fun callee args pos => agrees.jobs (.call callee args pos)) setup.start unrefused
  have natives : setup.heap.Holds (.anyCode False) :=
    setup.heap_holds trivial fun native member host => by simp [prelude native member] at host
  have alike : Alike wider setup.start { setup with limits := wider, clock }.start :=
    ⟨⟨within, rfl, Nat.le_refl 0, rfl, rfl, ⟨_, rfl⟩⟩, rfl, natives⟩
  have mirrors := Engine.watched_mirrors wider loader depth
  have mirrored := Mirrors.catching.runWhole Mirrors.reset program trivial trivial
    (fun part _ env _ => mirrors.jobs (.exec part env))
    (fun callee args pos => mirrors.jobs (.call callee args pos)) _ _ alike
  rw [plain]
  rcases mirrored with ⟨impossible, -⟩ | follows
  · exact impossible.elim
  · exact ⟨unrefused, follows.sight unrefused⟩

namespace Program

/-- One pass of a loop: `while true { break }`. -/
def onePass : Program :=
  ⟨[.while_ .unknown (.literal .unknown (.bool true)) ⟨[.break_ .unknown], .unknown⟩], "."⟩

/-- One pass of a loop inside one call: `func main() { while true { break } }`. -/
def oneCall : Program :=
  ⟨[.function .unknown ⟨some "main", [], .block ⟨onePass.body, .unknown⟩, .unknown⟩], "."⟩

end Program

/-- A budget that is used up exactly. -/
theorem limiter_transparent_oneCall :
    (((Engine.ofDepth none 5).runWhole .oneCall (Setup.plain ⟨0, 0, 0, false⟩).start).sight
      = ((Engine.ofDepth none 5).runWhole .oneCall (Setup.plain ⟨1, 1, 2, true⟩).start).sight) :=
  (limiter_transparent (.plain ⟨1, 1, 2, true⟩) ⟨0, 0, 0, false⟩ none 5 .oneCall .ticking (by decide)
    (Or.inl rfl) (by decide +kernel)).2

def Setup.timeless (limits : Limits) : Setup := { plain limits with clock := ⟨fun _ => 0, 0⟩ }

/-- Budgets that are no smaller are not enough: a limiter that is switched off has none, and one
that is switched on may then refuse what the other let pass. -/
theorem limiter_not_transparent_when_enabled :
    ¬ ∀ (setup : Setup) (wider : Limits) (program : Program) (depth : Nat),
      (∀ native ∈ setup.natives, native.isHost = false) → setup.cancelled = false →
        setup.limits.maxIterations ≤ wider.maxIterations → setup.limits.maxDepth ≤ wider.maxDepth →
          setup.clock.Spans setup.limits.budget → setup.clock.Spans wider.budget →
            Engine.Throughout Engine.unrefused none depth (·.runWhole program) setup.start →
              ((Engine.ofDepth none depth).runWhole program { setup with limits := wider }.start).sight
                = ((Engine.ofDepth none depth).runWhole program setup.start).sight := by
  intro transparent
  have same := transparent (.timeless ⟨0, 0, 1, false⟩) ⟨0, 0, 1, true⟩ .onePass 3 (by decide) rfl
    (Nat.le_refl 0) (Nat.le_refl 0) (fun _ _ => Nat.zero_le 1) (fun _ _ => Nat.zero_le 1)
    (by decide +kernel)
  have refused := congrArg Outcome.isRefused same
  revert refused
  decide +kernel

end Rill

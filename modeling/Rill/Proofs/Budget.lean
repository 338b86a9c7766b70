import Rill.Proofs.Events
import Rill.Proofs.Limiter

/-!
# One budget of passes for a run

All loops of a run draw on one budget: every body of a pass stands behind the limiter
(`Engine.guarding_granted`), and what a record says about passes determines the count of the limiter
(`Runs.metered`). Passes count up from where the limiter was last started over, and one is
granted only below the budget. When nothing starts the limiter over, switches it off or gives it other
budgets, the count at the end is the number of passes that were started, and no pass is started any
more once one was refused for want of budget.
-/

set_option autoImplicit false

namespace Rill

namespace Event

def isStarted : Event → Bool
  | started _ _ => true
  | _ => false

/-- A pass was refused because the budget is spent. -/
def isOverBudget : Event → Bool
  | refused breach => breach.kind.isLoop
  | _ => false

/-- The limiter is not started over, switched off, or given other budgets. -/
def isSteady : Event → Bool
  | changed .reset | changed (.reconfigure _) => false
  | changed (.setEnabled enabled) => enabled
  | _ => true

theorem isSteady_of_not_isChange {event : Event} (kept : event.isChange = false) :
    event.isSteady = true := by
  cases event with
  | started | refused => rfl
  | changed change => cases kept

def passes (events : List Event) : Nat := events.countP isStarted

end Event

/-! ## Counting -/

/-- What a limiter knows about passes: whether it counts them, how many there may be, and how many there
were. -/
structure PassCounter where
  enabled : Bool
  budget : Nat
  passes : Nat

namespace PassCounter

def step (counter : PassCounter) : Event → PassCounter
  | .started _ _ =>
      if counter.enabled then { counter with passes := counter.passes + 1 } else counter
  | .refused _ => counter
  | .changed .reset => { counter with passes := 0 }
  | .changed (.setEnabled enabled) => { counter with enabled }
  | .changed (.reconfigure limits) =>
      { counter with enabled := limits.enabled, budget := limits.maxIterations }
  | .changed (.setCancelled _) => counter

def Allows (counter : PassCounter) : Event → Prop
  | .started _ _ => counter.enabled = true → counter.passes < counter.budget
  | .refused breach => breach.kind.isLoop = true → counter.budget ≤ counter.passes
  | .changed _ => True

def Leads : PassCounter → List Event → PassCounter → Prop
  | counter, [], last => counter = last
  | counter, event :: rest, last => counter.Allows event ∧ (counter.step event).Leads rest last

section Steady

variable {counter : PassCounter} {event : Event}

theorem step_steady (steady : event.isSteady = true) (enabled : counter.enabled = true) :
    (counter.step event).enabled = true ∧ (counter.step event).budget = counter.budget ∧
      (counter.step event).passes = counter.passes + Event.passes [event] := by
  cases event with
  | started => simp [step, enabled, Event.passes, Event.isStarted]
  | refused => exact ⟨enabled, rfl, rfl⟩
  | changed change =>
      cases change with
      | reset | reconfigure => cases steady
      | setEnabled => exact ⟨steady, rfl, rfl⟩
      | setCancelled => exact ⟨enabled, rfl, rfl⟩

theorem Allows.room (allowed : counter.Allows event) (enabled : counter.enabled = true)
    (started : event.isStarted = true) : counter.passes < counter.budget := by
  cases event with
  | started => exact allowed enabled
  | refused | changed => cases started

theorem Allows.spent (allowed : counter.Allows event)
    (overdrawn : event.isOverBudget = true) : counter.budget ≤ counter.passes := by
  cases event with
  | refused => exact allowed overdrawn
  | started | changed => cases overdrawn

end Steady

namespace Leads

variable {counter between last : PassCounter} {events more : List Event}

theorem append (first : counter.Leads events between)
    (second : between.Leads more last) : counter.Leads (events ++ more) last := by
  induction events generalizing counter with
  | nil =>
      obtain rfl := first
      exact second
  | cons event rest ih => exact ⟨first.1, ih first.2⟩

section Steady

variable (leads : counter.Leads events last)
  (steady : ∀ event ∈ events, event.isSteady = true) (enabled : counter.enabled = true)
include leads steady enabled

theorem count : last.passes = counter.passes + Event.passes events := by
  induction events generalizing counter with
  | nil =>
      obtain rfl := leads
      rfl
  | cons event rest ih =>
      simp only [List.mem_cons, forall_eq_or_imp] at steady
      obtain ⟨on, -, counted⟩ := step_steady steady.1 enabled
      rw [ih leads.2 steady.2 on, counted, Nat.add_assoc]
      simp only [Event.passes, ← List.countP_append, List.singleton_append]

theorem within (below : counter.passes ≤ counter.budget) : last.passes ≤ counter.budget := by
  induction events generalizing counter with
  | nil =>
      obtain rfl := leads
      exact below
  | cons event rest ih =>
      simp only [List.mem_cons, forall_eq_or_imp] at steady
      obtain ⟨on, same, counted⟩ := step_steady steady.1 enabled
      have later := ih leads.2 steady.2 on
      rw [same] at later
      refine later ?_
      cases started : event.isStarted with
      | true =>
          have room := leads.1.room enabled started
          simp only [counted, Event.passes, List.countP_singleton, started, if_true]
          exact room
      | false => simpa [counted, Event.passes, started] using below

theorem spent (full : counter.budget ≤ counter.passes) : ∀ event ∈ events, event.isStarted = false := by
  induction events generalizing counter with
  | nil => simp
  | cons event rest ih =>
      simp only [List.mem_cons, forall_eq_or_imp] at steady ⊢
      obtain ⟨on, same, counted⟩ := step_steady steady.1 enabled
      have later : (counter.step event).budget ≤ (counter.step event).passes := by omega
      refine ⟨?_, ih leads.2 steady.2 on later⟩
      cases started : event.isStarted with
      | true => exact absurd (leads.1.room enabled started) (Nat.not_lt.mpr full)
      | false => rfl

theorem refusals : events.Pairwise fun event later =>
    event.isOverBudget = true → later.isStarted = false := by
  induction events generalizing counter with
  | nil => exact .nil
  | cons event rest ih =>
      simp only [List.mem_cons, forall_eq_or_imp] at steady
      obtain ⟨on, same, counted⟩ := step_steady steady.1 enabled
      -- A refusal for want of budget shows that it is spent, and then it stays so.
      refine .cons (fun later member overdrawn => ?_) (ih leads.2 steady.2 on)
      have full := leads.1.spent overdrawn
      exact spent leads.2 steady.2 on (by omega) later member

end Steady

end Leads

end PassCounter

/-! ## Records and the limiter -/

namespace Limiter

def counter (limiter : Limiter) : PassCounter :=
  ⟨limiter.limits.enabled, limiter.limits.maxIterations, limiter.iterations⟩

variable {limiter next : Limiter} {kind : BreachKind} {pos : Position} {breach : Breach}

/-- A pass is refused for want of budget only when there is none left. -/
theorem tick_refused (refused : limiter.tick kind pos = .error breach next)
    (loops : breach.kind.isLoop = true) :
    limiter.limits.maxIterations ≤ limiter.iterations := by
  cases (refuses_of_tick refused).2 with
  | cancelled | late => cases loops
  | pass uninterrupted spent => exact spent

theorem tick_counter (granted : limiter.tick kind pos = .ok () next) :
    next.counter = limiter.counter.step (.started kind pos) ∧
      limiter.counter.Allows (.started kind pos) := by
  obtain ⟨off, rfl⟩ | ⟨on, -, room, rfl⟩ := tick_ok_iff.mp granted
  · simp [counter, PassCounter.step, PassCounter.Allows, off]
  · simp [counter, PassCounter.step, PassCounter.Allows, look, on, room]

theorem Aged.counter (aged : limiter.Aged next) : next.counter = limiter.counter := by
  obtain ⟨taken, rfl⟩ := aged
  rfl

theorem Change.counter (change : Change) (limiter : Limiter) :
    (change.apply limiter).counter = limiter.counter.step (.changed change) := by
  cases change <;> rfl

end Limiter

/-- The limiter of the second state is what events make of that of the first. -/
def Metered (state next : State) (events : List Event) : Prop :=
  state.limiter.counter.Leads events next.limiter.counter

theorem Runs.metered {α : Type} {x : Exec α} {state : State} {events : List Event}
    (runs : Runs x state events) {next : State} (left : (x state).state? = some next) :
    Metered state next events := by
  -- Of all rules, only those for passes and for changes by a host touch what is counted.
  induction runs generalizing next with
  | pure | throw | read | print | keepModule =>
      cases left
      rfl
  | store x state =>
      rw [Exec.store_state?] at left
      cases left
      rfl
  | bind _ ended _ ihFirst ihSecond =>
      rw [Exec.bind_eq, ended] at left
      exact (ihFirst (by rw [ended]; rfl)).append (ihSecond left)
  | stop _ ended ih =>
      rw [Exec.bind_eq, ended] at left
      exact ih (by rw [ended]; exact left)
  | locate pos _ ih => exact ih (by rw [← left, Exec.locate_state?])
  | traced _ ih => exact ih (by rw [← left, Exec.traced_state?])
  | attempt _ ih => exact ih (by rw [← left, Exec.attempt_state?])
  | started asked _ ih =>
      simp only [Exec.granted, Exec.bind_eq, Exec.tick, asked] at left
      have leads := ih left
      obtain ⟨counted, allowed⟩ := Limiter.tick_counter asked
      exact ⟨allowed, counted ▸ leads⟩
  | refused asked =>
      simp only [Exec.granted, Exec.bind_eq, Exec.tick, asked] at left
      cases left
      exact ⟨Limiter.tick_refused asked, (Limiter.aged_of_tick_error asked).counter.symm⟩
  | entered asked _ ih =>
      simp only [Exec.called_eq, asked, Outcome.mapState_state?] at left
      obtain ⟨after, ended, rfl⟩ := Option.map_eq_some_iff.mp left
      obtain ⟨-, rfl⟩ := Limiter.enter_ok_iff.mp asked
      have leads := ih ended
      exact leads
  | barred asked =>
      simp only [Exec.called_eq, asked] at left
      cases left
      exact (Limiter.aged_of_enter_error asked).counter.symm
  | loading _ ih =>
      rw [Exec.loading_eq, Outcome.mapState_state?] at left
      obtain ⟨after, ended, rfl⟩ := Option.map_eq_some_iff.mp left
      have leads := ih ended
      exact leads
  | changed change state =>
      cases left
      exact ⟨trivial, (change.counter state.limiter).symm⟩

/-! ## Whole runs -/

/-- An execution that starts the limiter over and then spends one budget: it has a record, in which
nothing else changes the limiter unless there are functions of the host, and as long as nothing
starts the limiter over again, switches it off or gives it other budgets, the count at the end is the
number of passes that were started, that number is within the budget, and every pass is refused after
one was refused for want of budget. -/
def SpendsOneBudget {α : Type} (x : Exec α) : Prop :=
  ∀ state next : State, state.limiter.limits.enabled = true → (x state).state? = some next →
    (∃ events, Runs x state (.changed .reset :: events) ∧
      (state.heap.Holds (.anyCode False) → ∀ event ∈ events, event.isChange = false)) ∧
    ∀ events, Runs x state (.changed .reset :: events) →
      (∀ event ∈ events, event.isSteady = true) →
        next.limiter.iterations = Event.passes events ∧
          Event.passes events ≤ state.limiter.limits.maxIterations ∧
            events.Pairwise fun event later =>
              event.isOverBudget = true → later.isStarted = false

theorem SpendsOneBudget.of_recorded {α : Type} {x : Exec α}
    (recorded : ∀ hosts, Recorded hosts α x x) :
    SpendsOneBudget (Exec.changeLimiter Limiter.reset >>= fun _ => x) := by
  intro state next enabled left
  refine ⟨?_, fun events runs steady => ?_⟩
  · have started : ∀ hosts, state.heap.Holds (.anyCode hosts) → ∃ events,
        Runs (Exec.changeLimiter Limiter.reset >>= fun _ => x) state (.changed .reset :: events) ∧
          (hosts ∨ ∀ event ∈ events, event.isChange = false) := by
      intro hosts holds
      obtain ⟨-, events, runs, unchanged⟩ :=
        recorded hosts { state with limiter := state.limiter.reset } holds next left
      exact ⟨events, .bind (.changed .reset state) rfl runs, unchanged⟩
    -- One record must do for both parts, so the case without functions of the host comes first.
    by_cases plain : state.heap.Holds (.anyCode False)
    · obtain ⟨events, runs, unchanged⟩ := started False plain
      exact ⟨events, runs, fun _ => unchanged.resolve_left not_false⟩
    · obtain ⟨events, runs, -⟩ := started True (state.heap.holds_anyCode trivial)
      exact ⟨events, runs, fun holds => absurd holds plain⟩
  · obtain ⟨-, leads⟩ := runs.metered left
    have on : (state.limiter.counter.step (.changed .reset)).enabled = true := enabled
    have fresh : (state.limiter.counter.step (.changed .reset)).passes = 0 := rfl
    have counted := leads.count steady on
    have within := leads.within steady on (Nat.zero_le _)
    rw [fresh, Nat.zero_add] at counted
    refine ⟨counted, ?_, leads.refusals steady on⟩
    rw [← counted]
    exact within

/-- No loop runs a body without asking the limiter. A run of a program spends one budget, whatever
loops, functions, callbacks and modules it goes through, and so does a run that goes on to call
`main`. -/
theorem one_budget (loader : Option Loader) (depth : Nat) (program : Program) :
    Engine.guarding Exec.granted loader depth = Engine.ofDepth loader depth ∧
      SpendsOneBudget ((Engine.ofDepth loader depth).runProgram program) ∧
        SpendsOneBudget ((Engine.ofDepth loader depth).runWhole program) := by
  let engine := Engine.ofDepth loader depth
  let run : Exec Value := do
    Store.setDir globals program.baseDir
    engine.execProgram globals program.body .nil
  have body : ∀ hosts, Recorded hosts Value run run := by
    intro hosts
    have related := Recorded.ofDepth hosts loader depth
    refine Recorded.catching.bind (Recorded.catching.store (.setDir _ _ trivial)) fun _ => ?_
    exact Recorded.catching.execProgram trivial program.body .nil
      fun part _ env _ => related.jobs (.exec part env)
  have whole : engine.runWhole program
      = (Exec.changeLimiter Limiter.reset >>= fun _ => do
          let value ← run
          let result ← engine.runMain
          return (value, result)) := Exec.bind_assoc _ _ _
  refine ⟨Engine.guarding_granted loader depth, .of_recorded body, ?_⟩
  show SpendsOneBudget (engine.runWhole program)
  rw [whole]
  refine .of_recorded fun hosts => ?_
  have main := Recorded.catching.runMain fun callee args pos =>
    (Recorded.ofDepth hosts loader depth).jobs (.call callee args pos)
  exact Recorded.catching.bind (body hosts) fun value =>
    Recorded.catching.bind main fun result => Recorded.catching.pure (value, result)

/-- A loop that is stopped by the limiter, and another one that is tried afterwards:
`try { while true {} } catch e {}` and `while true {}`. -/
def Program.stubborn : Program :=
  let endless : Stmt := .while_ .unknown (.literal .unknown (.bool true)) ⟨[], .unknown⟩
  ⟨[.try_ .unknown ⟨[endless], .unknown⟩ (some ⟨"e", ⟨[], .unknown⟩⟩) none, endless], "."⟩

/-- The second loop finds the budget spent. -/
theorem one_budget_stubborn : ∃ next events,
    ((Engine.ofDepth none 4).runProgram .stubborn (Setup.plain ⟨1, 1, 1, true⟩).start).state?
      = some next ∧
    Runs ((Engine.ofDepth none 4).runProgram .stubborn) (Setup.plain ⟨1, 1, 1, true⟩).start
      (.changed .reset :: events) ∧
    Event.passes events = 1 ∧
    events.Pairwise fun event later => event.isOverBudget = true → later.isStarted = false := by
  have prelude : ∀ native ∈ (Setup.plain ⟨1, 1, 1, true⟩).natives, native.isHost = false := by
    decide
  have natives : (Setup.plain ⟨1, 1, 1, true⟩).heap.Holds (.anyCode False) :=
    Setup.heap_holds _ trivial fun native member host => by
      simp [prelude native member] at host
  have ended : ((Engine.ofDepth none 4).runProgram .stubborn
      (Setup.plain ⟨1, 1, 1, true⟩).start).state?.map (·.limiter.iterations) = some 1 := by
    decide +kernel
  obtain ⟨next, left, one⟩ := Option.map_eq_some_iff.mp ended
  obtain ⟨⟨events, runs, unchanged⟩, counts⟩ :=
    (one_budget none 4 .stubborn).2.1 (Setup.plain ⟨1, 1, 1, true⟩).start next rfl left
  obtain ⟨counted, -, refusals⟩ := counts events runs fun event member =>
    Event.isSteady_of_not_isChange (unchanged natives event member)
  exact ⟨next, events, left, runs, counted ▸ one, refusals⟩

end Rill

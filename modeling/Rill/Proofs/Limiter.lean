import Rill.Limiter

/-!
# What the limiter grants

The limiter grants a pass or a call exactly when it is switched off or neither an interrupt nor the
budget stands against it. Everything else about it is derived from these two equivalences. A refusal
leaves all as it was, but for the clock.
-/

set_option autoImplicit false

namespace Rill

namespace Limiter

variable {limiter next after : Limiter} {kind : BreachKind} {name : String} {pos : Position}
  {breach : Breach}

/-- Nothing has happened to a limiter since, but its clock may have been read. -/
def Aged (limiter next : Limiter) : Prop :=
  ∃ taken, next = { limiter with clock := { limiter.clock with taken } }

namespace Aged

theorem refl (limiter : Limiter) : limiter.Aged limiter := ⟨limiter.clock.taken, rfl⟩

theorem look (limiter : Limiter) : limiter.Aged limiter.look := ⟨limiter.clock.taken + 1, rfl⟩

theorem trans (first : limiter.Aged next) (second : next.Aged after) : limiter.Aged after := by
  obtain ⟨taken, rfl⟩ := first
  obtain ⟨more, rfl⟩ := second
  exact ⟨more, rfl⟩

theorem calls (aged : limiter.Aged next) : next.calls = limiter.calls := by
  obtain ⟨taken, rfl⟩ := aged
  rfl

end Aged

def Uninterrupted (limiter : Limiter) : Prop :=
  limiter.cancelled = false ∧ limiter.elapsed ≤ limiter.limits.budget

/-! ## Grants -/

theorem checkInterrupts_ok_iff : limiter.checkInterrupts pos = .ok () next ↔
    limiter.Uninterrupted ∧ next = limiter.look := by
  unfold checkInterrupts Uninterrupted
  cases limiter.cancelled with
  | true => simp [refuse]
  | false =>
      by_cases late : limiter.limits.budget < limiter.elapsed
      · simp [late, Nat.not_le.mpr late, refuse]
      · simp [late, Nat.not_lt.mp late, eq_comm]

theorem not_uninterrupted (stopped : limiter.checkInterrupts pos = .error breach next) :
    ¬ limiter.Uninterrupted := by
  intro free
  rw [checkInterrupts_ok_iff.mpr ⟨free, rfl⟩] at stopped
  cases stopped

theorem tick_ok_iff : limiter.tick kind pos = .ok () next ↔
    (limiter.limits.enabled = false ∧ next = limiter) ∨
      (limiter.limits.enabled = true ∧ limiter.Uninterrupted ∧
        limiter.iterations < limiter.limits.maxIterations ∧
          next = { limiter.look with iterations := limiter.iterations + 1 }) := by
  cases enabled : limiter.limits.enabled with
  | false => simp [tick, enabled, eq_comm]
  | true =>
      cases interrupts : limiter.checkInterrupts pos with
      | error breach after =>
          have stopped := not_uninterrupted interrupts
          simp [tick, enabled, interrupts, stopped]
      | ok granted after =>
          obtain ⟨free, rfl⟩ := checkInterrupts_ok_iff.mp interrupts
          by_cases room : limiter.limits.maxIterations ≤ limiter.iterations
          · simp [tick, enabled, interrupts, look, refuse, room, Nat.not_lt.mpr room]
          · simp [tick, enabled, interrupts, free, look, room, Nat.not_le.mp room, eq_comm]

/-- The clock after a request was granted. Only a limiter that is switched on looks at it. -/
def clockAfter (limiter : Limiter) : Clock :=
  if limiter.limits.enabled then limiter.clock.next else limiter.clock

theorem clockAfter_aged (limiter : Limiter) : limiter.Aged { limiter with clock := limiter.clockAfter } := by
  unfold clockAfter
  split
  · exact .look limiter
  · exact .refl limiter

theorem enter_ok_iff : limiter.enter name pos = .ok () next ↔
    (limiter.limits.enabled = true →
      limiter.Uninterrupted ∧ limiter.depth < limiter.limits.maxDepth) ∧
        next = { limiter with calls := name :: limiter.calls, clock := limiter.clockAfter } := by
  cases enabled : limiter.limits.enabled with
  | false => simp [enter, enabled, push, clockAfter, eq_comm]
  | true =>
      cases interrupts : limiter.checkInterrupts pos with
      | error breach after =>
          have stopped := not_uninterrupted interrupts
          simp [enter, enabled, interrupts, stopped]
      | ok granted after =>
          obtain ⟨free, rfl⟩ := checkInterrupts_ok_iff.mp interrupts
          by_cases room : limiter.limits.maxDepth ≤ limiter.depth
          · have full : limiter.look.limits.maxDepth ≤ limiter.look.depth := room
            simp [enter, enabled, interrupts, refuse, full, Nat.not_lt.mpr room]
          · have space : ¬ limiter.look.limits.maxDepth ≤ limiter.look.depth := room
            simp only [enter, enabled, interrupts, if_true, if_neg space]
            simp [free, Nat.not_le.mp room, push, look, clockAfter, enabled, eq_comm]

theorem tick_calls (granted : limiter.tick kind pos = .ok () next) : next.calls = limiter.calls := by
  obtain ⟨-, rfl⟩ | ⟨-, -, -, rfl⟩ := tick_ok_iff.mp granted
  · rfl
  · rfl

theorem enter_calls (granted : limiter.enter name pos = .ok () next) :
    next.calls = name :: limiter.calls := by
  obtain ⟨-, rfl⟩ := enter_ok_iff.mp granted
  rfl

/-! ## Refusals -/

/-- Something that is done with a limiter. -/
inductive Step where
  | tick (kind : BreachKind) (pos : Position)
  | enter (name : String) (pos : Position)
  | leave
  | change (change : Change)

namespace Step

/-- What a limiter answers to a step. Only the checks can be refused. -/
def ask (limiter : Limiter) : Step → Answer
  | tick kind pos => limiter.tick kind pos
  | enter name pos => limiter.enter name pos
  | leave => .ok () limiter.leave
  | change request => .ok () (request.apply limiter)

def checkedAt? : Step → Option Position
  | tick _ pos | enter _ pos => some pos
  | _ => none

end Step

/-- A limiter that is switched on refuses a check: because the run was cancelled; or else because its
time is up; or else because the budget that is asked for is spent. It has looked at the clock for the
refusal, and before, unless the run was cancelled, to see whether there is time. -/
inductive Refuses (limiter : Limiter) : Step → Breach → Limiter → Prop
  | cancelled {step : Step} {pos : Position} (check : step.checkedAt? = some pos)
      (stopped : limiter.cancelled = true) :
      Refuses limiter step ⟨.cancelled, limiter.iterations, limiter.elapsed, place pos, 0, none⟩
        limiter.look
  | late {step : Step} {pos : Position} (check : step.checkedAt? = some pos)
      (running : limiter.cancelled = false) (late : limiter.limits.budget < limiter.elapsed) :
      Refuses limiter step
        ⟨.timeout, limiter.iterations, limiter.look.elapsed, place pos,
          min limiter.limits.milliseconds (Nat.pow 2 64 - 1), none⟩ limiter.look.look
  | pass {kind : BreachKind} {pos : Position} (uninterrupted : limiter.Uninterrupted)
      (spent : limiter.limits.maxIterations ≤ limiter.iterations) :
      Refuses limiter (.tick kind pos)
        ⟨kind, limiter.iterations, limiter.look.elapsed, place pos, limiter.limits.maxIterations, none⟩
        limiter.look.look
  | call {name : String} {pos : Position} (uninterrupted : limiter.Uninterrupted)
      (spent : limiter.limits.maxDepth ≤ limiter.depth) :
      Refuses limiter (.enter name pos)
        ⟨.recursion, limiter.iterations, limiter.look.elapsed, place pos, limiter.limits.maxDepth,
          some name⟩ limiter.look.look

/-- A refusal changes nothing but that the clock has been read. -/
theorem Refuses.aged {step : Step} (refuses : limiter.Refuses step breach next) :
    limiter.Aged next := by
  have once := Aged.look limiter
  cases refuses with
  | cancelled => exact once
  | late | pass | call => exact once.trans (.look _)

theorem checkInterrupts_error_iff : limiter.checkInterrupts pos = .error breach next ↔
    (limiter.cancelled = true ∧ limiter.refuse .cancelled 0 pos none = .error breach next) ∨
      (limiter.cancelled = false ∧ limiter.limits.budget < limiter.elapsed ∧
        limiter.look.refuse .timeout (min limiter.limits.milliseconds (Nat.pow 2 64 - 1)) pos none
          = .error breach next) := by
  unfold checkInterrupts
  cases limiter.cancelled with
  | true => simp
  | false =>
      by_cases late : limiter.limits.budget < limiter.elapsed
      · simp [late]
      · simp [late]

section Checks

variable {step : Step}

theorem Refuses.of_interrupted (check : step.checkedAt? = some pos)
    (stopped : limiter.checkInterrupts pos = .error breach next) :
    limiter.Refuses step breach next := by
  rcases checkInterrupts_error_iff.mp stopped with ⟨cancelled, refused⟩ | ⟨running, late, refused⟩
  · cases refused
    exact .cancelled check cancelled
  · cases refused
    exact .late check running late

theorem ask_of_interrupted (enabled : limiter.limits.enabled = true)
    (check : step.checkedAt? = some pos) (stopped : limiter.checkInterrupts pos = .error breach next) :
    step.ask limiter = .error breach next := by
  cases step with
  | tick =>
      cases check
      simp only [Step.ask, tick, enabled, stopped, if_true]
  | enter =>
      cases check
      simp only [Step.ask, enter, enabled, stopped, if_true]
  | _ => cases check

theorem refuses_of_tick (refused : limiter.tick kind pos = .error breach next) :
    limiter.limits.enabled = true ∧ limiter.Refuses (.tick kind pos) breach next := by
  unfold tick at refused
  split at refused
  · next enabled =>
    refine ⟨enabled, ?_⟩
    cases interrupts : limiter.checkInterrupts pos with
    | error stopped after =>
        rw [interrupts] at refused
        cases refused
        exact .of_interrupted rfl interrupts
    | ok granted after =>
        obtain ⟨free, rfl⟩ := checkInterrupts_ok_iff.mp interrupts
        simp only [interrupts] at refused
        split at refused
        · next spent =>
          cases refused
          exact .pass free spent
        · cases refused
  · cases refused

theorem refuses_of_enter (refused : limiter.enter name pos = .error breach next) :
    limiter.limits.enabled = true ∧ limiter.Refuses (.enter name pos) breach next := by
  unfold enter at refused
  split at refused
  · next enabled =>
    refine ⟨enabled, ?_⟩
    cases interrupts : limiter.checkInterrupts pos with
    | error stopped after =>
        rw [interrupts] at refused
        cases refused
        exact .of_interrupted rfl interrupts
    | ok granted after =>
        obtain ⟨free, rfl⟩ := checkInterrupts_ok_iff.mp interrupts
        simp only [interrupts] at refused
        split at refused
        · next spent =>
          cases refused
          exact .call free spent
        · cases refused
  · cases refused

theorem refused_iff : step.ask limiter = .error breach next ↔
    limiter.limits.enabled = true ∧ limiter.Refuses step breach next := by
  constructor
  · intro refused
    cases step with
    | tick => exact refuses_of_tick refused
    | enter => exact refuses_of_enter refused
    | _ => cases refused
  · rintro ⟨enabled, refuses⟩
    cases refuses with
    | cancelled check stopped =>
        exact ask_of_interrupted enabled check (checkInterrupts_error_iff.mpr (.inl ⟨stopped, rfl⟩))
    | late check running late =>
        exact ask_of_interrupted enabled check
          (checkInterrupts_error_iff.mpr (.inr ⟨running, late, rfl⟩))
    | @pass kind pos uninterrupted spent =>
        have free := (@checkInterrupts_ok_iff limiter _ pos).mpr ⟨uninterrupted, rfl⟩
        have full : limiter.look.limits.maxIterations ≤ limiter.look.iterations := spent
        simp only [Step.ask, tick, enabled, free, if_true, if_pos full]
        rfl
    | @call name pos uninterrupted spent =>
        have free := (@checkInterrupts_ok_iff limiter _ pos).mpr ⟨uninterrupted, rfl⟩
        have full : limiter.look.limits.maxDepth ≤ limiter.look.depth := spent
        simp only [Step.ask, enter, enabled, free, if_true, if_pos full]
        rfl

theorem aged_of_refused (refused : step.ask limiter = .error breach next) : limiter.Aged next :=
  (refused_iff.mp refused).2.aged

end Checks

theorem aged_of_tick_error (refused : limiter.tick kind pos = .error breach next) :
    limiter.Aged next := (refuses_of_tick refused).2.aged

theorem aged_of_enter_error (refused : limiter.enter name pos = .error breach next) :
    limiter.Aged next := (refuses_of_enter refused).2.aged

/-- No call is granted: the run was cancelled, or as many calls are active as may be. -/
def Shut (limiter : Limiter) : Prop :=
  limiter.limits.enabled = true ∧
    (limiter.cancelled = true ∨ limiter.limits.maxDepth ≤ limiter.depth)

theorem Shut.enter (shut : limiter.Shut) (name : String) (pos : Position) :
    ∃ breach next, limiter.enter name pos = .error breach next ∧ limiter.Aged next := by
  cases asked : limiter.enter name pos with
  | error breach next => exact ⟨breach, next, rfl, aged_of_enter_error asked⟩
  | ok granted next =>
      obtain ⟨allowed, -⟩ := enter_ok_iff.mp asked
      obtain ⟨⟨running, -⟩, room⟩ := allowed shut.1
      rcases shut.2 with cancelled | full
      · rw [running] at cancelled
        cases cancelled
      · omega

end Limiter

end Rill

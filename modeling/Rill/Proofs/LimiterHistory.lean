import Mathlib.Data.List.Infix
import Rill.Proofs.Limiter
import Rill.State

/-!
# What a limiter owes to its history

A limiter is asked for passes and calls, and hosts change it in between in any order: its budgets are
raised and lowered, it is switched off and on, started over, and the run is cancelled or goes on. What
it knows at the end is a matter of the steps that were taken (`after_sound`). Since it was last started
over, its count is the number of passes granted while it was switched on, its stack holds the calls that
were granted and that no later step has left, and its time is what has gone by on the clock. A call has
been left when from it on, at some moment, more calls have been left than entered. Its budgets are those
it was last given, and whether the run is cancelled is what the latest step about that has said.
-/

set_option autoImplicit false

namespace Rill

namespace Limiter

namespace Step

def isReset : Step → Bool
  | change .reset => true
  | _ => false

def cancels? : Step → Option Bool
  | change (.setCancelled cancelled) => some cancelled
  | _ => none

def configure (limits : Limits) : Step → Limits
  | change (.setEnabled enabled) => { limits with enabled }
  | change (.reconfigure limits) => limits
  | _ => limits

end Step

@[simp] def Answer.isGrant : Answer → Bool
  | .ok _ _ => true
  | .error _ _ => false

@[simp] def Answer.limiter : Answer → Limiter
  | .ok _ next | .error _ next => next

def next (limiter : Limiter) (step : Step) : Limiter := (step.ask limiter).limiter

def after (start : Limiter) : List Step → Limiter
  | [] => start
  | step :: earlier => (start.after earlier).next step

/-! ## The log -/

/-- A step that was taken, the budgets that were in force then, what the clock showed, and whether the
step was granted. -/
structure Entry where
  step : Step
  limits : Limits
  time : Nat
  granted : Bool

def entry (limiter : Limiter) (step : Step) : Entry :=
  ⟨step, limiter.limits, limiter.clock.now, (step.ask limiter).isGrant⟩

/-- The entries of some steps. The latest comes first, as it does among the steps. -/
def log (start : Limiter) : List Step → List Entry
  | [] => []
  | step :: earlier => (start.after earlier).entry step :: start.log earlier

/-- The entries since the limiter was last started over. -/
def recent (start : Limiter) (steps : List Step) : List Entry :=
  (start.log steps).takeWhile (!·.step.isReset)

namespace Entry

/-- A pass that was granted by a limiter that was switched on. -/
def isPass (entry : Entry) : Bool :=
  match entry.step with
  | .tick _ _ => entry.granted && entry.limits.enabled
  | _ => false

def call? (entry : Entry) : Option String :=
  match entry.step with
  | .enter name _ => if entry.granted then some name else none
  | _ => none

def isLeave (entry : Entry) : Bool :=
  match entry.step with
  | .leave => true
  | _ => false

/-- A call with `later` after it has not been left: at no moment since have more calls been left than
entered. -/
def Standing (later : List Entry) : Prop :=
  ∀ since, since <:+ later → since.countP isLeave ≤ since.countP (·.call?.isSome)

instance (later : List Entry) : Decidable (Standing later) :=
  decidable_of_iff (∀ since ∈ later.tails, since.countP isLeave ≤ since.countP (·.call?.isSome))
    (forall_congr' fun _ => by rw [List.mem_tails])

/-- The names of the calls in a log that have not been left, when `later` came after it. -/
def pending (later : List Entry) : List Entry → List String
  | [] => []
  | entry :: earlier =>
      (if Standing later then entry.call?.toList else []) ++ pending (later ++ [entry]) earlier

def largest (inForce : List Limits) : Nat := inForce.foldr (fun limits most => max limits.maxIterations most) 0

end Entry

/-- What holds of a limiter that has come about by some steps. -/
structure Sound (start : Limiter) (steps : List Step) (limiter : Limiter) : Prop where
  counted : limiter.iterations = (start.recent steps).countP Entry.isPass
  within : limiter.iterations
    ≤ Entry.largest (limiter.limits :: (start.recent steps).map Entry.limits)
  /-- Budgets that fit into 64 bits keep the count there. -/
  fits : (∀ limits ∈ limiter.limits :: (start.recent steps).map Entry.limits,
    limits.maxIterations < Nat.pow 2 64) → limiter.iterations < Nat.pow 2 64
  stack : limiter.calls = Entry.pending [] (start.recent steps)
  /-- The latest step that cancels the run or takes that back decides. -/
  stopped : limiter.cancelled = (steps.findSome? Step.cancels?).getD start.cancelled
  configured : limiter.limits = steps.foldr (fun step limits => step.configure limits) start.limits
  /-- Time counts from the latest step that started over. -/
  started : limiter.started
    = (((start.log steps).find? (·.step.isReset)).map Entry.time).getD start.started
  clock : limiter.clock.reading = start.clock.reading
  refused : ∀ (step : Step) (breach : Breach) (next : Limiter),
    step.ask limiter = .error breach next ↔
      limiter.limits.enabled = true ∧ limiter.Refuses step breach next
  bounded : ∀ (step : Step) (next : Limiter), step.ask limiter = .ok () next →
    limiter.limits.enabled = true → limiter.depth < next.depth → next.depth ≤ limiter.limits.maxDepth
  unchanged : ∀ (step : Step) (breach : Breach) (next : Limiter),
    step.ask limiter = .error breach next → limiter.next step = next ∧ limiter.Aged next
  /-- A run that is refused something goes on in the state it was in, but for the clock. -/
  kept : ∀ state : State, state.limiter = limiter →
    (∀ kind pos breach next, limiter.tick kind pos = .error breach next →
      Exec.tick kind pos state = .fault (.ofBreach breach limiter.calls) { state with limiter := next }) ∧
    ∀ (α : Type) (x : Exec α) name pos breach next, limiter.enter name pos = .error breach next →
      Exec.called name pos x state
        = .fault (.ofBreach breach limiter.calls) { state with limiter := next }

/-! ## Checks -/

section Checks

variable {limiter after : Limiter} {step : Step}

theorem depth_of_granted (granted : step.ask limiter = .ok () after)
    (enabled : limiter.limits.enabled = true) (grown : limiter.depth < after.depth) :
    after.depth ≤ limiter.limits.maxDepth := by
  cases step with
  | tick kind pos =>
      rw [depth, depth, tick_calls granted] at grown
      exact absurd grown (Nat.lt_irrefl _)
  | enter name pos =>
      obtain ⟨allowed, rfl⟩ := enter_ok_iff.mp granted
      exact (allowed enabled).2
  | leave =>
      cases granted
      have shorter : limiter.leave.depth ≤ limiter.depth := (List.tail_sublist limiter.calls).length_le
      omega
  | change change =>
      cases granted
      cases change with
      | reset => exact Nat.zero_le _
      | setEnabled | reconfigure | setCancelled => exact absurd grown (Nat.lt_irrefl _)

end Checks

/-! ## Passes -/

namespace Entry

theorem largest_le {inForce : List Limits} {bound : Nat} :
    largest inForce ≤ bound ↔ ∀ limits ∈ inForce, limits.maxIterations ≤ bound := by
  induction inForce with
  | nil => simp [largest]
  | cons limits inForce ih =>
      rw [List.forall_mem_cons, ← ih]
      exact Nat.max_le

end Entry

section Recent

variable {start : Limiter} {step : Step}

theorem recent_of_reset (resets : step.isReset = true) (earlier : List Step) :
    start.recent (step :: earlier) = [] := by
  rw [recent, log, List.takeWhile_cons_of_neg]
  simp [entry, resets]

theorem recent_cons (going : step.isReset = false) (earlier : List Step) :
    start.recent (step :: earlier) = (start.after earlier).entry step :: start.recent earlier := by
  rw [recent, log, List.takeWhile_cons_of_pos, recent]
  simp [entry, going]

theorem next_of_reset (resets : step.isReset = true) (limiter : Limiter) :
    limiter.next step = limiter.reset := by
  cases step with
  | change change =>
      cases change <;> cases resets
      rfl
  | tick | enter | leave => cases resets

end Recent

theorem iterations_next (limiter : Limiter) {step : Step} (going : step.isReset = false) :
    (limiter.next step).iterations
        = limiter.iterations + (if (limiter.entry step).isPass then 1 else 0) ∧
      ((limiter.entry step).isPass = true → limiter.iterations < limiter.limits.maxIterations) := by
  cases step with
  | tick kind pos =>
      cases asked : limiter.tick kind pos with
      | error breach after =>
          obtain ⟨taken, rfl⟩ := aged_of_tick_error asked
          simp [next, entry, Entry.isPass, Step.ask, asked]
      | ok granted after =>
          obtain ⟨off, rfl⟩ | ⟨on, -, room, rfl⟩ := tick_ok_iff.mp asked
          · simp [next, entry, Entry.isPass, Step.ask, asked, off]
          · simp [next, entry, Entry.isPass, Step.ask, asked, on, room]
  | enter name pos =>
      refine ⟨?_, fun pass => by cases pass⟩
      cases asked : limiter.enter name pos with
      | error breach after =>
          obtain ⟨taken, rfl⟩ := aged_of_enter_error asked
          simp [next, entry, Entry.isPass, Step.ask, asked]
      | ok granted after =>
          obtain ⟨-, rfl⟩ := enter_ok_iff.mp asked
          simp [next, entry, Entry.isPass, Step.ask, asked]
  | leave => exact ⟨rfl, fun pass => by cases pass⟩
  | change change =>
      cases change with
      | reset => cases going
      | setEnabled | reconfigure | setCancelled => exact ⟨rfl, fun pass => by cases pass⟩

section After

variable (limits : Limits) (cancelled : Bool) (clock : Clock) (steps : List Step)

theorem iterations_after : ((new limits cancelled clock).after steps).iterations
    = ((new limits cancelled clock).recent steps).countP Entry.isPass := by
  induction steps with
  | nil => rfl
  | cons step earlier ih =>
      rw [after]
      cases going : step.isReset with
      | true =>
          rw [recent_of_reset going, next_of_reset going]
          rfl
      | false => rw [recent_cons going, (iterations_next _ going).1, ih, List.countP_cons]

/-- The count stays within the budgets that were in force since the limiter was started over. -/
theorem iterations_within : ((new limits cancelled clock).after steps).iterations
    ≤ Entry.largest (((new limits cancelled clock).after steps).limits
        :: ((new limits cancelled clock).recent steps).map Entry.limits) := by
  induction steps with
  | nil => exact Nat.zero_le _
  | cons step earlier ih =>
      rw [after]
      cases going : step.isReset with
      | true =>
          rw [recent_of_reset going, next_of_reset going]
          exact Nat.zero_le _
      | false =>
          rw [recent_cons going]
          generalize (new limits cancelled clock).after earlier = limiter at ih ⊢
          obtain ⟨counts, room⟩ := iterations_next limiter going
          -- The budgets before the step are those of its entry.
          refine Nat.le_trans ?_ (Nat.le_max_right _ _)
          rw [counts]
          split
          · next pass => exact Nat.le_trans (room pass) (Nat.le_max_left _ _)
          · exact ih

end After

/-! ## Calls -/

namespace Entry

def onStack (entry : Entry) (calls : List String) : List String :=
  match entry.call? with
  | some name => name :: calls
  | none => if entry.isLeave then calls.tail else calls

def stack (log : List Entry) : List String := log.foldr onStack []

/-- Going back in time, the number of calls that are still to be found for the leaves that were met. -/
def owing (owed : Nat) (entry : Entry) : Nat :=
  match entry.call? with
  | some _ => owed - 1
  | none => if entry.isLeave then owed + 1 else owed

def owed (later : List Entry) : Nat := later.foldl owing 0

theorem owed_concat (later : List Entry) (entry : Entry) :
    owed (later ++ [entry]) = owing (owed later) entry := List.foldl_concat ..

theorem isLeave_of_call {entry : Entry} {name : String} (called : entry.call? = some name) :
    entry.isLeave = false := by
  obtain ⟨step, limits, granted⟩ := entry
  cases step with
  | leave => cases called
  | _ => rfl

/-- So many calls are owed at most when at no moment the leaves were more by more than that. -/
theorem owed_le_iff (later : List Entry) (bound : Nat) : owed later ≤ bound ↔
    ∀ since, since <:+ later →
      since.countP isLeave ≤ since.countP (·.call?.isSome) + bound := by
  induction later using List.reverseRecOn generalizing bound with
  | nil => simp [owed]
  | append_singleton later entry ih =>
      have split : (∀ since, since <:+ later ++ [entry] →
            since.countP isLeave ≤ since.countP (·.call?.isSome) + bound) ↔
          ∀ since, since <:+ later → since.countP isLeave + [entry].countP isLeave
            ≤ since.countP (·.call?.isSome) + [entry].countP (·.call?.isSome) + bound := by
        constructor
        · intro all since inside
          have here := all (since ++ [entry]) (List.suffix_concat_iff.mpr (.inr ⟨since, rfl, inside⟩))
          rwa [List.countP_append, List.countP_append] at here
        · intro all since inside
          rcases List.suffix_concat_iff.mp inside with rfl | ⟨front, rfl, shorter⟩
          · exact Nat.zero_le _
          · rw [List.countP_append, List.countP_append]
            exact all front shorter
      rw [owed_concat, split, owing]
      cases called : entry.call? with
      | some name =>
          have left : [entry].countP isLeave = 0 := by simp [isLeave_of_call called]
          have entered : [entry].countP (·.call?.isSome) = 1 := by simp [called]
          rw [left, entered]
          show owed later - 1 ≤ bound ↔ _
          constructor
          · intro few since inside
            have here := (ih (bound + 1)).mp (by omega) since inside
            omega
          · intro all
            have few := (ih (bound + 1)).mpr fun since inside => by
              have here := all since inside
              omega
            omega
      | none =>
          have entered : [entry].countP (·.call?.isSome) = 0 := by simp [called]
          rw [entered]
          cases leaves : entry.isLeave with
          | true =>
              have left : [entry].countP isLeave = 1 := by simp [leaves]
              rw [left]
              show owed later + 1 ≤ bound ↔ _
              constructor
              · intro few since inside
                have here := (ih (bound - 1)).mp (by omega) since inside
                omega
              · intro all
                have room : 1 ≤ bound := by simpa using all [] (List.nil_suffix)
                have few := (ih (bound - 1)).mpr fun since inside => by
                  have here := all since inside
                  omega
                omega
          | false =>
              have left : [entry].countP isLeave = 0 := by simp [leaves]
              rw [left]
              exact ih bound

theorem standing_iff (later : List Entry) : Standing later ↔ owed later = 0 := by
  rw [← Nat.le_zero, owed_le_iff]
  rfl

theorem drop_stack (later earlier : List Entry) :
    (stack earlier).drop (owed later) = pending later earlier := by
  induction earlier generalizing later with
  | nil => rw [pending, stack, List.foldr_nil, List.drop_nil]
  | cons entry earlier ih =>
      rw [pending, ← ih, owed_concat]
      show (onStack entry (stack earlier)).drop (owed later) = _
      unfold onStack owing
      cases called : entry.call? with
      | some name =>
          by_cases standing : Standing later
          · rw [if_pos standing, (standing_iff later).mp standing]
            rfl
          · obtain ⟨rest, more⟩ :=
              Nat.exists_eq_succ_of_ne_zero (mt (standing_iff later).mpr standing)
            rw [if_neg standing, more]
            rfl
      | none =>
          cases entry.isLeave with
          | true => simp
          | false => simp

theorem stack_eq_pending (log : List Entry) : stack log = pending [] log := drop_stack [] log

end Entry

theorem calls_next (limiter : Limiter) {step : Step} (going : step.isReset = false) :
    (limiter.next step).calls = (limiter.entry step).onStack limiter.calls := by
  cases step with
  | tick kind pos =>
      cases asked : limiter.tick kind pos with
      | error breach after =>
          have same := (aged_of_tick_error asked).calls
          simp [next, entry, Entry.onStack, Entry.call?, Entry.isLeave, Step.ask, asked, same]
      | ok granted after =>
          have same := tick_calls asked
          simp [next, entry, Entry.onStack, Entry.call?, Entry.isLeave, Step.ask, asked, same]
  | enter name pos =>
      cases asked : limiter.enter name pos with
      | error breach after =>
          have same := (aged_of_enter_error asked).calls
          simp [next, entry, Entry.onStack, Entry.call?, Entry.isLeave, Step.ask, asked, same]
      | ok granted after =>
          have pushed := enter_calls asked
          simp [next, entry, Entry.onStack, Entry.call?, Step.ask, asked, pushed]
  | leave => rfl
  | change change =>
      cases change with
      | reset => cases going
      | setEnabled | reconfigure | setCancelled => rfl

theorem calls_after (limits : Limits) (cancelled : Bool) (clock : Clock) (steps : List Step) :
    ((new limits cancelled clock).after steps).calls
      = Entry.pending [] ((new limits cancelled clock).recent steps) := by
  rw [← Entry.stack_eq_pending]
  induction steps with
  | nil => rfl
  | cons step earlier ih =>
      rw [after]
      cases going : step.isReset with
      | true =>
          rw [recent_of_reset going, next_of_reset going]
          rfl
      | false =>
          rw [recent_cons going, calls_next _ going, ih]
          rfl

/-! ## What was set, and the clock -/

section Settings

variable {limiter after : Limiter}

theorem check_settings {step : Step} (check : step.checkedAt?.isSome = true) :
    (limiter.next step).limits = limiter.limits ∧
      (limiter.next step).cancelled = limiter.cancelled ∧
        (limiter.next step).started = limiter.started ∧
          (limiter.next step).clock.reading = limiter.clock.reading := by
  cases answer : step.ask limiter with
  | error breach after =>
      obtain ⟨taken, rfl⟩ := aged_of_refused answer
      simp [next, answer]
  | ok granted after =>
      cases step with
      | tick kind pos =>
          obtain ⟨-, rfl⟩ | ⟨-, -, -, rfl⟩ := tick_ok_iff.mp answer
          · simp [next, answer]
          · simp [next, answer, look, Clock.next]
      | enter name pos =>
          obtain ⟨-, rfl⟩ := enter_ok_iff.mp answer
          obtain ⟨taken, aged⟩ := limiter.clockAfter_aged
          have same : limiter.clockAfter.reading = limiter.clock.reading :=
            congrArg (·.clock.reading) aged
          simp [next, answer, same]
      | _ => cases check

theorem limits_next (limiter : Limiter) (step : Step) :
    (limiter.next step).limits = step.configure limiter.limits := by
  cases step with
  | tick | enter => exact (check_settings rfl).1
  | leave => rfl
  | change change => cases change <;> rfl

theorem cancelled_next (limiter : Limiter) (step : Step) :
    (limiter.next step).cancelled = step.cancels?.getD limiter.cancelled := by
  cases step with
  | tick | enter => exact (check_settings rfl).2.1
  | leave => rfl
  | change change => cases change <;> rfl

theorem started_next (limiter : Limiter) (step : Step) :
    (limiter.next step).started
      = if step.isReset then limiter.clock.now else limiter.started := by
  cases step with
  | tick | enter => exact (check_settings rfl).2.2.1
  | leave => rfl
  | change change => cases change <;> rfl

theorem reading_next (limiter : Limiter) (step : Step) :
    (limiter.next step).clock.reading = limiter.clock.reading := by
  cases step with
  | tick | enter => exact (check_settings rfl).2.2.2
  | leave => rfl
  | change change => cases change <;> rfl

variable (start : Limiter) (steps : List Step)

theorem limits_after : (start.after steps).limits
    = steps.foldr (fun step limits => step.configure limits) start.limits := by
  induction steps with
  | nil => rfl
  | cons step earlier ih => rw [after, limits_next, ih, List.foldr_cons]

theorem cancelled_after : (start.after steps).cancelled
    = (steps.findSome? Step.cancels?).getD start.cancelled := by
  induction steps with
  | nil => rfl
  | cons step earlier ih =>
      rw [after, cancelled_next, ih, List.findSome?_cons]
      cases step.cancels? <;> rfl

theorem started_after : (start.after steps).started
    = (((start.log steps).find? (·.step.isReset)).map Entry.time).getD start.started := by
  induction steps with
  | nil => rfl
  | cons step earlier ih =>
      rw [after, started_next, ih, log, List.find?_cons]
      cases resets : step.isReset with
      | true => simp [entry, resets]
      | false => simp [entry, resets]

theorem reading_after : (start.after steps).clock.reading = start.clock.reading := by
  induction steps with
  | nil => rfl
  | cons step earlier ih => rw [after, reading_next, ih]

end Settings

/-! ## Histories -/

/-- Whatever is done with a new limiter, in any order, what it counts, what it holds and what it
refuses are as its history says. -/
theorem after_sound (limits : Limits) (cancelled : Bool) (clock : Clock) (steps : List Step) :
    Sound (new limits cancelled clock) steps ((new limits cancelled clock).after steps) where
  counted := iterations_after limits cancelled clock steps
  within := iterations_within limits cancelled clock steps
  fits small := by
    refine Nat.lt_of_le_of_lt (iterations_within limits cancelled clock steps)
      (Nat.lt_of_le_pred (by decide) (Entry.largest_le.mpr fun budget inForce => ?_))
    exact Nat.le_pred_of_lt (small budget inForce)
  stack := calls_after limits cancelled clock steps
  stopped := cancelled_after _ steps
  configured := limits_after _ steps
  started := started_after _ steps
  clock := reading_after _ steps
  refused _ _ _ := refused_iff
  bounded _ _ := depth_of_granted
  unchanged _ _ _ refused := ⟨by rw [next, refused]; rfl, aged_of_refused refused⟩
  kept state same := by
    rw [← same]
    refine ⟨fun kind pos breach next refused => ?_, fun α x name pos breach next refused => ?_⟩
    · rw [Exec.tick, refused, ← (aged_of_tick_error refused).calls]
    · rw [Exec.called, refused, ← (aged_of_enter_error refused).calls]

/-- A clock on which thirty milliseconds go by after the first reading, and then no more. -/
def nap : Clock := ⟨fun index => if index = 0 then 0 else 30 * Nat.pow 10 6, 0⟩

/-- A run with twenty milliseconds is cancelled, which is taken back, and then asks for a pass. -/
theorem after_sound_nap :
    let waited := (new ⟨5, 2, 20 * Nat.pow 10 6, true⟩ false nap).after
      [.change (.setCancelled false), .change (.setCancelled true)]
    waited.cancelled = false ∧ ∃ next, (Step.tick .whileLoop ⟨2, 5⟩).ask waited
      = .error ⟨.timeout, 0, 30 * Nat.pow 10 6, some ⟨2, 5⟩, 20, none⟩ next ∧ waited.Aged next := by
  intro waited
  have sound := after_sound ⟨5, 2, 20 * Nat.pow 10 6, true⟩ false nap
    [.change (.setCancelled false), .change (.setCancelled true)]
  have late := (sound.refused (.tick .whileLoop ⟨2, 5⟩) _ _).mpr ⟨rfl, .late rfl rfl (by decide)⟩
  exact ⟨sound.stopped, _, late, (sound.unchanged _ _ _ late).2⟩

/-- A budget that is lowered below the count stops the next pass and leaves the count. -/
example : ((new ⟨5, 2, 9, true⟩ false).after
    [.tick .forIn ⟨6, 1⟩, .change (.reconfigure ⟨1, 1, 9, true⟩), .tick .forIn ⟨4, 1⟩, .tick .forIn ⟨4, 1⟩,
      .change .reset, .tick .forIn ⟨1, 1⟩]).iterations = 2 := rfl

/-- A call that was entered before the limiter was started over is left after that, which does nothing;
of the two calls entered then, the first has not been left. -/
example : Entry.pending [] ((new ⟨5, 2, 9, true⟩ false).recent
    [.leave, .enter "h" ⟨5, 1⟩, .enter "g" ⟨4, 1⟩, .leave, .change .reset, .enter "f" ⟨1, 1⟩]) = ["g"] := by
  decide

end Limiter

end Rill

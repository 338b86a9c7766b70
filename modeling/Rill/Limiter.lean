import Rill.Position

/-!
# The execution limiter

One limiter watches a whole run. Every pass of a loop and every call asks it first; it refuses when
the run was cancelled, when its time is up, or when the budget of passes or of nested calls is
spent, in that order.

What the limiter knows of time is what it reads off a clock. Nothing is assumed of the readings, and
every one that is taken moves the clock on.
-/

set_option autoImplicit false

namespace Rill

/-- A clock: the readings it gives one after another, in nanoseconds, and how many were taken. -/
structure Clock where
  reading : Nat → Nat
  taken : Nat

namespace Clock

def now (clock : Clock) : Nat := clock.reading clock.taken

def next (clock : Clock) : Clock := { clock with taken := clock.taken + 1 }

/-- A clock on which a nanosecond passes from each reading to the next. -/
def ticking : Clock := ⟨id, 0⟩

end Clock

/-- The budgets of a run. The time budget counts nanoseconds. -/
structure Limits where
  maxIterations : Nat
  maxDepth : Nat
  budget : Nat
  enabled : Bool
deriving DecidableEq

namespace Limits

def default : Limits := ⟨1000000, 1000, 30 * Nat.pow 10 9, true⟩

def unlimited : Limits := { default with enabled := false }

def milliseconds (limits : Limits) : Nat := limits.budget / Nat.pow 10 6

end Limits

inductive BreachKind where
  | whileLoop | forLoop | forIn | recursion | timeout | cancelled
deriving DecidableEq

namespace BreachKind

def name : BreachKind → String
  | whileLoop => "while"
  | forLoop => "for"
  | forIn => "for-in"
  | recursion => "recursion"
  | timeout => "timeout"
  | cancelled => "cancelled"

def hint : BreachKind → String
  | whileLoop => "check that the while condition can become false"
  | forLoop => "make sure the increment modifies the condition"
  | forIn => "check that the collection is not grown while it is iterated"
  | recursion => "add a base case that ends the recursion"
  | timeout => "consider splitting the work into smaller parts"
  | cancelled => "the host cancelled this execution"

def isLoop : BreachKind → Bool
  | whileLoop | forLoop | forIn => true
  | _ => false

end BreachKind

/-- A refusal: its reason, the passes counted and the nanoseconds that have gone by so far, where it
happened, the budget that was reached in its own unit, and the call that was refused. -/
structure Breach where
  kind : BreachKind
  iterations : Nat
  elapsed : Nat
  location : Option Position
  limit : Nat
  function : Option String
deriving DecidableEq

namespace Breach

def message (breach : Breach) : String :=
  match breach.kind with
  | .whileLoop | .forLoop | .forIn =>
      "iteration limit of " ++ breach.limit.repr ++ " exceeded in `" ++ breach.kind.name ++ "` loop"
  | .recursion =>
      "maximum call depth of " ++ breach.limit.repr ++ " exceeded" ++ (match breach.function with
        | some name => " calling `" ++ name ++ "`"
        | none => "")
  | .timeout => "execution exceeded the time limit of " ++ breach.limit.repr ++ "ms"
  | .cancelled => "execution cancelled"

end Breach

/-- The state of a limiter: its budgets, the passes counted, the names of the active calls with
the innermost first, whether the run was cancelled, what the clock showed at the start, and the
clock. -/
structure Limiter where
  limits : Limits
  iterations : Nat
  calls : List String
  cancelled : Bool
  started : Nat
  clock : Clock

/-- The answer to a request is a grant or a refusal. Both come with the limiter that goes on. -/
abbrev Limiter.Answer : Type := EStateM.Result Breach Limiter Unit

/-- The limiter that goes on when a request is granted, and the refusal when it is not. -/
instance : Coe Limiter.Answer (Except Breach Limiter) where
  coe
    | .ok () next => .ok next
    | .error breach _ => .error breach

namespace Limiter

def new (limits : Limits) (cancelled : Bool) (clock : Clock := .ticking) : Limiter :=
  ⟨limits, 0, [], cancelled, clock.now, clock.next⟩

def depth (limiter : Limiter) : Nat := limiter.calls.length

/-- The time since the start, by the next reading. No time has passed when that is an earlier one. -/
def elapsed (limiter : Limiter) : Nat := limiter.clock.now - limiter.started

def look (limiter : Limiter) : Limiter := { limiter with clock := limiter.clock.next }

def place (pos : Position) : Option Position := if pos.isKnown then some pos else none

/-- Refuse a request with what the limiter knows about it, the time among it. -/
def refuse (limiter : Limiter) (kind : BreachKind) (limit : Nat) (pos : Position)
    (function : Option String) : Answer :=
  .error ⟨kind, limiter.iterations, limiter.elapsed, place pos, limit, function⟩ limiter.look

/-- Refuse a run that was cancelled or has no time left. A limit in milliseconds has 64 bits. -/
def checkInterrupts (limiter : Limiter) (pos : Position) : Answer :=
  if limiter.cancelled then limiter.refuse .cancelled 0 pos none
  else if limiter.limits.budget < limiter.elapsed then
    limiter.look.refuse .timeout (min limiter.limits.milliseconds (Nat.pow 2 64 - 1)) pos none
  else .ok () limiter.look

def tick (limiter : Limiter) (kind : BreachKind) (pos : Position) : Answer :=
  if limiter.limits.enabled then
    match limiter.checkInterrupts pos with
    | .error breach next => .error breach next
    | .ok () next =>
        if next.limits.maxIterations ≤ next.iterations then
          next.refuse kind next.limits.maxIterations pos none
        else .ok () { next with iterations := next.iterations + 1 }
  else .ok () limiter

def push (limiter : Limiter) (name : String) : Limiter :=
  { limiter with calls := name :: limiter.calls }

/-- Ask for a call. A limiter that is switched off still keeps the names of active calls. -/
def enter (limiter : Limiter) (name : String) (pos : Position) : Answer :=
  if limiter.limits.enabled then
    match limiter.checkInterrupts pos with
    | .error breach next => .error breach next
    | .ok () next =>
        if next.limits.maxDepth ≤ next.depth then
          next.refuse .recursion next.limits.maxDepth pos (some name)
        else .ok () (next.push name)
  else .ok () (limiter.push name)

def leave (limiter : Limiter) : Limiter := { limiter with calls := limiter.calls.tail }

/-- Start the budgets over: no passes, no calls, and a fresh reading of the clock. -/
def reset (limiter : Limiter) : Limiter :=
  { limiter.look with iterations := 0, calls := [], started := limiter.clock.now }

def setEnabled (limiter : Limiter) (enabled : Bool) : Limiter :=
  { limiter with limits := { limiter.limits with enabled } }

def reconfigure (limiter : Limiter) (limits : Limits) : Limiter := { limiter with limits }

def setCancelled (limiter : Limiter) (cancelled : Bool) : Limiter := { limiter with cancelled }

/-- A change of a limiter that is neither a pass nor a call. -/
inductive Change where
  | reset
  | setEnabled (enabled : Bool)
  | reconfigure (limits : Limits)
  | setCancelled (cancelled : Bool)
deriving DecidableEq

def Change.apply : Change → Limiter → Limiter
  | reset => Limiter.reset
  | setEnabled enabled => (·.setEnabled enabled)
  | reconfigure limits => (·.reconfigure limits)
  | setCancelled cancelled => (·.setCancelled cancelled)

end Limiter

end Rill

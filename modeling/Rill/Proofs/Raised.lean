import Rill.Proofs.Limiter
import Rill.Proofs.Related.Engine
import Rill.Proofs.Depth

/-!
# Where faults are raised

A fault passes through everything between the place where it is raised and the place where it ends
up. `Raised` follows an execution to the place where the fault in which it ends was raised, with the
calls that are active on the way. It has one rule for every way in which a fault may arise and one
for every way in which it may pass, and only calls change which calls are active.

The names of active calls are noted on a fault at a refusal of the limiter, at a `throw`, or when
the fault leaves the innermost function of a program. `Underway` says what is noted on a fault that
has come from where it was raised to where some calls are still active, and `Raised.underway` that
this is so along every way.
-/

set_option autoImplicit false

namespace Rill

/-- A call that is active: the name it goes by, and whether the function is not written in the
language. -/
structure ActiveCall where
  name : String
  native : Bool
deriving DecidableEq

namespace ActiveCall

def names (calls : List ActiveCall) : List String := calls.map (·.name)

/-- The innermost call, if there is one, is of a function of a program. -/
def InProgram (calls : List ActiveCall) : Prop := ∀ call ∈ calls.head?, call.native = false

/-- What a backtrace lists of the calls that were active, the innermost first, when a fault was
raised: all of them for a refusal of the limiter, and else those from the innermost function of a
program on. -/
def listed (cause : Cause) (calls : List ActiveCall) : List String :=
  names (if cause.isLimit then calls else calls.dropWhile (·.native))

end ActiveCall

def Engine.runFunction (engine : Engine) (fn : Function) (env : FrameId) (args : List Value) :
    Exec Value := do
  engine.bindParams env fn.params args
  engine.runBody fn.body env

/-- An execution ends in a fault. It begins in a state while the calls `active` are active, and the
fault is raised while the calls `calls` are. -/
inductive Raised : {α : Type} → Exec α → State → (active calls : List ActiveCall) → Prop where
  | raise {α : Type} {cause : Cause} (own : cause.isLimit = false) (state : State)
      (active : List ActiveCall) : Raised (Exec.raise cause : Exec α) state active active
  | store {α : Type} {x : Store α} {state : State} {cause : Cause} (own : cause.isLimit = false)
      (failed : (x state.heap).1 = .error cause) (active : List ActiveCall) :
      Raised (liftM x : Exec α) state active active
  | tick {kind : BreachKind} {pos : Position} {state : State} {breach : Breach}
      {limiter : Limiter} (refused : state.limiter.tick kind pos = .error breach limiter)
      (active : List ActiveCall) :
      Raised (Exec.tick kind pos) state active active
  | barred {α : Type} {x : Exec α} {name : String} {pos : Position} {state : State}
      {breach : Breach} {limiter : Limiter}
      (refused : state.limiter.enter name pos = .error breach limiter) (active : List ActiveCall) : Raised (Exec.called name pos x) state active active
  | first {α β : Type} {x : Exec α} {f : α → Exec β} {state : State}
      {active calls : List ActiveCall} (inner : Raised x state active calls) :
      Raised (x >>= f) state active calls
  | later {α β : Type} {x : Exec α} {f : α → Exec β} {state between : State} {a : α}
      {active calls : List ActiveCall} (ended : x state = .done a between)
      (back : between.limiter.calls = state.limiter.calls)
      (inner : Raised (f a) between active calls) : Raised (x >>= f) state active calls
  | locate {α : Type} {x : Exec α} {state : State} {active calls : List ActiveCall}
      (pos : Position) (inner : Raised x state active calls) :
      Raised (Exec.locate pos x) state active calls
  | traced {α : Type} {x : Exec α} {state : State} {active calls : List ActiveCall}
      (inProgram : ActiveCall.InProgram active) (inner : Raised x state active calls) :
      Raised (Exec.traced x) state active calls
  | native {engine : Engine} {native : Native} {args : List Value} {pos : Position} {state : State}
      {limiter : Limiter} {active calls : List ActiveCall}
      (granted : state.limiter.enter native.label pos = .ok () limiter)
      (inner : Raised (engine.callNative native args) { state with limiter }
        (⟨native.label, true⟩ :: active) calls) :
      Raised (Exec.called native.label pos (engine.callNative native args)) state active calls
  | function {engine : Engine} {fn : Function} {env : FrameId} {args : List Value}
      {pos : Position} {state : State} {limiter : Limiter} {active calls : List ActiveCall}
      (granted : state.limiter.enter fn.label pos = .ok () limiter)
      (inner : Raised (Exec.traced (engine.runFunction fn env args)) { state with limiter }
        (⟨fn.label, false⟩ :: active) calls) :
      Raised (Exec.called fn.label pos (Exec.traced (engine.runFunction fn env args))) state active
        calls
  | asMethod {α : Type} {x : Exec α} {env : FrameId} {method : MethodRef} {state : State}
      {active calls : List ActiveCall} (inner : Raised x
        { state with heap := (Store.setMethod env (some method) state.heap).2 } active calls) :
      Raised (Exec.asMethod env method x) state active calls
  | loading {α : Type} {x : Exec α} {key : String} {state : State}
      {active calls : List ActiveCall}
      (inner : Raised x { state with loading := key :: state.loading } active calls) :
      Raised (Exec.loading key x) state active calls
  | unhandled {engine : Engine} {body : Block} {env : FrameId} {state : State}
      {active calls : List ActiveCall}
      (inner : Raised (engine.execBlock body env) state active calls) :
      Raised (engine.execGuarded body none env) state active calls
  /-- A fault has been caught, and the handler ends in another one. -/
  | handler {engine : Engine} {body : Block} {handler : Handler} {env : FrameId}
      {state between : State} {fault : Fault} {active calls : List ActiveCall}
      (ended : engine.execBlock body env state = .fault fault between)
      (back : between.limiter.calls = state.limiter.calls)
      (inner : Raised (engine.handle handler fault env) between active calls) :
      Raised (engine.execGuarded body (some handler) env) state active calls
  /-- A fault passes through a `finally`. -/
  | cleaned {engine : Engine} {body cleanup : Block} {handler : Option Handler} {env : FrameId}
      {state between next : State} {fault : Fault} {value : Value}
      {active calls : List ActiveCall}
      (inner : Raised (engine.execGuarded body handler env) state active calls)
      (ended : engine.execGuarded body handler env state = .fault fault between)
      (normal : engine.execBlock cleanup env between = .done (.normal value) next)
      (back : next.limiter.calls = between.limiter.calls) :
      Raised (engine.execTry body handler (some cleanup) env) state active calls
  /-- A `finally` ends in a fault, which replaces what came before. -/
  | cleanup {engine : Engine} {body cleanup : Block} {handler : Option Handler} {env : FrameId}
      {state between : State} {active calls : List ActiveCall}
      (ended : (engine.execGuarded body handler env state).state? = some between)
      (back : between.limiter.calls = state.limiter.calls)
      (inner : Raised (engine.execBlock cleanup env) between active calls) :
      Raised (engine.execTry body handler (some cleanup) env) state active calls

/-! ## Handlers and cleanup -/

namespace Engine

theorem execGuarded_none (engine : Engine) (body : Block) (env : FrameId) (state : State) :
    engine.execGuarded body none env state = engine.execBlock body env state := by
  show (Exec.attempt (engine.execBlock body env) >>= _) state = _
  rw [Exec.bind_eq, Exec.attempt_eq]
  cases engine.execBlock body env state <;> rfl

theorem execGuarded_some (engine : Engine) (body : Block) (handler : Handler) (env : FrameId)
    (state : State) : engine.execGuarded body (some handler) env state
      = match engine.execBlock body env state with
        | .fault fault next => engine.handle handler fault env next
        | outcome => outcome := by
  show (Exec.attempt (engine.execBlock body env) >>= _) state = _
  rw [Exec.bind_eq, Exec.attempt_eq]
  cases engine.execBlock body env state <;> rfl

theorem execTry_some (engine : Engine) (body cleanup : Block) (handler : Option Handler)
    (env : FrameId) (state : State) : engine.execTry body handler (some cleanup) env state
      = match (engine.execGuarded body handler env state).state? with
        | none => .spent
        | some between =>
            match engine.execBlock cleanup env between with
            | .done (.normal _) next =>
                (engine.execGuarded body handler env state).mapState fun _ => next
            | outcome => outcome := by
  show (Exec.attempt (engine.execGuarded body handler env) >>= _) state = _
  rw [Exec.bind_eq, Exec.attempt_eq]
  cases engine.execGuarded body handler env state with
  | spent => rfl
  | done signal between | fault fault between =>
      show (engine.execBlock cleanup env >>= _) between = _
      rw [Exec.bind_eq]
      show _ = match engine.execBlock cleanup env between with
        | .done (.normal _) next => _
        | outcome => outcome
      cases engine.execBlock cleanup env between with
      | done signal next => cases signal <;> rfl
      | _ => rfl

end Engine

/-! ## Faults on their way -/

namespace Fault

@[simp] theorem locate_backtrace (fault : Fault) (pos : Position) :
    (fault.locate pos).backtrace = fault.backtrace := by
  unfold locate
  split <;> rfl

end Fault

theorem Exec.backtrace_ne_nil {α : Type} {x : Exec α} {state next : State} {fault : Fault}
    (ended : Exec.traced x state = .fault fault next) (active : next.limiter.calls ≠ []) :
    fault.backtrace ≠ [] := by
  rw [Exec.traced_eq] at ended
  cases outcome : x state with
  | done | spent => simp [outcome, Outcome.mapFault] at ended
  | fault problem after =>
      simp only [outcome, Outcome.mapFault, Outcome.fault.injEq] at ended
      obtain ⟨rfl, rfl⟩ := ended
      unfold Fault.trace
      split
      · exact active
      · next noted => exact fun empty => noted (List.isEmpty_iff.mpr empty)

/-- What is noted on a fault that was raised while the calls `calls` were active and has come to
where `active` are: a refusal of the limiter has all names at once; another fault has none as long
as it has only left native functions, and then those from the innermost function of a program on. -/
inductive Underway (active : List ActiveCall) : List ActiveCall → Fault → Prop where
  | refusal {calls : List ActiveCall} {fault : Fault} (limit : fault.cause.isLimit = true)
      (within : active <:+ calls) (noted : fault.backtrace = ActiveCall.names calls) :
      Underway active calls fault
  | unnoted {natives : List ActiveCall} {fault : Fault} (own : fault.cause.isLimit = false)
      (passed : ∀ call ∈ natives, call.native = true) (unnoted : fault.backtrace = []) :
      Underway active (natives ++ active) fault
  | noted {calls : List ActiveCall} {fault : Fault} (own : fault.cause.isLimit = false)
      (nonempty : fault.backtrace ≠ [])
      (noted : fault.backtrace = ActiveCall.names (calls.dropWhile (·.native))) :
      Underway active calls fault

namespace Underway

variable {active calls : List ActiveCall} {fault : Fault}

theorem start {cause : Cause} (own : cause.isLimit = false) (active : List ActiveCall) :
    Underway active active (.of cause) := by
  show Underway active ([] ++ active) (.of cause)
  exact .unnoted own (by simp) rfl

theorem breach (breach : Breach) (active : List ActiveCall) :
    Underway active active (.ofBreach breach (ActiveCall.names active)) :=
  .refusal rfl (List.suffix_refl active) rfl

theorem locate (underway : Underway active calls fault) (pos : Position) :
    Underway active calls (fault.locate pos) := by
  cases underway with
  | refusal limit within noted => exact .refusal (by simpa) within (by simpa)
  | unnoted own passed unnoted => exact .unnoted (by simpa) passed (by simpa)
  | noted own nonempty noted => exact .noted (by simpa) (by simpa) (by simpa)

theorem leaveNative {call : ActiveCall} (native : call.native = true)
    (underway : Underway (call :: active) calls fault) : Underway active calls fault := by
  cases underway with
  | refusal limit within noted => exact .refusal limit ((List.suffix_cons _ _).trans within) noted
  | @unnoted natives _ own passed unnoted =>
      rw [List.append_cons]
      refine .unnoted own (fun other member => ?_) unnoted
      rcases List.mem_append.mp member with early | last
      · exact passed other early
      · rw [List.mem_singleton.mp last]
        exact native
  | noted own nonempty noted => exact .noted own nonempty noted

theorem dropWhile_natives {natives : List ActiveCall} (passed : ∀ call ∈ natives, call.native = true)
    (inProgram : ActiveCall.InProgram active) :
    (natives ++ active).dropWhile (·.native) = active := by
  rw [List.dropWhile_append_of_pos passed]
  cases active with
  | nil => rfl
  | cons call rest => rw [List.dropWhile_cons, inProgram call rfl, if_neg Bool.false_ne_true]

theorem trace (inProgram : ActiveCall.InProgram active) (underway : Underway active calls fault) :
    Underway active calls (fault.trace (ActiveCall.names active)) := by
  unfold Fault.trace
  split
  · next empty =>
    have empty := List.isEmpty_iff.mp empty
    cases underway with
    | refusal limit within noted =>
        -- Nothing was active when the fault was raised, so nothing is now.
        obtain rfl : calls = [] := List.map_eq_nil_iff.mp (noted.symm.trans empty)
        obtain rfl := List.suffix_nil.mp within
        exact .refusal limit within rfl
    | unnoted own passed _ =>
        cases active with
        | nil => exact .unnoted own passed rfl
        | cons call rest =>
            refine .noted own (List.cons_ne_nil _ _) ?_
            rw [dropWhile_natives passed inProgram]
    | noted _ nonempty => exact absurd empty nonempty
  · exact underway

theorem leaveNoted {call : ActiveCall} (nonempty : fault.backtrace ≠ [])
    (underway : Underway (call :: active) calls fault) : Underway active calls fault := by
  cases underway with
  | refusal limit within noted => exact .refusal limit ((List.suffix_cons _ _).trans within) noted
  | unnoted own passed unnoted => exact absurd unnoted nonempty
  | noted own nonempty noted => exact .noted own nonempty noted

theorem backtrace_eq (underway : Underway [] calls fault) :
    fault.backtrace = ActiveCall.listed fault.cause calls := by
  cases underway with
  | refusal limit within noted => rw [ActiveCall.listed, limit, if_pos rfl, noted]
  | @unnoted natives _ own passed unnoted =>
      have skipped : (natives ++ ([] : List ActiveCall)).dropWhile (·.native) = [] :=
        dropWhile_natives passed (by simp [ActiveCall.InProgram])
      rw [ActiveCall.listed, own, if_neg Bool.false_ne_true, skipped, unnoted]
      rfl
  | noted own nonempty noted =>
      rw [ActiveCall.listed, own, if_neg Bool.false_ne_true, noted]

end Underway

/-- Wherever the fault is raised, it arrives with what is noted on the way, and the active calls are
those of the beginning. -/
theorem Raised.underway {α : Type} {x : Exec α} {state : State} {active calls : List ActiveCall}
    (raised : Raised x state active calls)
    (known : ActiveCall.names active = state.limiter.calls) :
    ∃ fault next, x state = .fault fault next ∧ next.limiter.calls = state.limiter.calls
      ∧ Underway active calls fault := by
  induction raised with
  | raise own state active => exact ⟨_, state, rfl, rfl, .start own active⟩
  | @store _ x state cause own failed active =>
      refine ⟨.of cause, { state with heap := (x state.heap).2 }, ?_, rfl, .start own active⟩
      rw [Exec.store_eq]
      cases same : x state.heap with
      | mk result heap =>
          rw [same] at failed
          cases failed
          rfl
  | @tick _ _ state breach limiter refused active =>
      have back := (Limiter.aged_of_tick_error refused).calls
      refine ⟨.ofBreach breach limiter.calls, { state with limiter }, ?_, back, ?_⟩
      · simp only [Exec.tick, refused]
      · rw [back, ← known]
        exact .breach breach active
  | @barred _ _ _ _ state breach limiter refused active =>
      have back := (Limiter.aged_of_enter_error refused).calls
      refine ⟨.ofBreach breach limiter.calls, { state with limiter }, ?_, back, ?_⟩
      · rw [Exec.called_eq, refused]
      · rw [back, ← known]
        exact .breach breach active
  | first _ ih =>
      obtain ⟨fault, next, ended, back, underway⟩ := ih known
      exact ⟨fault, next, by simp only [Exec.bind_eq, ended], back, underway⟩
  | later ended back _ ih =>
      obtain ⟨fault, next, stopped, still, underway⟩ := ih (known.trans back.symm)
      exact ⟨fault, next, by simp only [Exec.bind_eq, ended, stopped], still.trans back, underway⟩
  | locate pos _ ih =>
      obtain ⟨fault, next, ended, back, underway⟩ := ih known
      exact ⟨_, next, by simp only [Exec.locate_eq, ended, Outcome.mapFault], back,
        underway.locate pos⟩
  | traced inProgram _ ih =>
      obtain ⟨fault, next, ended, back, underway⟩ := ih known
      refine ⟨fault.trace next.limiter.calls, next,
        by simp only [Exec.traced_eq, ended, Outcome.mapFault], back, ?_⟩
      rw [back, ← known]
      exact underway.trace inProgram
  | native granted _ ih =>
      have entered := Limiter.enter_calls granted
      obtain ⟨fault, next, ended, back, underway⟩ := ih (by rw [entered, ← known]; rfl)
      refine ⟨fault, { next with limiter := next.limiter.leave }, ?_, ?_,
        underway.leaveNative rfl⟩
      · simp only [Exec.called_eq, granted, ended, Outcome.mapState]
      · show next.limiter.calls.tail = _
        rw [back, entered, List.tail_cons]
  | function granted _ ih =>
      have entered := Limiter.enter_calls granted
      obtain ⟨fault, next, ended, back, underway⟩ := ih (by rw [entered, ← known]; rfl)
      have nonempty := Exec.backtrace_ne_nil ended (by rw [back, entered]; exact List.cons_ne_nil _ _)
      refine ⟨fault, { next with limiter := next.limiter.leave }, ?_, ?_,
        underway.leaveNoted nonempty⟩
      · simp only [Exec.called_eq, granted, ended, Outcome.mapState]
      · show next.limiter.calls.tail = _
        rw [back, entered, List.tail_cons]
  | asMethod _ ih =>
      obtain ⟨fault, next, ended, back, underway⟩ := ih known
      exact ⟨fault, _, (Exec.asMethod_eq _ _ _ _).trans (congrArg (Outcome.mapState _) ended),
        back, underway⟩
  | loading _ ih =>
      obtain ⟨fault, next, ended, back, underway⟩ := ih known
      exact ⟨fault, _, (Exec.loading_eq _ _ _).trans (congrArg (Outcome.mapState _) ended), back,
        underway⟩
  | unhandled _ ih =>
      obtain ⟨fault, next, ended, back, underway⟩ := ih known
      exact ⟨fault, next, by rw [Engine.execGuarded_none, ended], back, underway⟩
  | handler ended back _ ih =>
      obtain ⟨fault, next, stopped, still, underway⟩ := ih (known.trans back.symm)
      exact ⟨fault, next, by simp only [Engine.execGuarded_some, ended, stopped],
        still.trans back, underway⟩
  | cleaned _ ended normal back ih =>
      obtain ⟨fault, between, inner, before, underway⟩ := ih known
      obtain ⟨rfl, rfl⟩ : _ = fault ∧ _ = between := Outcome.fault.inj (ended.symm.trans inner)
      refine ⟨_, _, ?_, back.trans before, underway⟩
      simp only [Engine.execTry_some, ended, Outcome.state?, normal, Outcome.mapState]
  | cleanup ended back _ ih =>
      obtain ⟨fault, next, stopped, still, underway⟩ := ih (known.trans back.symm)
      exact ⟨fault, next, by simp only [Engine.execTry_some, ended, stopped], still.trans back,
        underway⟩

end Rill

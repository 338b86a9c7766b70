import Rill.Proofs.Bookkeeping
import Rill.Proofs.Frames

/-!
# Other ways of making super calls

Which method a `super` call runs depends on what is noted in a frame when the call is made. To say
what the note can be at that moment, engines are built that make super calls in some other way and
do all else as before (`Engine.via`). While the note in a frame is what it is, the engine of the
evaluator and such a one end in the same way, as soon as single super calls do (`via_sameWhile`).
-/

set_option autoImplicit false

namespace Rill

/-- A way to make a super call: the method that is asked for, the arguments, the frame and the
position of the call. -/
abbrev SuperWay := Option String → List Value → FrameId → Position → Exec Value

namespace Engine

/-- Perform one job, but make super calls in a way of one's own. -/
def stepVia (engine : Engine) (way : SuperWay) {α : Type} : Job α → Exec α
  | .eval (.call pos (.super_ _ name) args) env => Exec.locate pos do
      let values ← engine.evalArgs args env
      way name values env pos
  | .call (.native id) args pos => do
      match ← Exec.read (·.heap.natives[id]?) with
      | some (.superCall name env at_) =>
          Exec.locate pos (Exec.called "super" pos (way name args env at_))
      | some native =>
          Exec.locate pos (Exec.called native.label pos (engine.callNative native args))
      | none => return .nil
  | job => engine.step job

/-- The engine of a depth with another way of making super calls. The way is told the engine that
performs the jobs of a step and the one that would perform them otherwise. -/
def via (way : Engine → Engine → SuperWay) (loader : Option Loader) : Nat → Engine
  | 0 => ofDepth loader 0
  | depth + 1 =>
      { perform := (via way loader depth).stepVia
          (way (via way loader depth) (ofDepth loader depth))
        passes := depth + 1
        loader }

end Engine

theorem Expr.isSuperCall_iff {expr : Expr} : expr.isSuperCall = true ↔
    ∃ pos at_ name args, expr = .call pos (.super_ at_ name) args := by
  constructor
  · intro parent
    cases expr with
    | call pos callee args =>
        cases callee with
        | super_ at_ name => exact ⟨pos, at_, name, args, rfl⟩
        | _ => cases parent
    | _ => cases parent
  · rintro ⟨pos, at_, name, args, rfl⟩
    rfl

theorem Engine.stepVia_eval (engine : Engine) (way : SuperWay) {expr : Expr}
    (plain : expr.isSuperCall = false) (env : FrameId) :
    engine.stepVia way (.eval expr env) = engine.evalStep expr env := by
  cases expr with
  | call pos callee args =>
      cases callee with
      | super_ => cases plain
      | _ => rfl
  | _ => rfl

theorem Engine.stepVia_call (engine : Engine) (way : SuperWay) {callee : Value}
    (other : ∀ id, callee ≠ .native id) (args : List Value) (pos : Position) :
    engine.stepVia way (.call callee args pos) = engine.callValue callee args pos := by
  cases callee with
  | native id => exact absurd rfl (other id)
  | _ => rfl

theorem Engine.stepVia_callSuper (engine : Engine) {α : Type} (job : Job α) :
    engine.stepVia engine.callSuper job = engine.step job := by
  cases job with
  | eval expr env =>
      cases parent : expr.isSuperCall with
      | false => exact engine.stepVia_eval _ parent env
      | true =>
          obtain ⟨pos, at_, name, args, rfl⟩ := Expr.isSuperCall_iff.mp parent
          rfl
  | exec stmt env => rfl
  | call callee args pos =>
      by_cases named : ∃ id, callee = .native id
      · obtain ⟨id, rfl⟩ := named
        funext state
        change ((Exec.read fun state => state.heap.natives[id]?) >>= _) state
          = ((Exec.read fun state => state.heap.natives[id]?) >>= _) state
        rw [Exec.bind_eq, Exec.bind_eq]
        simp only [Exec.read]
        cases state.heap.natives[id]? with
        | none => rfl
        | some native => cases native <;> rfl
      · exact engine.stepVia_call _ (not_exists.mp named) args pos

theorem Uniform.stepVia {permits : Permits} {R S : Relation} {first second : Engine}
    (uniform : Uniform permits R S) (related : EnginesRelated S first second)
    {way other : SuperWay}
    (ways : ∀ name args env pos, R Value (way name args env pos) (other name args env pos))
    (hosts : ∀ act : HostAct, permits.hosts → R Value (first.act act) (second.act act))
    {α : Type} (job : Job α) : R α (first.stepVia way job) (second.stepVia other job) := by
  cases job with
  | eval expr env =>
      cases parent : expr.isSuperCall with
      | false =>
          rw [first.stepVia_eval way parent, second.stepVia_eval other parent]
          exact uniform.evalStep related expr env fun super => by simp [parent] at super
      | true =>
          obtain ⟨pos, at_, name, args, rfl⟩ := Expr.isSuperCall_iff.mp parent
          have values := uniform.evalArgs args env fun part _ => uniform.evals related part
          exact uniform.locate pos (uniform.bind values fun values =>
            ways name values env pos)
  | exec stmt env => exact uniform.execStep related stmt env
  | call callee args pos =>
      by_cases named : ∃ id, callee = .native id
      · obtain ⟨id, rfl⟩ := named
        refine uniform.lookUp (fun heap => heap.natives[id]?) fun heap holds => ?_
        cases found : heap.natives[id]? with
        | none => exact uniform.pure _
        | some native =>
            have held := holds.native id native found
            have called := uniform.callNative related native args pos
            cases native with
            | superCall name env at_ =>
                exact uniform.locate pos (uniform.called _ pos (ways name args env at_))
            | host fn =>
                exact uniform.locate pos (called (fun _ _ _ same => by cases same)
                  fun fn _ => hosts (fn.body args) (held rfl))
            | _ =>
                exact uniform.locate pos (called (fun _ _ _ same => by cases same)
                  fun _ same => by cases same)
      · rw [first.stepVia_call way (not_exists.mp named),
          second.stepVia_call other (not_exists.mp named)]
        exact uniform.callStep related callee args pos fun id same => absurd ⟨id, same⟩ named

/-! ## While a note lasts -/

def Heap.Notes (home : FrameId) (note : Option MethodRef) (heap : Heap) : Prop :=
  home < heap.frames.size ∧ heap.noted? home = note

/-- Begun while a note stands in a frame, the second execution ends as the first one does, unless
that one gives up, and the note stands in the end. -/
def SameWhile (home : FrameId) (note : Option MethodRef) : Relation := fun _ x y =>
  ∀ state, state.heap.Notes home note → x state ≠ .spent →
    y state = x state ∧ ∀ next, (x state).state? = some next → next.heap.Notes home note

namespace Heap.Notes

variable {home : FrameId} {note : Option MethodRef} {heap next : Heap}

theorem kept (notes : heap.Notes home note) (kept : heap.MethodsKept next) :
    next.Notes home note :=
  ⟨Nat.lt_of_lt_of_le notes.1 kept.size, (kept.method home notes.1).trans notes.2⟩

theorem setMethod (notes : heap.Notes home note) {env : FrameId} (apart : env ≠ home)
    (method : Option MethodRef) : (Store.setMethod env method heap).2.Notes home note := by
  refine ⟨by simpa using notes.1, ?_⟩
  rw [noted?_setMethod_other apart]
  exact notes.2

theorem fresh (notes : heap.Notes home note) : heap.frames.size ≠ home := Nat.ne_of_gt notes.1

end Heap.Notes

/-- Any code may run, but in one frame no name is overwritten, and it is not given to an instance or
another directory. -/
def Permits.apart (home : FrameId) : Permits :=
  { anyCode True with overwrites := fun env => env ≠ home, moves := fun env => env ≠ home }

theorem Permits.AnyCode.of_apart (home : FrameId) : (apart home).AnyCode :=
  ⟨fun _ => trivial, fun _ => trivial, fun _ => trivial, trivial⟩

theorem Heap.holds_apart (home : FrameId) (heap : Heap) : heap.Holds (.apart home) :=
  ⟨fun _ _ _ => trivial, fun _ _ _ _ _ => trivial, fun _ _ _ _ _ _ _ => trivial,
    fun _ _ _ _ => trivial⟩

namespace SameWhile

variable {home : FrameId} {note : Option MethodRef}

theorem same {α : Type} {x : Exec α} (keeps : ∀ state next, (x state).state? = some next →
    state.heap.Notes home note → next.heap.Notes home note) : SameWhile home note α x x :=
  fun state notes _ => ⟨rfl, fun next left => keeps state next left notes⟩

theorem quiet {α : Type} {x : Exec α}
    (still : ∀ state next, (x state).state? = some next → next.heap = state.heap) :
    SameWhile home note α x x :=
  same fun state next left notes => by rw [still state next left]; exact notes

theorem bind {α β : Type} {x y : Exec α} {f g : α → Exec β}
    (first : SameWhile home note α x y) (second : ∀ a, SameWhile home note β (f a) (g a)) :
    SameWhile home note β (x >>= f) (y >>= g) := by
  intro state notes ended
  have begun := Exec.ended_of_bind ended
  obtain ⟨equal, kept⟩ := first state notes begun
  rw [Exec.bind_eq] at ended
  rw [Exec.bind_eq, Exec.bind_eq, equal]
  cases outcome : x state with
  | done a next =>
      rw [outcome] at ended kept
      exact second a next (kept next rfl) ended
  | fault fault next =>
      rw [outcome] at kept
      exact ⟨rfl, kept⟩
  | spent => exact absurd outcome begun

theorem map {α β : Type} {x y : Exec α} {f g : Exec β} (make : Outcome α → Outcome β)
    (gone : make .spent = .spent) (left : ∀ outcome, (make outcome).state? = outcome.state?)
    (made : ∀ state, f state = make (x state)) (alike : ∀ state, g state = make (y state))
    (inner : SameWhile home note α x y) : SameWhile home note β f g := by
  intro state notes ended
  rw [made] at ended
  obtain ⟨equal, kept⟩ := inner state notes (Outcome.ended_of_made gone ended)
  rw [made, alike, equal, left]
  exact ⟨rfl, kept⟩

theorem within {α : Type} {x y : Exec α} (inner : SameWhile home note α x y)
    {entered : State} {leave : State → State} (notes : entered.heap.Notes home note)
    (back : ∀ next, next.heap.Notes home note → (leave next).heap.Notes home note)
    (ended : (x entered).mapState leave ≠ .spent) :
    (y entered).mapState leave = (x entered).mapState leave ∧
      ∀ next, ((x entered).mapState leave).state? = some next → next.heap.Notes home note := by
  have begun := Outcome.ended_of_made rfl ended
  obtain ⟨equal, kept⟩ := inner entered notes begun
  refine ⟨by rw [equal], fun next left => ?_⟩
  rw [Outcome.mapState_state?] at left
  obtain ⟨after, here, rfl⟩ := Option.map_eq_some_iff.mp left
  exact back after (kept after here)

theorem store {α : Type} {x : Store α} (kept : ∀ heap : Heap, heap.MethodsKept (x heap).2) :
    SameWhile home note α (liftM x) (liftM x) := by
  refine same fun state next left notes => ?_
  rw [Exec.store_state?] at left
  cases left
  exact notes.kept (kept state.heap)

theorem catching {permits : Permits} (holds : ∀ heap : Heap, heap.Holds permits)
    (fresh : ∀ frame, frame ≠ home → permits.Fresh frame) :
    Catching permits (SameWhile home note) where
  pure _ := quiet fun _ _ left => by cases left; rfl
  bind := bind
  raise _ _ := quiet fun _ _ left => by cases left; rfl
  locate pos := map (Outcome.mapFault _) rfl (Outcome.mapFault_state? _) (Exec.locate_eq pos _)
    (Exec.locate_eq pos _)
  traced := map (Outcome.mapFault _) rfl (Outcome.mapFault_state? _) (Exec.traced_eq _)
    (Exec.traced_eq _)
  child env f g inner state notes ended :=
    inner state.heap.frames.size (fresh _ notes.fresh) _
      (notes.kept (.push state.heap _)) ended
  store ordinary := store ordinary.methodsKept
  lookUp _ _ _ found state := found state.heap (holds state.heap) state
  print _ _ := quiet fun _ _ left => by cases left; rfl
  attempt := map Outcome.attempted rfl Outcome.attempted_state? (Exec.attempt_eq _)
    (Exec.attempt_eq _)
  settle result := by
    cases result with
    | ok a => exact quiet fun _ _ left => by cases left; rfl
    | error fault => exact quiet fun _ _ left => by cases left; rfl

theorem apart : Catching (.apart home) (SameWhile home note) :=
  catching (fun heap => heap.holds_apart home) fun _ new => ⟨⟨trivial, new⟩, new⟩

-- Binding names does not touch notes, so code may also bind them in the frame of the note. That is
-- what functions need that are entered there.
theorem everywhere : Catching (.anyCode True) (SameWhile home note) :=
  catching (fun heap => heap.holds_anyCode trivial) fun _ _ => ⟨⟨trivial, trivial⟩, trivial⟩

theorem tick : TickRelated (SameWhile home note) := by
  intro kind pos
  refine quiet fun state next left => ?_
  simp only [Exec.tick] at left
  split at left
  · cases left
    rfl
  · cases left
    rfl

theorem called {α : Type} (name : String) (pos : Position) {x y : Exec α}
    (inner : SameWhile home note α x y) :
    SameWhile home note α (Exec.called name pos x) (Exec.called name pos y) := by
  intro state notes ended
  rw [Exec.called_eq] at ended
  rw [Exec.called_eq, Exec.called_eq]
  cases asked : state.limiter.enter name pos with
  | error breach limiter =>
      refine ⟨rfl, fun next left => ?_⟩
      cases left
      exact notes
  | ok granted limiter =>
      rw [asked] at ended
      exact inner.within notes (fun _ after => after) ended

theorem loading {α : Type} (key : String) {x y : Exec α} (inner : SameWhile home note α x y) :
    SameWhile home note α (Exec.loading key x) (Exec.loading key y) := by
  intro state notes ended
  rw [Exec.loading_eq] at ended
  rw [Exec.loading_eq, Exec.loading_eq]
  exact inner.within notes
    (fun _ after => after) ended

theorem during {env : FrameId} (elsewhere : env ≠ home) :
    DuringRelated (SameWhile home note) env := by
  intro method x y inner state notes ended
  rw [Exec.asMethod_eq] at ended
  rw [Exec.asMethod_eq, Exec.asMethod_eq]
  exact inner.within (notes.setMethod elsewhere (some method))
    (fun _ after => after.setMethod elsewhere _) ended

theorem uniform : Uniform (.apart home) (SameWhile home note) (SameWhile home note) where
  anyCode := .of_apart home
  toCompatible := apart.toCompatible
  traced := apart.traced
  strong := apart
  weaken _ _ _ inner := inner
  methods :=
    { fresh := fun env method f g inner state notes ended =>
        inner state.heap.frames.size ⟨⟨trivial, notes.fresh⟩, notes.fresh⟩ _
          (notes.kept (.fresh state.heap env method)) ended
      during := fun _ elsewhere => during elsewhere }
  passes := apart.passRelated tick
  called := called
  opens := apart.openModule (quiet fun _ _ left => by cases left; rfl)
    (fun _ => quiet fun _ _ left => by cases left; rfl) loading
    fun _ _ => quiet fun _ _ left => by cases left; rfl
  spent _ _ _ ended := absurd rfl ended

variable {first second : Engine}

theorem invoke (related : EnginesRelated (SameWhile home note) first second) (fn : Function)
    (env : FrameId) (args : List Value) (pos : Position) :
    SameWhile home note Value (first.invoke fn env args pos) (second.invoke fn env args pos) :=
  everywhere.locate pos (called fn.label pos (everywhere.traced
    (everywhere.enter fn ⟨trivial, trivial⟩ args (fun part _ => uniform.evals related part)
      fun part _ env _ => related.jobs (.exec part env))))

theorem act (related : EnginesRelated (SameWhile home note) first second) (act : HostAct) :
    SameWhile home note Value (first.act act) (second.act act) :=
  uniform.act related (quiet fun _ _ left => by cases left; rfl)
    (fun _ => quiet fun _ _ left => by cases left; rfl) act

end SameWhile

namespace Engine

variable {home : FrameId} {note : Option MethodRef} {loader : Option Loader}

/-- Another way of making super calls makes no difference while a note stands, if it makes none to
single super calls. -/
theorem via_sameWhile {way : Engine → Engine → SuperWay}
    (ways : ∀ depth, EnginesRelated (SameWhile home note) (ofDepth loader depth)
        (via way loader depth) → ∀ name args env pos,
      SameWhile home note Value ((ofDepth loader depth).callSuper name args env pos)
        (way (via way loader depth) (ofDepth loader depth) name args env pos)) (depth : Nat) :
    EnginesRelated (SameWhile home note) (ofDepth loader depth) (via way loader depth) := by
  induction depth with
  | zero => exact ⟨fun _ _ _ ended => absurd rfl ended, Nat.le_refl _, rfl⟩
  | succ depth ih =>
      refine ⟨fun job => ?_, Nat.le_refl _, rfl⟩
      -- With its own way of making super calls the step is that of the evaluator, so that only the
      -- two ways are left to compare.
      rw [perform_succ, ← stepVia_callSuper]
      exact SameWhile.uniform.stepVia ih (ways depth ih)
        (fun act _ => SameWhile.act ih act) job

end Engine

end Rill

import Rill.Proofs.Outward

/-!
# Bodies that keep to frames

A body is made of expressions and statements, each of which is evaluated in a frame.
`Engine.keepingTo` evaluates bodies as the engine of a depth does, but gives up at a part in a frame
that fails a test. Calls and imports run code that is no part of the body, so they are left to the
plain engine, whatever frames they come to.

A region of frames is entered by a body that starts in it and is not left again when frames made
inside belong to it, when the method frames of its `super` calls do, and when evaluation keeps it
(`Region`). In a region that passes the test both engines do the same (`Engine.keepingTo_agree`): the
test is never failed, which is to say that all parts of a body are evaluated inside.
-/

set_option autoImplicit false

namespace Rill

/-- A set of frames that bodies which start inside do not leave. -/
structure Region (inside : Heap → FrameId → Prop) : Prop where
  onward {heap next : Heap} {env : FrameId} (within : inside heap env)
    (onward : heap.Onward next) : inside next env
  child {heap : Heap} {env : FrameId} (within : inside heap env) :
    inside (Store.child env heap).2 heap.frames.size
  superMethod {heap : Heap} {env : FrameId} {name : Option String}
    {found : FrameId × String × Method} (within : inside heap env)
    (resolved : heap.superMethod name env = .ok found) :
    inside heap found.1 ∧ (heap.noted? found.1).isSome = true

namespace Job

/-- The frame in which an expression is evaluated or a statement is run. -/
def frame? {α : Type} : Job α → Option FrameId
  | .eval _ env | .exec _ env => some env
  | .call .. => none

/-- Whether a job runs code that is no part of the body it belongs to. -/
def leaves {α : Type} : Job α → Bool
  | .call .. | .exec (.import_ ..) _ => true
  | _ => false

end Job

/-- The engine of a depth, but one that gives up at a part of a body in a frame that fails a test. -/
def Engine.keepingTo (test : Heap → FrameId → Prop) [∀ heap env, Decidable (test heap env)]
    (loader : Option Loader) : Nat → Engine
  | 0 => ofDepth loader 0
  | depth + 1 =>
      { perform := fun job state =>
          if ∀ env ∈ job.frame?, test state.heap env then
            if job.leaves then (ofDepth loader depth).step job state
            else (keepingTo test loader depth).step job state
          else .spent
        passes := depth + 1
        loader }

/-- Two executions do the same from a heap on, and lead onward. -/
def Exec.AgreeFrom {α : Type} (heap : Heap) (x y : Exec α) : Prop :=
  ∀ state, state.heap = heap →
    x state = y state ∧ ∀ next, (x state).state? = some next → heap.Onward next.heap

namespace Exec.AgreeFrom

variable {α β : Type} {heap : Heap} {x y : Exec α} {f g : α → Exec β}

theorem refl (leads : ∀ state next, state.heap = heap → (x state).state? = some next →
    heap.Onward next.heap) : AgreeFrom heap x x :=
  fun state here => ⟨rfl, fun next left => leads state next here left⟩

theorem still (same : ∀ state next, (x state).state? = some next → next.heap = state.heap) :
    AgreeFrom heap x x := by
  apply refl
  intro state next here left
  rw [same state next left, here]
  exact .refl heap

theorem pure (a : α) : AgreeFrom heap (pure a) (pure a) := by
  apply still
  intro state next left
  cases left
  rfl

theorem throw (fault : Fault) : AgreeFrom heap (throw fault : Exec α) (throw fault) := by
  apply still
  intro state next left
  cases left
  rfl

theorem raise (cause : Cause) : AgreeFrom heap (raise cause : Exec α) (raise cause) := throw _

theorem spent : AgreeFrom heap (spent : Exec α) spent := by
  apply still
  intro state next left
  cases left

theorem settle (result : Except Fault α) : AgreeFrom heap (settle result) (settle result) := by
  cases result with
  | ok a => exact pure a
  | error fault => exact throw fault

theorem tick (kind : BreachKind) (pos : Position) : AgreeFrom heap (tick kind pos) (tick kind pos) := by
  apply still
  intro state next left
  unfold Exec.tick at left
  split at left <;> cases left <;> rfl

theorem bind (first : AgreeFrom heap x y)
    (second : ∀ a next, heap.Onward next → AgreeFrom next (f a) (g a)) :
    AgreeFrom heap (x >>= f) (y >>= g) := by
  intro state here
  obtain ⟨same, leads⟩ := first state here
  rw [bind_eq, bind_eq, ← same]
  cases ended : x state with
  | done a next =>
      have begun := leads next (by rw [ended]; rfl)
      obtain ⟨agree, further⟩ := second a next.heap begun next rfl
      exact ⟨agree, fun last left => begun.trans (further last left)⟩
  | fault fault next =>
      refine ⟨rfl, fun last left => ?_⟩
      cases left
      exact leads next (by rw [ended]; rfl)
  | spent => exact ⟨rfl, fun last left => by cases left⟩

theorem store {x : Store α} (leads : heap.Onward (x heap).2) : AgreeFrom heap (liftM x) (liftM x) := by
  apply refl
  intro state next here left
  subst here
  rw [store_state?] at left
  cases left
  exact leads

theorem ordinary {x : Store α} (ordinary : Store.Ordinary .unmoving x) :
    AgreeFrom heap (liftM x) (liftM x) :=
  store (ordinary.later heap).onward

theorem look {f : State → α} {g h : α → Exec β}
    (inner : ∀ state, state.heap = heap → AgreeFrom heap (g (f state)) (h (f state))) :
    AgreeFrom heap (read f >>= g) (read f >>= h) :=
  fun state here => inner state here state here

theorem after {x : Store α} {a : α} (ended : (x heap).1 = .ok a) (leads : heap.Onward (x heap).2)
    (inner : AgreeFrom (x heap).2 (f a) (g a)) : AgreeFrom heap (liftM x >>= f) (liftM x >>= g) := by
  intro state here
  subst here
  rw [bind_eq, bind_eq, store_eq]
  cases outcome : x state.heap with
  | mk result between =>
      rw [outcome] at ended leads inner
      cases ended
      obtain ⟨same, further⟩ := inner { state with heap := between } rfl
      exact ⟨same, fun next left => leads.trans (further next left)⟩

section Around

variable (inner : AgreeFrom heap x y)
include inner

theorem locate (pos : Position) : AgreeFrom heap (locate pos x) (locate pos y) := by
  intro state here
  obtain ⟨same, leads⟩ := inner state here
  rw [locate_eq, locate_eq, same]
  refine ⟨rfl, fun next left => leads next ?_⟩
  simpa [same] using left

theorem traced : AgreeFrom heap (traced x) (traced y) := by
  intro state here
  obtain ⟨same, leads⟩ := inner state here
  rw [traced_eq, traced_eq, same]
  refine ⟨rfl, fun next left => leads next ?_⟩
  simpa [same] using left

theorem attempt : AgreeFrom heap (attempt x) (attempt y) := by
  intro state here
  obtain ⟨same, leads⟩ := inner state here
  rw [attempt_eq, attempt_eq, same]
  refine ⟨rfl, fun next left => leads next ?_⟩
  simpa [same] using left

theorem called (name : String) (pos : Position) :
    AgreeFrom heap (called name pos x) (called name pos y) := by
  intro state here
  rw [called_eq, called_eq]
  cases state.limiter.enter name pos with
  | error breach limiter =>
      refine ⟨rfl, fun next left => ?_⟩
      cases left
      rw [here]
      exact .refl heap
  | ok granted limiter =>
      obtain ⟨same, leads⟩ := inner { state with limiter } here
      dsimp only
      rw [same] at leads ⊢
      refine ⟨rfl, fun next left => ?_⟩
      rw [Outcome.mapState_state?, Option.map_eq_some_iff] at left
      obtain ⟨last, left, rfl⟩ := left
      exact leads last left

end Around

theorem asMethod {x y : Exec α} {env : FrameId} (noted : (heap.noted? env).isSome = true)
    (method : MethodRef) (inner : ∀ next, heap.Onward next → AgreeFrom next x y) :
    AgreeFrom heap (asMethod env method x) (asMethod env method y) := by
  apply look
  intro state here
  apply bind (store (.setMethod heap env (some method) fun _ => rfl))
  intro _ told begun
  apply bind (inner told begun).attempt
  intro result last further
  have before : (state.heap.frames[env]?.bind Frame.method).isSome = true := by
    rw [here]
    exact noted
  apply bind (store (.setMethod last env _ fun _ => before))
  intro _ _ _
  exact settle result

theorem loop {pass other : Nat → Exec (Option Signal)} (passes index : Nat) (last : Value)
    (each : ∀ index next, heap.Onward next → AgreeFrom next (pass index) (other index)) :
    AgreeFrom heap (loop pass passes index last) (loop other passes index last) := by
  induction passes generalizing heap index last with
  | zero => exact spent
  | succ passes ih =>
      apply bind (each index heap (.refl heap))
      intro result next onward
      have others : ∀ index last, next.Onward last → AgreeFrom last (pass index) (other index) :=
        fun index last further => each index last (onward.trans further)
      cases result with
      | none => exact pure _
      | some signal =>
          cases signal with
          | normal value => exact ih (index + 1) value others
          | continue_ => exact ih (index + 1) last others
          | break_ => exact pure _
          | return_ value => exact pure _

end Exec.AgreeFrom

/-! ## Engines -/

/-- Two engines that do the same with every part of a body in a region, and with every call. -/
structure Engine.AgreeIn (inside : Heap → FrameId → Prop) (first second : Engine) : Prop where
  region : Region inside
  eval {heap : Heap} {env : FrameId} (within : inside heap env) (expr : Expr) :
    Exec.AgreeFrom heap (first.eval expr env) (second.eval expr env)
  exec {heap : Heap} {env : FrameId} (within : inside heap env) (stmt : Stmt) :
    Exec.AgreeFrom heap (first.exec stmt env) (second.exec stmt env)
  call (heap : Heap) (callee : Value) (args : List Value) (pos : Position) :
    Exec.AgreeFrom heap (first.call callee args pos) (second.call callee args pos)
  passes : first.passes = second.passes

namespace Engine.AgreeIn

open Exec.AgreeFrom

variable {inside : Heap → FrameId → Prop} {first second : Engine} {heap : Heap} {env : FrameId}
  (agree : Engine.AgreeIn inside first second)
include agree

theorem inner (within : inside heap env) {α : Type} {f g : FrameId → Exec α}
    (body : ∀ next frame, heap.Onward next → inside next frame →
      Exec.AgreeFrom next (f frame) (g frame)) :
    Exec.AgreeFrom heap (liftM (Store.child env) >>= f) (liftM (Store.child env) >>= g) := by
  apply after rfl (.child env heap)
  exact body _ _ (.child env heap) (agree.region.child within)

/-! ### Expressions -/

theorem evalOption (within : inside heap env) (expr : Option Expr) :
    Exec.AgreeFrom heap (first.evalOption expr env) (second.evalOption expr env) := by
  cases expr with
  | none => exact pure _
  | some expr => exact agree.eval within expr

theorem evalTemplate (within : inside heap env) (parts : List TemplatePart) (done : String) :
    Exec.AgreeFrom heap (first.evalTemplate env parts done) (second.evalTemplate env parts done) := by
  induction parts generalizing heap done with
  | nil => exact pure _
  | cons part rest ih =>
      cases part with
      | text text => exact ih within _
      | hole expr =>
          apply bind (agree.eval within expr)
          intro value next onward
          apply bind (ordinary (.display value))
          intro shown last further
          exact ih (agree.region.onward within (onward.trans further)) _

theorem evalItem (within : inside heap env) (item : Expr) :
    Exec.AgreeFrom heap (first.evalItem env item) (second.evalItem env item) := by
  cases item with
  | spread pos expr =>
      apply bind (agree.eval within expr)
      intro value next _
      exact (ordinary (.spreadItems value)).locate pos
  | _ => exact bind (agree.eval within _) fun value _ _ => pure _

theorem evalItems (within : inside heap env) (items : List Expr) (done : Array Value) :
    Exec.AgreeFrom heap (first.evalItems env items done) (second.evalItems env items done) := by
  induction items generalizing heap done with
  | nil => exact pure _
  | cons item rest ih =>
      apply bind (agree.evalItem within item)
      intro values next onward
      exact ih (agree.region.onward within onward) _

theorem evalArgs (within : inside heap env) (args : List Expr) :
    Exec.AgreeFrom heap (first.evalArgs args env) (second.evalArgs args env) :=
  bind (agree.evalItems within args #[]) fun _ _ _ => pure _

theorem evalKey (within : inside heap env) (key : Key) :
    Exec.AgreeFrom heap (first.evalKey env key) (second.evalKey env key) := by
  cases key with
  | name text => exact pure _
  | computed expr => exact bind (agree.eval within expr) fun value _ _ => ordinary (.keyText value)

theorem evalEntries (within : inside heap env) (entries : List Entry) (done : Fields Value) :
    Exec.AgreeFrom heap (first.evalEntries env entries done)
      (second.evalEntries env entries done) := by
  induction entries generalizing heap done with
  | nil => exact pure _
  | cons entry rest ih =>
      cases entry with
      | field key value =>
          apply bind (agree.evalKey within key)
          intro name next onward
          have there := agree.region.onward within onward
          apply bind (agree.eval there value)
          intro value last further
          exact ih (agree.region.onward there further) _
      | spread source =>
          apply bind (agree.eval within source)
          intro value next onward
          apply bind ((ordinary (.spreadFields value)).locate _)
          intro fields last further
          exact ih (agree.region.onward within (onward.trans further)) _

theorem evalBinary (within : inside heap env) (op : BinaryOp) (left right : Expr) :
    Exec.AgreeFrom heap (first.evalBinary op left right env)
      (second.evalBinary op left right env) := by
  apply bind (agree.eval within left)
  intro value next onward
  have there := agree.region.onward within onward
  cases op with
  | and | or | coalesce =>
      dsimp only
      split
      · first
          | exact agree.eval there right
          | exact pure value
      · first
          | exact agree.eval there right
          | exact pure value
  | pipe =>
      apply bind (agree.eval there right)
      intro callee last _
      exact agree.call last callee [value] right.pos
  | _ => exact bind (agree.eval there right) fun other _ _ => ordinary (.binary _ value other)

theorem evalSlots (within : inside heap env) (items : List Expr) (done : List (Option Value)) :
    Exec.AgreeFrom heap (first.evalSlots env items done) (second.evalSlots env items done) := by
  induction items generalizing heap done with
  | nil => exact pure _
  | cons item rest ih =>
      unfold Engine.evalSlots
      split
      · exact ih within _
      · apply bind (agree.evalItem within item)
        intro values next onward
        exact ih (agree.region.onward within onward) _

theorem apply (within : inside heap env) (callee : Value) (args : List Expr) (pos : Position) :
    Exec.AgreeFrom heap (first.apply callee args env pos) (second.apply callee args env pos) := by
  unfold Engine.apply
  split
  · split
    · apply bind (agree.evalSlots within args [])
      intro slots next _
      exact ordinary (.newNative _ (fun _ => trivial) fun _ _ => trivial)
    · exact (ordinary (.mismatch _)).locate pos
  · apply bind (agree.evalArgs within args)
    intro values next _
    exact agree.call next callee values pos

theorem evalMember (within : inside heap env) (object : Expr) (name : String) (optional : Bool)
    {use other : Store Value → Exec Value}
    (uses : ∀ value next, heap.Onward next →
      Exec.AgreeFrom next (use (Access.getMember value name)) (other (Access.getMember value name))) :
    Exec.AgreeFrom heap (first.evalMember object name optional env use)
      (second.evalMember object name optional env other) := by
  apply bind (agree.eval within object)
  intro value next onward
  split
  · exact pure _
  · exact uses value next onward

/-! ### Statements one after another, and calls of methods of parents -/

theorem execAll (within : inside heap env) (stmts : List Stmt) (last : Value) :
    Exec.AgreeFrom heap (first.execAll env stmts last) (second.execAll env stmts last) := by
  induction stmts generalizing heap last with
  | nil => exact pure _
  | cons stmt rest ih =>
      apply bind (agree.exec within stmt)
      intro signal next onward
      cases signal with
      | normal value => exact ih (agree.region.onward within onward) value
      | _ => exact pure _

theorem execBlock (within : inside heap env) (block : Block) :
    Exec.AgreeFrom heap (first.execBlock block env) (second.execBlock block env) := by
  apply agree.inner within
  intro next frame _ inside
  exact agree.execAll inside block.stmts .nil

theorem bindParams (within : inside heap env) (params : List Binding) (args : List Value) :
    Exec.AgreeFrom heap (first.bindParams env params args) (second.bindParams env params args) := by
  induction params generalizing heap args with
  | nil => exact pure _
  | cons param rest ih =>
      cases args with
      | cons arg args =>
          apply bind (ordinary (.define trivial param.name arg))
          intro _ next onward
          exact ih (agree.region.onward within onward) args
      | nil =>
          apply bind (agree.evalOption within param.value)
          intro value next onward
          apply bind (ordinary (.define trivial param.name value))
          intro _ last further
          exact ih (agree.region.onward within (onward.trans further)) []

theorem runBody (within : inside heap env) (body : Body) :
    Exec.AgreeFrom heap (first.runBody body env) (second.runBody body env) := by
  cases body with
  | value expr => exact agree.eval within expr
  | block block => exact bind (agree.execAll within block.stmts .nil) fun _ _ _ => pure _

theorem invoke (within : inside heap env) (fn : Function) (args : List Value) (pos : Position) :
    Exec.AgreeFrom heap (first.invoke fn env args pos) (second.invoke fn env args pos) := by
  apply locate
  apply called
  apply traced
  apply bind (agree.bindParams within fn.params args)
  intro _ next onward
  exact agree.runBody (agree.region.onward within onward) fn.body

theorem callSuper (within : inside heap env) (name : Option String) (args : List Value)
    (pos : Position) :
    Exec.AgreeFrom heap (first.callSuper name args env pos) (second.callSuper name args env pos) := by
  apply look
  intro state here
  subst here
  cases resolved : state.heap.superMethod name env with
  | error problem => exact (raise _).locate pos
  | ok found =>
      obtain ⟨frame, called, method⟩ := found
      obtain ⟨there, noted⟩ := agree.region.superMethod within resolved
      apply asMethod noted
      intro next onward
      exact agree.invoke (agree.region.onward there onward) method.fn args pos

theorem evalCall (within : inside heap env) (callee : Expr) (args : List Expr) (pos : Position) :
    Exec.AgreeFrom heap (first.evalCall callee args env pos)
      (second.evalCall callee args env pos) := by
  cases callee with
  | super_ at_ name =>
      apply bind (agree.evalArgs within args)
      intro values next onward
      exact agree.callSuper (agree.region.onward within onward) name values pos
  | member at_ object name optional =>
      simp only [Engine.evalCall]
      apply agree.evalMember within
      intro value next onward
      apply bind ((ordinary (.getMember value name)).locate at_)
      intro member last further
      exact agree.apply (agree.region.onward within (onward.trans further)) member args pos
  | _ =>
      apply bind (agree.eval within _)
      intro value next onward
      exact agree.apply (agree.region.onward within onward) value args pos

/-! ### Arms and comprehensions -/

theorem evalArms (within : inside heap env) (value : Value) (arms : List Arm) :
    Exec.AgreeFrom heap (first.evalArms value env arms) (second.evalArms value env arms) := by
  induction arms generalizing heap with
  | nil => exact look fun _ _ => raise _
  | cons arm rest ih =>
      apply agree.inner within
      intro next frame onward fresh
      have around := agree.region.onward within onward
      apply bind (ordinary (.matchBind trivial arm.pattern value))
      intro fitting last further
      have there := agree.region.onward fresh further
      have others := agree.region.onward around further
      split
      · split
        · exact agree.eval there arm.body
        · rename_i guard _
          apply bind (agree.eval there guard)
          intro answer final more
          split
          · exact agree.eval (agree.region.onward there more) arm.body
          · exact ih (agree.region.onward others more)
      · exact ih others

omit agree in
theorem foldlM {α σ : Type} {f g : σ → α → Exec σ} (items : List α) (done : σ)
    (steps : ∀ done item next, heap.Onward next → Exec.AgreeFrom next (f done item) (g done item)) :
    Exec.AgreeFrom heap (items.foldlM f done) (items.foldlM g done) := by
  induction items generalizing heap done with
  | nil => exact pure _
  | cons item rest ih =>
      simp only [List.foldlM_cons]
      apply bind (steps done item heap (.refl heap))
      intro made next onward
      apply ih
      intro done item last further
      exact steps done item last (onward.trans further)

theorem comprehend {σ : Type} {emit other : FrameId → σ → Exec σ} (pos : Position)
    (emits : ∀ heap frame done, inside heap frame →
      Exec.AgreeFrom heap (emit frame done) (other frame done))
    (clauses : List Clause) (within : inside heap env) (done : σ) :
    Exec.AgreeFrom heap (first.comprehend emit pos clauses env done)
      (second.comprehend other pos clauses env done) := by
  induction clauses generalizing heap env done with
  | nil => exact emits heap env done within
  | cons clause rest ih =>
      cases clause with
      | each name source =>
          apply bind (agree.eval within source)
          intro value next onward
          apply bind (ordinary (.elements value))
          intro items last further
          apply foldlM
          intro done item start more
          apply bind (tick .forIn pos)
          intro _ ready again
          have there := agree.region.onward within
            (onward.trans (further.trans (more.trans again)))
          apply agree.inner there
          intro made frame _ fresh
          apply bind (ordinary (.define trivial name item))
          intro _ bound defined
          exact ih (agree.region.onward fresh defined) done
      | only cond =>
          apply bind (agree.eval within cond)
          intro answer next onward
          split
          · exact ih (agree.region.onward within onward) done
          · exact pure _

theorem evalForm (within : inside heap env) (expr : Expr) :
    Exec.AgreeFrom heap (first.evalForm expr env) (second.evalForm expr env) := by
  cases expr with
  | literal pos literal => exact pure _
  | template pos parts => exact agree.evalTemplate within parts ""
  | ident pos name => exact ordinary (.get env name)
  | array pos items =>
      exact bind (agree.evalItems within items #[]) fun values _ _ => ordinary (.newArray values)
  | record pos entries =>
      exact bind (agree.evalEntries within entries .empty) fun fields _ _ =>
        ordinary (.newRecord fields)
  | binary pos op left right => exact agree.evalBinary within op left right
  | unary pos op operand =>
      exact bind (agree.eval within operand) fun value _ _ => ordinary (.unary op value)
  | ternary pos cond yes no =>
      apply bind (agree.eval within cond)
      intro answer next onward
      have there := agree.region.onward within onward
      split
      · exact agree.eval there yes
      · exact agree.eval there no
  | call pos callee args => exact agree.evalCall within callee args pos
  | member pos object name optional =>
      apply agree.evalMember within
      intro value next _
      exact ordinary (.getMember value name)
  | index pos object place =>
      apply bind (agree.eval within object)
      intro owner next onward
      apply bind (agree.eval (agree.region.onward within onward) place)
      intro key last _
      exact ordinary (.getIndex owner key)
  | function pos fn => exact ordinary (.newClosure _ trivial)
  | spread pos inner => exact ordinary (.mismatch _)
  | match_ pos subject arms =>
      apply bind (agree.eval within subject)
      intro value next onward
      exact agree.evalArms (agree.region.onward within onward) value arms
  | arrayOf pos element clauses =>
      refine bind (agree.comprehend pos ?_ clauses within #[]) fun items _ _ =>
        ordinary (.newArray items)
      intro heap frame done there
      exact bind (agree.eval there element) fun _ _ _ => pure _
  | recordOf pos key value clauses =>
      refine bind (agree.comprehend pos ?_ clauses within Fields.empty) fun fields _ _ =>
        ordinary (.newRecord fields)
      intro heap frame done there
      apply bind (agree.evalKey there (.computed key))
      intro name next onward
      exact bind (agree.eval (agree.region.onward there onward) value) fun _ _ _ => pure _
  | super_ pos name => exact ordinary (.newNative _ (fun _ => trivial) fun _ _ => trivial)

/-! ### Declarations and assignments -/

theorem declare (within : inside heap env) (constant : Bool) (bindings : List Binding) :
    Exec.AgreeFrom heap (first.declare constant env bindings)
      (second.declare constant env bindings) := by
  induction bindings generalizing heap with
  | nil => exact pure _
  | cons binding rest ih =>
      apply bind (agree.evalOption within binding.value)
      intro value next onward
      apply bind (ordinary (.declare trivial constant binding.name value))
      intro _ last further
      exact ih (agree.region.onward within (onward.trans further))

theorem assigned (within : inside heap env) (op : AssignOp) {current : Store Value}
    (reads : Store.Ordinary .unmoving current) (value : Expr) :
    Exec.AgreeFrom heap (first.assigned op current value env)
      (second.assigned op current value env) := by
  unfold Engine.assigned
  split
  · exact agree.eval within value
  · apply bind (ordinary reads)
    intro left next onward
    apply bind (agree.eval (agree.region.onward within onward) value)
    intro right last _
    exact ordinary (.binary _ left right)

theorem assign (within : inside heap env) (target : Expr) (op : AssignOp) (value : Expr) :
    Exec.AgreeFrom heap (first.assign target op value env) (second.assign target op value env) := by
  cases target with
  | ident pos name =>
      apply bind (agree.assigned within op (.get env name) value)
      intro result next _
      exact bind (ordinary (.update trivial env name result)) fun _ _ _ => pure _
  | member pos object name optional =>
      apply bind (agree.eval within object)
      intro owner next onward
      have there := agree.region.onward within onward
      apply bind (agree.assigned there op (.getMember owner name) value)
      intro result last _
      exact bind (ordinary (.setMember trivial owner name result)) fun _ _ _ => pure _
  | index pos object place =>
      apply bind (agree.eval within object)
      intro owner next onward
      have there := agree.region.onward within onward
      apply bind (agree.eval there place)
      intro key last further
      have then_ := agree.region.onward there further
      apply bind (agree.assigned then_ op (.getIndex owner key) value)
      intro result final _
      exact bind (ordinary (.setIndex trivial owner key result)) fun _ _ _ => pure _
  | _ => exact (ordinary (.mismatch _)).locate _

/-! ### Loops -/

theorem holds (within : inside heap env) (cond : Option Expr) :
    Exec.AgreeFrom heap (first.holds cond env) (second.holds cond env) := by
  cases cond with
  | none => exact pure _
  | some cond => exact bind (agree.eval within cond) fun _ _ _ => pure _

theorem pass (within : inside heap env) (kind : BreachKind) (cond : Option Expr) (body : Block)
    (pos : Position) :
    Exec.AgreeFrom heap (first.pass kind cond body env pos) (second.pass kind cond body env pos) := by
  apply bind (agree.holds within cond)
  intro answer next onward
  split
  · apply bind (tick kind pos)
    intro _ last further
    have there := agree.region.onward within (onward.trans further)
    exact bind (agree.execBlock there body) fun _ _ _ => pure _
  · exact pure _

theorem execOption (within : inside heap env) (stmt : Option Stmt) :
    Exec.AgreeFrom heap (first.execOption stmt env) (second.execOption stmt env) := by
  cases stmt with
  | none => exact pure _
  | some stmt => exact bind (agree.exec within stmt) fun _ _ _ => pure _

theorem execWhile (within : inside heap env) (cond : Expr) (body : Block) (pos : Position) :
    Exec.AgreeFrom heap (first.execWhile cond body env pos) (second.execWhile cond body env pos) := by
  unfold Engine.execWhile
  rw [agree.passes]
  apply loop
  intro index next onward
  exact agree.pass (agree.region.onward within onward) .whileLoop (some cond) body pos

theorem execFor (within : inside heap env) (init : Option Stmt) (cond : Option Expr)
    (post : Option Stmt) (body : Block) (pos : Position) :
    Exec.AgreeFrom heap (first.execFor init cond post body env pos)
      (second.execFor init cond post body env pos) := by
  unfold Engine.execFor
  rw [agree.passes]
  apply agree.inner within
  intro next frame _ fresh
  apply bind (agree.execOption fresh init)
  intro _ start onward
  apply loop
  intro index last further
  have there := agree.region.onward fresh (onward.trans further)
  split
  · apply bind (agree.execOption there post)
    intro _ final more
    exact agree.pass (agree.region.onward there more) .forLoop cond body pos
  · exact agree.pass there .forLoop cond body pos

theorem passOver (within : inside heap env) (name : String) (value : Value)
    (entries : Array (Value × Value)) (body : Block) (pos : Position) (index : Nat) :
    Exec.AgreeFrom heap (first.passOver name value entries body env pos index)
      (second.passOver name value entries body env pos index) := by
  apply bind (ordinary (.entryAt value entries index))
  intro entry next onward
  cases entry with
  | none => exact pure _
  | some entry =>
      obtain ⟨key, item⟩ := entry
      apply agree.inner (agree.region.onward within onward)
      intro made frame _ fresh
      have named : ∀ (key : String) (value : Value) (heap : Heap), inside heap frame →
          ∀ {α : Type} {x y : Exec α}, (∀ next, inside next frame → Exec.AgreeFrom next x y) →
            Exec.AgreeFrom heap (liftM (Store.define frame key value) >>= fun _ => x)
              (liftM (Store.define frame key value) >>= fun _ => y) := by
        intro key value heap there α x y rest
        apply bind (ordinary (.define trivial key value))
        intro _ last further
        exact rest last (agree.region.onward there further)
      apply named name key made fresh
      intro keyed there
      apply named "$k" key keyed there
      intro valued there
      apply named "$v" item valued there
      intro whole there
      apply named "$c" value whole there
      intro ready there
      apply bind (tick .forIn pos)
      intro _ granted further
      exact bind (agree.execAll (agree.region.onward there further) body.stmts .nil)
        fun _ _ _ => pure _

theorem execForIn (within : inside heap env) (name : String) (source : Expr) (body : Block)
    (pos : Position) :
    Exec.AgreeFrom heap (first.execForIn name source body env pos)
      (second.execForIn name source body env pos) := by
  unfold Engine.execForIn
  rw [agree.passes]
  apply bind (agree.eval within source)
  intro value next onward
  apply bind (ordinary (.entries value))
  intro entries start further
  apply loop
  intro index last more
  have there := agree.region.onward within (onward.trans (further.trans more))
  exact agree.passOver there name value entries body pos index

/-! ### Handlers -/

theorem handle (within : inside heap env) (handler : Handler) (fault : Fault) :
    Exec.AgreeFrom heap (first.handle handler fault env) (second.handle handler fault env) := by
  apply agree.inner within
  intro next frame _ fresh
  apply bind (ordinary (.caught fault))
  intro value last onward
  apply bind (ordinary (.define trivial handler.name value))
  intro _ final further
  exact agree.execAll (agree.region.onward fresh (onward.trans further)) handler.body.stmts .nil

theorem execGuarded (within : inside heap env) (body : Block) (handler : Option Handler) :
    Exec.AgreeFrom heap (first.execGuarded body handler env)
      (second.execGuarded body handler env) := by
  apply bind (agree.execBlock within body).attempt
  intro result next onward
  split
  · exact agree.handle (agree.region.onward within onward) _ _
  · exact settle _

theorem execTry (within : inside heap env) (body : Block) (handler : Option Handler)
    (cleanup : Option Block) :
    Exec.AgreeFrom heap (first.execTry body handler cleanup env)
      (second.execTry body handler cleanup env) := by
  have guarded := agree.execGuarded within body handler
  cases cleanup with
  | none => exact guarded
  | some cleanup =>
      apply bind guarded.attempt
      intro result next onward
      apply bind (agree.execBlock (agree.region.onward within onward) cleanup)
      intro signal last _
      cases signal with
      | normal value => exact settle result
      | _ => exact pure _

/-! ### Statements and jobs -/

theorem execForm (within : inside heap env) (stmt : Stmt)
    (own : (Job.exec stmt env).leaves = false) :
    Exec.AgreeFrom heap (first.execForm stmt env) (second.execForm stmt env) := by
  cases stmt with
  | expr pos value => exact bind (agree.eval within value) fun _ _ _ => pure _
  | declare pos constant bindings =>
      exact bind (agree.declare within constant bindings) fun _ _ _ => pure _
  | destructure pos constant names value =>
      apply bind (agree.eval within value)
      intro value next _
      apply bind (ordinary (.parts names value))
      intro parts last _
      exact bind (ordinary (.declareAll trivial constant parts)) fun _ _ _ => pure _
  | assign pos target op value =>
      exact bind (agree.assign within target op value) fun _ _ _ => pure _
  | function pos fn =>
      apply bind (ordinary (.newClosure _ trivial))
      intro closure next _
      exact bind (ordinary (.set trivial fn.label closure)) fun _ _ _ => pure _
  | class_ pos decl =>
      have members : Permits.unmoving.Class decl :=
        ⟨fun _ _ _ _ => trivial, fun _ _ => trivial⟩
      exact bind (ordinary (.declareClass trivial decl members)) fun _ _ _ => pure _
  | if_ pos cond yes no =>
      apply bind (agree.eval within cond)
      intro answer next onward
      have there := agree.region.onward within onward
      split
      · exact agree.execBlock there yes
      · cases no with
        | none => exact pure _
        | some branch => exact agree.exec there branch
  | while_ pos cond body => exact agree.execWhile within cond body pos
  | for_ pos init cond post body => exact agree.execFor within init cond post body pos
  | forIn pos name source body => exact agree.execForIn within name source body pos
  | block pos block => exact agree.execBlock within block
  | return_ pos value => exact bind (agree.evalOption within value) fun _ _ _ => pure _
  | break_ pos => exact pure _
  | continue_ pos => exact pure _
  | try_ pos body handler cleanup => exact agree.execTry within body handler cleanup
  | throw_ pos value =>
      apply bind (agree.eval within value)
      intro value next _
      apply bind (ordinary (.display value))
      intro shown last _
      exact (raise _).traced.locate pos
  | import_ pos path name => cases own

theorem step {α : Type} (job : Job α) (own : job.leaves = false)
    (within : ∀ env ∈ job.frame?, inside heap env) :
    Exec.AgreeFrom heap (first.step job) (second.step job) := by
  cases job with
  | eval expr env => exact (agree.evalForm (within env rfl) expr).locate expr.pos
  | exec stmt env => exact (agree.execForm (within env rfl) stmt own).locate stmt.pos
  | call callee args pos => cases own

theorem callClosure (closure : Closure)
    (enters : inside
      (Store.setMethod heap.frames.size closure.method (Store.child closure.env heap).2).2
      heap.frames.size) (args : List Value) (pos : Position) :
    Exec.AgreeFrom heap (first.callClosure closure args pos)
      (second.callClosure closure args pos) := by
  have fresh : (Store.child closure.env heap).2.noted? heap.frames.size = none := by
    simp [Heap.noted?, Store.child]
  apply after rfl (.child closure.env heap)
  apply after rfl (.setMethod _ _ _ (by simp [fresh]))
  exact agree.invoke enters closure.fn args pos

end Engine.AgreeIn

namespace Engine

theorem perform_onward (loader : Option Loader) (depth : Nat) {α : Type} (job : Job α)
    (heap : Heap) :
    Exec.AgreeFrom heap ((ofDepth loader depth).perform job) ((ofDepth loader depth).perform job) := by
  apply Exec.AgreeFrom.refl
  intro state next here left
  subst here
  cases job with
  | eval expr env => exact (fulfil_later loader depth (.eval expr env) left).onward
  | exec stmt env => exact (fulfil_later loader depth (.exec stmt env) left).onward
  | call callee args pos => exact (fulfil_later loader depth (.call callee args pos) left).onward

section Keeping

variable {inside test : Heap → FrameId → Prop} [∀ heap env, Decidable (test heap env)]
  (loader : Option Loader)

theorem keepingTo_perform (depth : Nat) {α : Type} {job : Job α} {state : State}
    (passed : ∀ env ∈ job.frame?, test state.heap env) :
    (keepingTo test loader (depth + 1)).perform job state
      = if job.leaves then (ofDepth loader depth).step job state
        else (keepingTo test loader depth).step job state :=
  if_pos passed

/-- A body that starts in a region does not leave it: an engine that gives up outside does with it
what the plain engine does. -/
theorem keepingTo_agree (region : Region inside)
    (passes : ∀ heap env, inside heap env → test heap env) (depth : Nat) :
    Engine.AgreeIn inside (keepingTo test loader depth) (ofDepth loader depth) := by
  induction depth with
  | zero =>
      exact ⟨region, fun _ expr => perform_onward loader 0 (.eval expr _) _,
        fun _ stmt => perform_onward loader 0 (.exec stmt _) _,
        fun heap callee args pos => perform_onward loader 0 (.call callee args pos) heap, rfl⟩
  | succ depth ih =>
      have jobs : ∀ {α : Type} (job : Job α) (heap : Heap),
          (∀ env ∈ job.frame?, inside heap env) →
            Exec.AgreeFrom heap ((keepingTo test loader (depth + 1)).perform job)
              ((ofDepth loader (depth + 1)).perform job) := by
        intro α job heap within state here
        subst here
        have passed : ∀ env ∈ job.frame?, test state.heap env :=
          fun env member => passes _ env (within env member)
        rw [keepingTo_perform loader depth passed]
        cases own : job.leaves with
        | true =>
            have plain := perform_onward loader (depth + 1) job state.heap state rfl
            rw [perform_succ] at plain ⊢
            exact plain
        | false =>
            rw [perform_succ]
            exact ih.step job own within state rfl
      have inner : ∀ {heap : Heap} {env : FrameId}, inside heap env →
          ∀ other ∈ some env, inside heap other := by
        intro heap env within other member
        cases member
        exact within
      exact ⟨region, fun within expr => jobs (.eval expr _) _ (inner within),
        fun within stmt => jobs (.exec stmt _) _ (inner within),
        fun heap callee args pos => jobs (.call callee args pos) heap (by simp [Job.frame?]), rfl⟩

end Keeping

end Engine

end Rill

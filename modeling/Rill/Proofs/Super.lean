import Rill.Proofs.Scope
import Rill.Proofs.Via

/-!
# What `super` means

A `super` call runs what the parent of a blueprint holds under a name, and which blueprint that is
depends on the method noted in the nearest frame in which a method is noted. A call of a method
notes the method and the blueprint that declares it in a frame of its own, and that note stands
there for good, but for the time in which a parent's method runs in the same frame.

As long as it stands, `super` is what the declaration of the method makes it, wherever in the body
or in functions made there it is written and whoever calls these: the engine ends as one does that
does not look at the note at all (`super_by_declaration`). While a parent's method runs in the
frame, the same holds with that method in place of the other. A function that one of the two methods
has made and that is called while the other one runs is therefore taken to be a part of the latter.
-/

set_option autoImplicit false

namespace Rill

namespace Heap

variable {heap : Heap} {env frame : FrameId} {running : MethodRef} {name : Option String}

/-- What the parent of the blueprint that declares a method holds under a name, or under the name of
the method when there is no other. -/
def inParent (heap : Heap) (running : MethodRef) (name : Option String) :
    Except SuperProblem (String × Method) :=
  let name := name.getD running.name
  match heap.blueprints[running.owner]?.bind Blueprint.parent with
  | none => .error (.noParent (heap.blueprintName running.owner))
  | some parent =>
      match heap.blueprints[parent]?.bind (·.methods.get? name) with
      | none => .error (.noMethod (heap.blueprintName parent) name)
      | some method => .ok (name, method)

/-- There is something to run if and only if there is a parent and it holds such a method. -/
theorem inParent_ok_iff {called : String} {method : Method} :
    heap.inParent running name = .ok (called, method) ↔
      called = name.getD running.name ∧ ∃ owner parent above,
        heap.blueprints[running.owner]? = some owner ∧ owner.parent = some parent ∧
          heap.blueprints[parent]? = some above ∧ above.methods.get? called = some method := by
  unfold inParent
  dsimp only
  constructor
  · intro resolved
    split at resolved
    · cases resolved
    · rename_i parent declared
      split at resolved
      · cases resolved
      · rename_i held
        cases resolved
        obtain ⟨owner, declares, extends_⟩ := Option.bind_eq_some_iff.mp declared
        obtain ⟨above, there, entry⟩ := Option.bind_eq_some_iff.mp held
        exact ⟨rfl, owner, parent, above, declares, extends_, there, entry⟩
  · rintro ⟨rfl, owner, parent, above, declares, extends_, there, entry⟩
    simp [declares, extends_, there, entry]

theorem methodFrame?_noted (nearest : heap.methodFrame? env = some (frame, running)) :
    heap.noted? frame = some running := by
  unfold Heap.methodFrame? at nearest
  split at nearest
  · cases nearest
  · rename_i found _
    split at nearest
    · rename_i told there
      obtain ⟨method, own, same⟩ := Option.map_eq_some_iff.mp nearest
      cases same
      rw [noted?, there]
      exact own
    · cases nearest

theorem superMethod_eq (heap : Heap) (name : Option String) (env : FrameId) :
    heap.superMethod name env = match heap.methodFrame? env with
      | none => .error .outsideMethod
      | some (frame, running) =>
          (heap.inParent running name).map fun found => (frame, found.1, found.2) := by
  unfold superMethod inParent
  cases heap.methodFrame? env with
  | none => rfl
  | some found =>
      obtain ⟨frame, running⟩ := found
      dsimp only
      cases heap.blueprints[running.owner]?.bind Blueprint.parent with
      | none => rfl
      | some parent =>
          dsimp only
          cases heap.blueprints[parent]?.bind (·.methods.get? (name.getD running.name)) with
          | none | some => rfl

theorem superMethod_noted {called : String} {method : Method}
    (resolved : heap.superMethod name env = .ok (frame, called, method)) :
    ∃ running, heap.methodFrame? env = some (frame, running) ∧
      heap.inParent running name = .ok (called, method) := by
  rw [superMethod_eq] at resolved
  split at resolved
  · cases resolved
  · rename_i place running nearest
    cases held : heap.inParent running name with
    | error problem =>
        rw [held] at resolved
        cases resolved
    | ok found =>
        rw [held] at resolved
        cases resolved
        exact ⟨running, nearest, held⟩

end Heap

namespace Engine

/-- Make a `super` call of a method that runs in one frame by its declaration, without a look at the
note in that frame. -/
def byDeclaration (home : FrameId) (running : MethodRef) (engine ordinary : Engine) : SuperWay :=
  fun name args env pos => do
    match ← Exec.read (·.heap.methodFrame? env) with
    | some (frame, _) =>
        if frame = home then
          match ← Exec.read (·.heap.inParent running name) with
          | .error problem => Exec.locate pos (Exec.raise (.badSuper problem))
          | .ok (called, method) =>
              Exec.asMethod home ⟨method.owner, called⟩ (ordinary.invoke method.fn home args pos)
        else engine.callSuper name args env pos
    | none => engine.callSuper name args env pos

/-- The engine that takes all `super` calls of one frame for calls of one method. What a parent's
method does while it runs in the frame is left to the engine of the evaluator. -/
def declared (home : FrameId) (running : MethodRef) : Option Loader → Nat → Engine :=
  via (byDeclaration home running)

theorem callSuper_eq (engine : Engine) (name : Option String) (args : List Value) (env : FrameId)
    (pos : Position) (state : State) :
    engine.callSuper name args env pos state = match state.heap.superMethod name env with
      | .error problem => Exec.locate pos (Exec.raise (.badSuper problem)) state
      | .ok (frame, called, method) =>
          Exec.asMethod frame ⟨method.owner, called⟩ (engine.invoke method.fn frame args pos)
            state := by
  unfold callSuper
  rw [Exec.bind_eq]
  simp only [Exec.read]
  cases state.heap.superMethod name env <;> rfl

end Engine

namespace SameWhile

variable {home : FrameId} {note : Option MethodRef} {first second : Engine} {state : State}
variable {name : Option String} {args : List Value} {env : FrameId} {pos : Position}

theorem callSuper_elsewhere (related : EnginesRelated (SameWhile home note) first second)
    (notes : state.heap.Notes home note)
    (elsewhere : ∀ found, state.heap.superMethod name env = .ok found → found.1 ≠ home)
    (ended : first.callSuper name args env pos state ≠ .spent) :
    second.callSuper name args env pos state = first.callSuper name args env pos state ∧
      ∀ next, (first.callSuper name args env pos state).state? = some next →
        next.heap.Notes home note := by
  rw [Engine.callSuper_eq] at ended ⊢
  rw [Engine.callSuper_eq]
  cases resolved : state.heap.superMethod name env with
  | error problem =>
      refine ⟨rfl, fun next left => ?_⟩
      cases left
      exact notes
  | ok found =>
      obtain ⟨frame, called, method⟩ := found
      rw [resolved] at ended
      exact during (elsewhere _ resolved) _ (invoke related method.fn frame args pos) state notes
        ended

end SameWhile

namespace Engine

variable (home : FrameId) (running : MethodRef) (loader : Option Loader) (depth : Nat)

theorem callSuper_notes {name : Option String}
    {args : List Value} {env : FrameId} {pos : Position} {state next : State}
    (noted : state.heap.noted? home = some running)
    (left : ((ofDepth loader depth).callSuper name args env pos state).state? = some next) :
    next.heap.Notes home (some running) := by
  have later := fulfil_later loader depth (.callSuper name args env pos) left
  have still := (later.stays home).noted? noted
  exact ⟨Heap.size_of_noted? still, still⟩

theorem declared_sameWhile :
    EnginesRelated (SameWhile home (some running)) (ofDepth loader depth)
      (declared home running loader depth) := by
  refine via_sameWhile (fun depth related name args env pos state notes ended => ?_) depth
  have unlike (elsewhere : ∀ found, state.heap.superMethod name env = .ok found → found.1 ≠ home) :=
    SameWhile.callSuper_elsewhere related notes elsewhere ended
  unfold byDeclaration
  rw [Exec.bind_eq]
  simp only [Exec.read]
  cases nearest : state.heap.methodFrame? env with
  | none =>
      refine unlike fun found resolved => ?_
      rw [Heap.superMethod_eq, nearest] at resolved
      cases resolved
  | some found =>
      obtain ⟨frame, method⟩ := found
      by_cases here : frame = home
      · -- The note that is found is the one that stands there, so both ways ask the same parent.
        subst here
        have same : method = running :=
          Option.some.inj ((Heap.methodFrame?_noted nearest).symm.trans notes.2)
        subst same
        simp only [if_true]
        refine ⟨?_, fun next left =>
          callSuper_notes frame method loader depth notes.2 left⟩
        rw [Exec.bind_eq, callSuper_eq, Heap.superMethod_eq, nearest]
        simp only [Exec.read]
        cases state.heap.inParent method name <;> rfl
      · simp only [if_neg here]
        refine unlike fun found resolved => ?_
        obtain ⟨running, again, -⟩ := Heap.superMethod_noted resolved
        rw [nearest] at again
        cases again
        exact here

end Engine

/-- `super` is resolved by the declaration of a method from the moment on at which the method is
noted in a frame: whatever job is done while the note stands, in the body or in functions made
there, ends as if the note were not looked at, and leaves the note where it is. A call of a method
notes it in a new frame, and a `super` call notes the method it runs in the frame it was found in,
for as long as that method runs. What is called is what the parent of the declaring blueprint holds
under the name, and nothing is if there is no parent or it holds no such method. -/
theorem super_by_declaration (loader : Option Loader) (depth : Nat) :
    (∀ (heap : Heap) (running : MethodRef) (name : Option String) (called : String)
        (method : Method), heap.inParent running name = .ok (called, method) ↔
      called = name.getD running.name ∧ ∃ owner parent above,
        heap.blueprints[running.owner]? = some owner ∧ owner.parent = some parent ∧
          heap.blueprints[parent]? = some above ∧ above.methods.get? called = some method) ∧
    (∀ (home : FrameId) (running : MethodRef) {α : Type} (job : Job α) (state : State),
      state.heap.noted? home = some running →
      (Engine.ofDepth loader depth).perform job state ≠ .spent →
        (Engine.declared home running loader depth).perform job state
          = (Engine.ofDepth loader depth).perform job state ∧
        ∀ next, ((Engine.ofDepth loader depth).perform job state).state? = some next →
          next.heap.noted? home = some running) ∧
    (∀ (closure : Closure) (running : MethodRef) (args : List Value) (pos : Position)
        (state : State), closure.method = some running →
      (Engine.ofDepth loader depth).callClosure closure args pos state ≠ .spent →
        (Engine.declared state.heap.frames.size running loader depth).callClosure closure args pos
          state = (Engine.ofDepth loader depth).callClosure closure args pos state ∧
        ∀ next, ((Engine.ofDepth loader depth).callClosure closure args pos state).state?
            = some next →
          next.heap.noted? state.heap.frames.size = some running) ∧
    ∀ (name : Option String) (args : List Value) (env : FrameId) (pos : Position) (state : State)
        (frame : FrameId) (called : String) (method : Method),
      state.heap.superMethod name env = .ok (frame, called, method) →
      (Engine.ofDepth loader depth).callSuper name args env pos state ≠ .spent →
        (Engine.ofDepth loader depth).callSuper name args env pos state
          = Exec.asMethod frame ⟨method.owner, called⟩
              ((Engine.declared frame ⟨method.owner, called⟩ loader depth).invoke method.fn frame
                args pos) state := by
  refine ⟨fun heap running name called method => Heap.inParent_ok_iff,
    fun home running α job state noted ended => ?_,
    fun closure running args pos state own ended => ?_,
    fun name args env pos state frame called method resolved ended => ?_⟩
  · have related := Engine.declared_sameWhile home running loader depth
    obtain ⟨same, kept⟩ := related.jobs job state ⟨Heap.size_of_noted? noted, noted⟩ ended
    exact ⟨same, fun next left => (kept next left).2⟩
  · have related := Engine.declared_sameWhile state.heap.frames.size running loader depth
    -- Inside the call, the note stands in the new frame from the beginning.
    let heap := (Store.setMethod state.heap.frames.size closure.method
      (Store.child closure.env state.heap).2).2
    have notes : heap.Notes state.heap.frames.size (some running) := by
      refine ⟨by simp [heap], ?_⟩
      rw [← own]
      exact Heap.noted?_setMethod_self (by simp) _
    obtain ⟨same, kept⟩ := SameWhile.invoke related closure.fn state.heap.frames.size args pos
      { state with heap } notes ended
    exact ⟨same, fun next left => (kept next left).2⟩
  · have related := Engine.declared_sameWhile frame ⟨method.owner, called⟩ loader depth
    obtain ⟨running, nearest, -⟩ := Heap.superMethod_noted resolved
    have old := Heap.size_of_noted? (Heap.methodFrame?_noted nearest)
    -- While the method of the parent runs, its own note stands in the frame.
    let heap := (Store.setMethod frame (some ⟨method.owner, called⟩) state.heap).2
    have notes : heap.Notes frame (some ⟨method.owner, called⟩) :=
      ⟨by simpa [heap] using old,
        Heap.noted?_setMethod_self old _⟩
    simp only [Engine.callSuper_eq, resolved] at ended ⊢
    rw [Exec.asMethod_eq] at ended ⊢
    rw [Exec.asMethod_eq]
    have begun : (Engine.ofDepth loader depth).invoke method.fn frame args pos
        { state with heap } ≠ .spent := Outcome.ended_of_made rfl ended
    rw [(SameWhile.invoke related method.fn frame args pos { state with heap } notes begun).1]

def Method.greets : Method :=
  ⟨⟨some "m", [], .value (.literal .unknown (.text "A")), .unknown⟩, 0⟩

def Method.asks : Method :=
  ⟨⟨some "m", [], .value (.call .unknown (.super_ .unknown (some "m")) []), .unknown⟩, 1⟩

/-- The heap after a class `A` and a class `B` that extends it, each with one of these methods,
while that of `B` runs in the second frame. -/
def Heap.chain : Heap :=
  { empty with
    frames := #[⟨.empty, none, ".", none⟩, ⟨.empty, some 0, ".", some ⟨1, "m"⟩⟩]
    blueprints := #[⟨"A", none, .empty, ⟨[("m", .greets)]⟩, 0⟩,
      ⟨"B", some 0, .empty, ⟨[("m", .asks)]⟩, 0⟩] }

theorem Heap.chain_superMethod :
    Heap.chain.superMethod (some "m") 1 = .ok (1, "m", .greets) := by
  have nearest : Heap.chain.methodFrame? 1 = some (1, ⟨1, "m"⟩) := methodFrame?_here rfl rfl
  rw [superMethod_eq, nearest]
  rfl

/-- A `super` call, a call of the method that makes it, and what it calls. -/
theorem super_by_declaration_chain :
    let state : State := .ofHeap .chain
    let call : Job Value := .eval (.call .unknown (.super_ .unknown (some "m")) []) 1
    let closure : Closure := ⟨Method.asks.fn, 0, some ⟨1, "m"⟩⟩
    (Engine.declared 1 ⟨1, "m"⟩ none 3).perform call state
        = (Engine.ofDepth none 3).perform call state ∧
      (Engine.declared state.heap.frames.size ⟨1, "m"⟩ none 3).callClosure closure [] .unknown state
        = (Engine.ofDepth none 3).callClosure closure [] .unknown state ∧
      (Engine.ofDepth none 3).callSuper (some "m") [] 1 .unknown state
        = Exec.asMethod 1 ⟨Method.greets.owner, "m"⟩
            ((Engine.declared 1 ⟨Method.greets.owner, "m"⟩ none 3).invoke Method.greets.fn 1 []
              .unknown) state := by
  intro state call closure
  obtain ⟨-, jobs, calls, supers⟩ := super_by_declaration none 3
  have evaluated : ((Engine.ofDepth none 3).perform call state).isSpent = false := by
    decide +kernel
  have entered : ((Engine.ofDepth none 3).callClosure closure [] .unknown state).isSpent
      = false := by decide +kernel
  have asked : ((Engine.ofDepth none 3).callSuper (some "m") [] 1 .unknown state).isSpent
      = false := by decide +kernel
  refine ⟨?_, ?_, ?_⟩
  · exact (jobs 1 ⟨1, "m"⟩ call state rfl (Outcome.isSpent_eq_false_iff.mp evaluated)).1
  · exact (calls closure ⟨1, "m"⟩ [] .unknown state rfl
      (Outcome.isSpent_eq_false_iff.mp entered)).1
  · exact supers (some "m") [] 1 .unknown state 1 "m" .greets Heap.chain_superMethod
      (Outcome.isSpent_eq_false_iff.mp asked)

end Rill

import Rill.Proofs.CallGate
import Rill.Proofs.Keeping

/-!
# Where the names of a method come from

A method of an instance was made in the frame of the instance, and that frame hangs off the frame in
which the class of the instance was declared. What is neither local to the body nor a member of the
instance is therefore looked up where the class of the instance was declared, and imports start from
the directory of that frame: all parts of the body are evaluated in frames that see names as that
frame does (`method_scope`). Which class declares the method makes no difference: a method that is
inherited does not see the names around the class it comes from (`method_scope_not_of_owner`).
-/

set_option autoImplicit false

namespace Rill

namespace Heap

variable {heap next : Heap} {home frame env : FrameId} {passed : List FrameId} {name : String}

/-! ## What is seen from a frame -/

/-- No frame on the way to an instance, nor the frame of the instance, holds a name. -/
def Free (heap : Heap) (frame : FrameId) (passed : List FrameId) (name : String) : Prop :=
  ∀ inner ∈ frame :: passed, heap.localVariable? inner name = none

/-- A frame lies inside that of an instance, and sees free names where another frame sees them;
imports start from the same directory. -/
structure SeesAs (heap : Heap) (home frame env : FrameId) (passed : List FrameId) : Prop where
  way : heap.Outward frame env passed
  names {name : String} (free : heap.Free frame passed name) :
    heap.holder? env name = heap.holder? home name
  dir : heap.dir env = heap.dir home

theorem Outward.seesAs (way : heap.Outward frame env passed)
    (declared : heap.Outward home frame [frame]) : heap.SeesAs home frame env passed where
  way := way
  names {name} free := by
    apply (way.append declared).holder?_eq
    intro inner member
    apply free inner
    simpa [or_comm] using member
  dir := (way.append declared).dir_eq

/-- The functions that make up the code of the methods of an instance: the methods, which were made
in its frame, and what was made in a frame in which a part of a body runs. -/
inductive BodyOf (heap : Heap) (frame : FrameId) : Closure → Prop where
  | method (fn : Function) (method : MethodRef) : BodyOf heap frame ⟨fn, frame, some method⟩
  | inner {closure : Closure} (within : heap.InBody frame closure.env) : BodyOf heap frame closure

theorem BodyOf.enters {closure : Closure} (body : heap.BodyOf frame closure)
    (old : frame < heap.frames.size) :
    (Store.setMethod heap.frames.size closure.method (Store.child closure.env heap).2).2.InBody
      frame heap.frames.size := by
  cases body with
  | method fn method => exact .of_call old method
  | inner within =>
      apply within.child.onward
      apply Onward.setMethod
      intro noted
      simp [noted?, Store.child] at noted

end Heap

def Engine.importFound (engine : Engine) (found : Except ImportProblem Module)
    (name : Option String) (env : FrameId) : Exec Unit := do
  match found with
  | .error problem => Exec.raise (.badImport problem)
  | .ok found =>
      let frame ← engine.openModule found env
      Exec.bindExports name env frame

theorem Engine.importModule_found (engine : Engine) {loader : Loader}
    (given : engine.loader = some loader) (path : String) (name : Option String) (env : FrameId)
    (state : State) :
    engine.importModule path name env state
      = engine.importFound (loader (state.heap.dir env) path) name env state := by
  simp only [Engine.importModule, given, Exec.bind_eq, Exec.read]
  cases loader (state.heap.dir env) path <;> rfl

/-- What the evaluator looks up from one frame it finds as if it looked from another one: variables
whose names are free, for reading, for a class to extend and for writing, and modules. -/
structure Engine.ResolvesAs (engine : Engine) (state : State) (home env : FrameId)
    (free : String → Prop) : Prop where
  ident {name : String} (unbound : free name) (pos : Position) :
    engine.evalStep (.ident pos name) env state = engine.evalStep (.ident pos name) home state
  extends_ {decl : ClassDecl} (unbound : ∀ name ∈ decl.parent, free name) :
    Store.parentOf decl env state.heap = Store.parentOf decl home state.heap
  update {name : String} (unbound : free name) (value : Value) :
    Store.update env name value state.heap = Store.update home name value state.heap
  importModule {loader : Loader} (given : engine.loader = some loader) (path : String)
      (name : Option String) :
    engine.importModule path name env state
      = engine.importFound (loader (state.heap.dir home) path) name env state

theorem Store.get_congr {heap : Heap} {env home : FrameId} {name : String}
    (same : heap.holder? env name = heap.holder? home name) :
    Store.get env name heap = Store.get home name heap := by
  simp only [Store.get, read_bind, Heap.get?, Heap.lookup?, same]

theorem Heap.SeesAs.resolvesAs {state : State} {home frame env : FrameId} {passed : List FrameId}
    (sees : state.heap.SeesAs home frame env passed) (engine : Engine) :
    engine.ResolvesAs state home env (state.heap.Free frame passed) where
  ident {name} unbound pos := by
    simp only [Engine.evalStep, Engine.evalForm, Exec.locate_eq, Exec.store_eq,
      Store.get_congr (sees.names unbound)]
  extends_ {decl} unbound := by
    unfold Store.parentOf
    cases above : decl.parent with
    | none => rfl
    | some name =>
        have free := unbound name (by simp [above])
        simp only [Store.bind_eq, Store.get_congr (sees.names free)]
  update {name} unbound value := by
    rw [Store.update_eq, Store.update_eq, sees.names unbound]
  importModule {loader} given path name := by
    rw [engine.importModule_found given, sees.dir]

/-! ## Making instances -/

/-- An instance of a blueprint: its methods were made in its frame, and its frame in the one in
which the blueprint was declared. -/
structure Heap.Furnished (heap : Heap) (id : BlueprintId) (blueprint : Blueprint) (object : Nat)
    (frame : FrameId) : Prop where
  object : heap.objects[object]? = some ⟨id, frame⟩
  methods : ∀ entry ∈ blueprint.methods.entries, ∃ closure : Nat, heap.closures[closure]?
    = some ⟨entry.2.fn, frame, some ⟨entry.2.owner, entry.2.fn.label⟩⟩
  declared : heap.Outward blueprint.env frame [frame]

theorem Heap.Furnished.onward {heap next : Heap} {id : BlueprintId} {blueprint : Blueprint}
    {object : Nat} {frame : FrameId} (furnished : heap.Furnished id blueprint object frame)
    (onward : heap.Onward next) : next.Furnished id blueprint object frame where
  object := onward.object furnished.object
  methods entry member := by
    obtain ⟨closure, found⟩ := furnished.methods entry member
    exact ⟨closure, onward.closure found⟩
  declared := furnished.declared.onward onward

theorem Store.defineMethods_eq (frame : FrameId) (methods : List (String × Method)) (heap : Heap) :
    ∃ next, defineMethods frame methods heap = (.ok (), next) ∧
      ∀ entry ∈ methods, ∃ closure : Nat, next.closures[closure]?
        = some ⟨entry.2.fn, frame, some ⟨entry.2.owner, entry.2.fn.label⟩⟩ := by
  induction methods generalizing heap with
  | nil => exact ⟨heap, rfl, by simp⟩
  | cons entry rest ih =>
      obtain ⟨name, method⟩ := entry
      let made : Heap := { heap with
        closures := heap.closures.push ⟨method.fn, frame, some ⟨method.owner, method.fn.label⟩⟩ }
      let bound := made.bind frame name ⟨.closure heap.closures.size, false⟩
      obtain ⟨next, ran, others⟩ := ih bound
      refine ⟨next, ran, ?_⟩
      have later : bound.Later next := by
        have ordinary : Ordinary .unmoving (defineMethods frame rest) :=
          .defineMethods trivial rest fun _ _ => trivial
        have lasting := ordinary.later bound
        rwa [ran] at lasting
      simp only [List.mem_cons, forall_eq_or_imp]
      exact ⟨⟨heap.closures.size, later.closure (by simp [bound, made, Heap.bind,
        Heap.changeFrame])⟩, others⟩

theorem Exec.bind_done {α β : Type} {x : Exec α} {f : α → Exec β} {b : β} {state last : State}
    (ended : (x >>= f) state = .done b last) :
    ∃ a next, x state = .done a next ∧ f a next = .done b last := by
  rw [Exec.bind_eq] at ended
  cases outcome : x state with
  | done a next =>
      rw [outcome] at ended
      exact ⟨a, next, rfl, ended⟩
  | fault | spent =>
      rw [outcome] at ended
      cases ended

namespace Engine

variable (loader : Option Loader) (depth : Nat) {state next : State}

theorem defineFields_onward (frame : FrameId) (fields : List (String × Option Expr))
    (left : ((ofDepth loader depth).defineFields frame fields state).state? = some next) :
    state.heap.Onward next.heap := by
  have cells : Keeps (fun state next => state.heap.CellsLast next.heap) Unit
      ((ofDepth loader depth).defineFields frame fields) _ :=
    Heap.CellsLast.kept.catching.defineFields trivial fields fun _ _ part _ =>
      Heap.CellsLast.kept.uniform.evals (ofDepth_cellsLast loader depth) part
  refine Heap.Later.onward ⟨cells state next left, fun env => ?_⟩
  have stays : Keeps (fun state next => Heap.StaysAt env state.heap next.heap) Unit
      ((ofDepth loader depth).defineFields frame fields) _ :=
    (Heap.StaysAt.kept env).catching.defineFields trivial fields fun _ _ part _ =>
      (Heap.StaysAt.kept env).uniform.evals (ofDepth_staysAt env loader depth) part
  exact stays state next left

theorem furnish_furnished {id : BlueprintId} {blueprint : Blueprint} {frame : FrameId}
    {value : Value} (declared : blueprint.env < state.heap.frames.size)
    (made : (ofDepth loader depth).furnish id blueprint state = .done (frame, value) next) :
    ∃ object : Nat, value = .object object ∧ next.heap.Furnished id blueprint object frame := by
  let engine := ofDepth loader depth
  let place := state.heap.frames.size
  let entered : State := { state with heap := (Store.child blueprint.env state.heap).2 }
  obtain ⟨⟨⟩, filled, fields, ended⟩ : ∃ done filled,
      engine.defineFields place blueprint.fields.entries entered = .done done filled ∧ _ :=
    Exec.bind_done made
  -- Defaults of fields are any code, so the new frame is followed through it.
  have around : filled.heap.Outward blueprint.env place [place] := by
    have way := (Heap.Outward.here declared).child
    exact way.onward (defineFields_onward loader depth place _ (by rw [fields]; rfl))
  obtain ⟨bound, ran, methods⟩ :=
    Store.defineMethods_eq place blueprint.methods.entries filled.heap
  have ordinary : Store.Ordinary .unmoving
      (Store.defineMethods place blueprint.methods.entries) :=
    .defineMethods trivial _ fun _ _ => trivial
  have lasting := (ordinary.later filled.heap).onward
  rw [ran] at lasting
  rw [Exec.bind_eq, Exec.store_eq, ran] at ended
  cases ended
  -- After the methods there are only the object, `self` and `this` to come.
  let object := bound.objects.size
  let holding : Heap := { bound with objects := bound.objects.push ⟨id, place⟩ }
  have kept : bound.Onward holding := by
    apply Heap.Later.onward
    exact ⟨⟨fun found => found, fun found => found, fun found => Heap.getElem?_push_old found _⟩,
      fun _ => .of_frames rfl⟩
  have there : holding.Furnished id blueprint object place := by
    refine ⟨by simp [holding, object], fun entry member => ?_, (around.onward lasting).onward kept⟩
    obtain ⟨closure, found⟩ := methods entry member
    exact ⟨closure, kept.closure found⟩
  exact ⟨object, rfl, there.onward (Heap.Later.trans (.bind _ _ _ _) (.bind _ _ _ _)).onward⟩

end Engine

/-! ## Bodies of methods -/

/-- The frames in which the bodies of the methods of an instance run, where the class was declared in
another frame. -/
theorem Heap.region_inBody (home frame : FrameId) :
    Region fun heap env => heap.Outward home frame [frame] ∧ heap.InBody frame env where
  onward := by
    rintro heap next env ⟨declared, within⟩ onward
    exact ⟨declared.onward onward, within.onward onward⟩
  child := by
    rintro heap env ⟨declared, within⟩
    exact ⟨declared.onward (.child env heap), within.child⟩
  superMethod := by
    rintro heap env name found ⟨declared, within⟩ resolved
    obtain ⟨there, noted⟩ := within.superMethod resolved
    exact ⟨⟨declared, there⟩, noted⟩

open Classical in
/-- An engine that gives up at a part of a body in a frame that does not see free names as another
frame does. -/
noncomputable def Engine.seeingAs (home frame : FrameId) : Option Loader → Nat → Engine :=
  keepingTo fun heap env => ∃ passed, heap.SeesAs home frame env passed

open Classical in
theorem Engine.seeingAs_agree (home frame : FrameId) (loader : Option Loader) (depth : Nat) :
    Engine.AgreeIn (fun heap env => heap.Outward home frame [frame] ∧ heap.InBody frame env)
      (seeingAs home frame loader depth) (ofDepth loader depth) := by
  refine keepingTo_agree loader (Heap.region_inBody home frame) ?_ depth
  rintro heap env ⟨declared, passed, way, -⟩
  exact ⟨passed, way.seesAs declared⟩

/-- A call of a blueprint makes an instance, and its constructor, if it has one, runs from there. From
then on every call of a method of the instance, of a function made in a body of one, and of a
parent's method by `super` in a body goes as on an engine that gives up at a part of a body in a frame
that does not see free names as the frame does in which the class of the instance was declared, which
need not be the class that declares the method. In the frames that see names so, the evaluator finds
variables, classes to extend and modules as in that frame. Evaluation leads onward, whatever it is
asked for. -/
theorem method_scope (loader : Option Loader) (depth : Nat) {state next : State}
    {id : BlueprintId} {blueprint : Blueprint} {frame : FrameId} {value : Value}
    (found : state.heap.blueprints[id]? = some blueprint)
    (declared : blueprint.env < state.heap.frames.size)
    (made : (Engine.ofDepth loader depth).furnish id blueprint state
      = .done (frame, value) next) :
    (∀ args pos, (Engine.ofDepth loader (depth + 1)).call (.blueprint id) args pos state
      = (Engine.ofDepth loader depth).construct args pos (frame, value) next) ∧
    (∃ object : Nat, value = .object object ∧ next.heap.Furnished id blueprint object frame) ∧
    ∀ after : State, next.heap.Onward after.heap →
      (∀ closure, after.heap.BodyOf frame closure → ∀ depth args pos,
        (Engine.ofDepth loader depth).callClosure closure args pos after
          = (Engine.seeingAs blueprint.env frame loader depth).callClosure closure args pos
            after) ∧
      (∀ env, after.heap.InBody frame env → ∀ depth name args pos,
        (Engine.ofDepth loader depth).callSuper name args env pos after
          = (Engine.seeingAs blueprint.env frame loader depth).callSuper name args env pos
            after) ∧
      (∀ env passed, after.heap.SeesAs blueprint.env frame env passed → ∀ engine : Engine,
        engine.ResolvesAs after blueprint.env env (after.heap.Free frame passed)) ∧
      ∀ (depth : Nat) {α : Type} (request : Request α) (last : State),
        ((Engine.ofDepth loader depth).fulfil request after).state? = some last →
          next.heap.Onward last.heap := by
  obtain ⟨object, rfl, furnished⟩ := Engine.furnish_furnished loader depth declared made
  refine ⟨?_, ⟨object, rfl, furnished⟩, ?_⟩
  · intro args pos
    rw [Engine.call, Engine.perform_succ]
    show (Engine.ofDepth loader depth).instantiate id args pos state = _
    rw [Engine.instantiate_eq _ found, Exec.bind_eq, made]
  · intro after onward
    have around := furnished.declared.onward onward
    have agree := fun depth => Engine.seeingAs_agree blueprint.env frame loader depth
    refine ⟨?_, ?_, ?_, ?_⟩
    · intro closure body depth args pos
      have still := (around.onward (.child closure.env _)).onward
        (.setMethod _ after.heap.frames.size closure.method (by simp [Heap.noted?, Store.child]))
      have same := (agree depth).callClosure closure ⟨still, body.enters around.old⟩ args pos
      exact (same after rfl).1.symm
    · intro env within depth name args pos
      exact ((agree depth).callSuper ⟨around, within⟩ name args pos after rfl).1.symm
    · intro env passed sees engine
      exact sees.resolvesAs engine
    · intro depth α request last left
      exact onward.trans (Engine.fulfil_later loader depth request left).onward

def Function.reading (name : String) : Function :=
  ⟨some "m", [], .block ⟨[.return_ .unknown (some (.ident .unknown name))], .unknown⟩, .unknown⟩

namespace Heap

/-- The heap of a program with two modules that hang off its globals, all of which declare `x`: one
module declares a class `C` with a method that reads `x`, the other one a class `D` that extends
it. -/
def inherited : Heap :=
  let x (text : String) : Fields Variable := ⟨[("x", ⟨.text text, false⟩)]⟩
  let methods : Fields Method := ⟨[("m", ⟨.reading "x", 0⟩)]⟩
  { empty with
    frames := #[⟨x "global", none, ".", none⟩, ⟨x "around C", some 0, "base", none⟩,
      ⟨x "around D", some 0, "derived", none⟩]
    blueprints := #[⟨"C", none, .empty, methods, 1⟩, ⟨"D", some 0, .empty, methods, 2⟩] }

def instantiated : Heap :=
  let members : Fields Variable :=
    ⟨[("m", ⟨.closure 0, false⟩), ("self", ⟨.object 0, false⟩), ("this", ⟨.object 0, false⟩)]⟩
  { inherited with
    frames := inherited.frames.push ⟨members, some 2, "derived", none⟩
    closures := #[⟨.reading "x", 3, some ⟨0, "m"⟩⟩]
    objects := #[⟨1, 3⟩] }

end Heap

theorem Engine.furnish_inherited {blueprint : Blueprint}
    (found : Heap.inherited.blueprints[1]? = some blueprint) :
    (Engine.ofDepth none 2).furnish 1 blueprint (.ofHeap .inherited)
      = .done (3, .object 0) (.ofHeap .instantiated) := by
  cases found
  rfl

theorem Engine.call_inherited : ∃ last,
    (Engine.ofDepth none 2).callClosure ⟨.reading "x", 3, some ⟨0, "m"⟩⟩ [] .unknown
      (.ofHeap .instantiated) = .done (.text "around D") last := by
  have told : ((Engine.ofDepth none 2).callClosure ⟨.reading "x", 3, some ⟨0, "m"⟩⟩ [] .unknown
      (.ofHeap .instantiated)).passes (fun value _ => value.same (.text "around D")) = true := by
    decide +kernel
  obtain ⟨value, last, ended, same⟩ := Outcome.passes_iff.mp told
  cases value with
  | text text => exact ⟨last, by rw [ended, eq_of_beq same]⟩
  | _ => cases same

/-- The method that `D` inherits from `C` reads the `x` of the module that declares `D`, on an engine
that gives up where names are not seen as there. -/
theorem method_scope_inherited : ∃ last,
    (Engine.seeingAs 2 3 none 2).callClosure ⟨.reading "x", 3, some ⟨0, "m"⟩⟩ [] .unknown
      (.ofHeap .instantiated) = .done (.text "around D") last := by
  have made := Engine.furnish_inherited rfl
  obtain ⟨-, -, names⟩ := method_scope none 2 rfl (by decide) made
  obtain ⟨calls, -⟩ := names (.ofHeap .instantiated) (.refl _)
  have same := calls _ (.method (.reading "x") ⟨0, "m"⟩) 2 [] .unknown
  obtain ⟨last, ended⟩ := Engine.call_inherited
  exact ⟨last, same.symm.trans ended⟩

/-- Names are not looked up where the class was declared that declares the method. -/
theorem method_scope_not_of_owner :
    ¬ ∀ (loader : Option Loader) (depth : Nat) (state next : State) (id : BlueprintId)
        (blueprint : Blueprint) (frame : FrameId) (value : Value),
      state.heap.blueprints[id]? = some blueprint → blueprint.env < state.heap.frames.size →
      (Engine.ofDepth loader depth).furnish id blueprint state = .done (frame, value) next →
      ∀ entry ∈ blueprint.methods.entries, ∀ owner,
        state.heap.blueprints[entry.2.owner]? = some owner →
      ∀ name, entry.2.fn = .reading name → next.heap.localVariable? frame name = none →
      ∀ result last,
        (Engine.ofDepth loader depth).callClosure
            ⟨entry.2.fn, frame, some ⟨entry.2.owner, entry.2.fn.label⟩⟩ [] .unknown next
          = .done result last →
        next.heap.get? owner.env name = some result := by
  intro claim
  have made := Engine.furnish_inherited rfl
  obtain ⟨last, ended⟩ := Engine.call_inherited
  have read : Heap.instantiated.get? 1 "x" = some (.text "around D") :=
    claim none 2 _ _ 1 _ 3 _ rfl (by decide) made ("m", ⟨.reading "x", 0⟩)
      (List.mem_singleton.mpr rfl) _ rfl "x" rfl rfl _ last ended
  have held : Heap.instantiated.holder? 1 "x" = some 1 := Heap.nearest?_here rfl rfl
  have inner : Heap.instantiated.get? 1 "x" = some (.text "around C") := by
    simp only [Heap.get?, Heap.lookup?, held]
    rfl
  rw [inner] at read
  simp at read

end Rill

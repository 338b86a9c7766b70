import Rill.Proofs.Carried
import Rill.Proofs.Visit

/-!
# Modules run once

The frames of modules that have run are kept, and their keys are marked; a stack holds the keys of
those that are running. `State.Orderly` says how the three fit together, and every execution keeps
it that way (`Tidy`). An import therefore has one of three outcomes: a fault if the module is
running, the frame that was kept if there is one, and otherwise a run of its body, which is kept if
it comes to its end (`Engine.openModule_eq`, `Tidy.completes`).

That no body comes to its end twice is said by means of an evaluator that marks the key at every
such end, whether it is marked already or not (`Engine.marking`). It does what the evaluator does,
and no key is marked twice.
-/

set_option autoImplicit false

namespace Rill

namespace State

/-- The modules whose frames are kept are those that are marked as imported, each once. Those whose
bodies are running are others, each once too. -/
structure Orderly (state : State) : Prop where
  kept (key : String) : (state.modules.get? key).isSome ↔ key ∈ state.imported
  once : state.imported.Nodup
  running : state.loading.Nodup
  apart : ∀ key ∈ state.loading, key ∉ state.imported

/-- What executions do to modules: what is kept and marked stays so, and the same bodies are
running afterwards. -/
structure Onward (state next : State) : Prop where
  orderly : next.Orderly
  loading : next.loading = state.loading
  imported : state.imported <:+ next.imported
  modules (key : String) (frame : FrameId) :
    state.modules.get? key = some frame → next.modules.get? key = some frame

variable {state next : State}

namespace Orderly

theorem congr (orderly : state.Orderly) (modules : next.modules = state.modules)
    (imported : next.imported = state.imported) (loading : next.loading = state.loading) :
    next.Orderly := by
  constructor
  · rw [modules, imported]
    exact orderly.kept
  · rw [imported]
    exact orderly.once
  · rw [loading]
    exact orderly.running
  · rw [loading, imported]
    exact orderly.apart

theorem moduleFrame?_eq (orderly : state.Orderly) (key : String) :
    state.moduleFrame? key = state.modules.get? key := by
  unfold moduleFrame?
  split
  · rfl
  · rename_i unmarked
    rw [List.contains_eq_mem, decide_eq_true_eq, ← orderly.kept key] at unmarked
    exact (Option.not_isSome_iff_eq_none.mp unmarked).symm

theorem get?_eq_none (orderly : state.Orderly) {key : String} (fresh : key ∉ state.imported) :
    state.modules.get? key = none :=
  Option.not_isSome_iff_eq_none.mp fun kept => fresh ((orderly.kept key).mp kept)

theorem idle (orderly : state.Orderly) {key : String} {frame : FrameId}
    (kept : state.modules.get? key = some frame) : key ∉ state.loading :=
  fun running => orderly.apart key running ((orderly.kept key).mp (by rw [kept]; rfl))

theorem enter (orderly : state.Orderly) {key : String} (idle : key ∉ state.loading)
    (fresh : key ∉ state.imported) :
    { state with loading := key :: state.loading }.Orderly where
  kept := orderly.kept
  once := orderly.once
  running := List.nodup_cons.mpr ⟨idle, orderly.running⟩
  apart other running := by
    rcases List.mem_cons.mp running with rfl | running
    · exact fresh
    · exact orderly.apart other running

theorem leave (orderly : state.Orderly) :
    { state with loading := state.loading.tail }.Orderly where
  kept := orderly.kept
  once := orderly.once
  running := orderly.running.tail
  apart key running := orderly.apart key (List.mem_of_mem_tail running)

theorem keep (orderly : state.Orderly) {key : String} (idle : key ∉ state.loading)
    (fresh : key ∉ state.imported) (frame : FrameId) :
    { state with imported := key :: state.imported,
                 modules := state.modules.insert key frame }.Orderly where
  kept other := by
    rw [Fields.get?_insert, List.mem_cons, ← orderly.kept other]
    by_cases same : other = key
    · simp [same]
    · simp [same]
  once := List.nodup_cons.mpr ⟨fresh, orderly.once⟩
  running := orderly.running
  apart other running := by
    rw [List.mem_cons]
    rintro (rfl | marked)
    · exact idle running
    · exact orderly.apart other running marked

end Orderly

namespace Onward

theorem of_same (orderly : state.Orderly) (modules : next.modules = state.modules)
    (imported : next.imported = state.imported) (loading : next.loading = state.loading) :
    state.Onward next :=
  have marked : state.imported <:+ next.imported := imported.symm ▸ List.suffix_rfl
  ⟨orderly.congr modules imported loading, loading, marked,
    fun _ _ kept => by rw [modules]; exact kept⟩

theorem trans {before between after : State} (first : before.Onward between)
    (second : between.Onward after) : before.Onward after :=
  ⟨second.orderly, second.loading.trans first.loading, first.imported.trans second.imported,
    fun key frame kept => second.modules key frame (first.modules key frame kept)⟩

end Onward

end State

/-! ## Executions -/

/-- Executions that keep the modules of a state in order. Where the first one ends, the second one
ends in the same way. -/
abbrev Tidy : Relation := Carries State.Orderly State.Onward

namespace Tidy

theorem carried : Carried (.anyCode True) State.Orderly State.Onward where
  refl orderly := .of_same orderly rfl rfl rfl
  trans := .trans
  next onward := onward.orderly
  holds {state} _ := state.heap.holds_anyCode trivial
  fresh _ := ⟨⟨trivial, trivial⟩, trivial⟩
  store _ _ orderly := .of_same orderly rfl rfl rfl
  setMethod _ _ _ orderly := .of_same orderly rfl rfl rfl
  limiter _ _ orderly := .of_same orderly rfl rfl rfl
  output _ _ orderly := .of_same orderly rfl rfl rfl

end Tidy

/-! ## Opening a module -/

/-- Mark the key of a module and keep its frame. A key that is marked already is marked again. -/
def Exec.markModule (key : String) (env : FrameId) : Exec Unit := fun state =>
  .done () { state with imported := key :: state.imported, modules := state.modules.insert key env }

def KeepsNew (keep : String → FrameId → Exec Unit) : Prop :=
  ∀ key env state, key ∉ state.imported → keep key env state = Exec.markModule key env state

theorem KeepsNew.keepModule : KeepsNew Exec.keepModule := by
  intro key env state fresh
  have unmarked : state.imported.contains key = false := by simpa using fresh
  simp only [Exec.keepModule, Exec.markModule, unmarked, Bool.false_eq_true, if_false]

namespace Engine

variable (engine : Engine) (keep : String → FrameId → Exec Unit)

/-- Run the body of a module in a new frame and keep the frame in a way of one's own. -/
def runModuleBy (found : Module) (env : FrameId) : Exec FrameId := do
  match Program.parse found.source found.dir with
  | .error error => Exec.raise (.badImport (.syntaxError found.key error))
  | .ok program =>
      let frame ← Store.child env
      Store.setDir frame found.dir
      let _ ← Exec.loading found.key (engine.execProgram frame program.body .nil)
      keep found.key frame
      return frame

/-- The frame of a module, which is run and kept if it has not run yet. -/
def openModuleBy (found : Module) (env : FrameId) : Exec FrameId := do
  let running ← Exec.read (·.loading)
  if running.contains found.key then
    Exec.raise (.badImport (.cycle (running.reverse ++ [found.key])))
  else
    match ← Exec.read (·.moduleFrame? found.key) with
    | some frame => return frame
    | none => engine.runModuleBy keep found env

theorem openModuleBy_keepModule (found : Module) (env : FrameId) :
    engine.openModuleBy Exec.keepModule found env = engine.openModule found env := rfl

variable {keep} {found : Module} {env : FrameId} {state : State}

theorem openModuleBy_running (running : found.key ∈ state.loading) :
    engine.openModuleBy keep found env state
      = .fault (.of (.badImport (.cycle (state.loading.reverse ++ [found.key])))) state := by
  have here : state.loading.contains found.key = true := by simpa using running
  simp only [openModuleBy, Exec.bind_eq, Exec.read, here]
  rfl

theorem openModuleBy_idle (orderly : state.Orderly) (idle : found.key ∉ state.loading) :
    engine.openModuleBy keep found env state = match state.modules.get? found.key with
      | some frame => .done frame state
      | none => engine.runModuleBy keep found env state := by
  have absent : state.loading.contains found.key = false := by simpa using idle
  simp only [openModuleBy, Exec.bind_eq, Exec.read, absent, Bool.false_eq_true, if_false,
    orderly.moduleFrame?_eq]
  cases state.modules.get? found.key <;> rfl

end Engine

/-- What a first run of a module leaves: its frame is kept and its key marked if the body comes to
its end, and neither if it faults. -/
def State.AfterRun (state : State) (key : String) : Outcome FrameId → Prop
  | .done frame next => state.Onward next ∧ next.modules.get? key = some frame
  | .fault _ next => state.Onward next ∧ next.modules.get? key = none ∧ key ∉ next.imported
  | .spent => True

theorem State.AfterRun.trans {before state : State} {key : String} {outcome : Outcome FrameId}
    (after : state.AfterRun key outcome) (onward : before.Onward state) :
    before.AfterRun key outcome := by
  cases outcome with
  | done frame next => exact ⟨onward.trans after.1, after.2⟩
  | fault fault next => exact ⟨onward.trans after.1, after.2⟩
  | spent => trivial

namespace Tidy

variable {first second : Engine} {keep other : String → FrameId → Exec Unit} {found : Module}
variable {env : FrameId} {state : State} {key : String}

theorem leaves {after : State} (onward : { state with loading := key :: state.loading }.Onward after) :
    state.Onward { after with loading := after.loading.tail } ∧ key ∉ after.loading.tail ∧
      key ∉ after.imported := by
  have running := onward.orderly.running
  have apart := onward.orderly.apart key
  rw [onward.loading] at running apart
  refine ⟨⟨onward.orderly.leave, by rw [onward.loading]; rfl, onward.imported, onward.modules⟩, ?_,
    apart (by simp)⟩
  rw [onward.loading]
  exact (List.nodup_cons.mp running).1

theorem completes (keeps : KeepsNew keep) (others : KeepsNew other) {x y : Exec Value}
    (inner : Tidy Value x y) (orderly : state.Orderly) (idle : key ∉ state.loading)
    (fresh : key ∉ state.imported) (frame : FrameId) :
    let left := (Exec.loading key x >>= fun _ => keep key frame >>= fun _ => pure frame) state
    (∀ next, left.state? = some next →
      (Exec.loading key y >>= fun _ => other key frame >>= fun _ => pure frame) state = left) ∧
    state.AfterRun key left := by
  intro left
  have entered := orderly.enter idle fresh
  have ran := inner _ entered
  simp only [left, Exec.bind_eq, Exec.loading_eq]
  cases outcome : x { state with loading := key :: state.loading } with
  | done a after =>
      obtain ⟨same, onward⟩ := ran after (by rw [outcome]; rfl)
      obtain ⟨kept, gone, unmarked⟩ := leaves onward
      have marked := keeps key frame { after with loading := after.loading.tail } unmarked
      have again := others key frame { after with loading := after.loading.tail } unmarked
      simp only [same, outcome, Outcome.mapState, marked, again, Exec.markModule]
      refine ⟨fun _ _ => trivial, ⟨kept.orderly.keep gone unmarked frame, kept.loading, ?_, ?_⟩, ?_⟩
      · exact kept.imported.trans (List.suffix_cons key _)
      · intro other place held
        have new : other ≠ key := by
          rintro rfl
          exact fresh ((orderly.kept other).mp (by rw [held]; rfl))
        rw [Fields.get?_insert, if_neg new]
        exact kept.modules other place held
      · rw [Fields.get?_insert, if_pos rfl]
  | fault fault after =>
      obtain ⟨same, onward⟩ := ran after (by rw [outcome]; rfl)
      obtain ⟨kept, -, unmarked⟩ := leaves onward
      simp only [same, outcome, Outcome.mapState]
      exact ⟨fun _ _ => trivial, kept, kept.orderly.get?_eq_none unmarked, unmarked⟩
  | spent =>
      refine ⟨fun next left => ?_, trivial⟩
      cases left

theorem runModuleBy (keeps : KeepsNew keep) (others : KeepsNew other) (env : FrameId)
    (body : BodyRelated (.anyCode True) Tidy first second found) (orderly : state.Orderly)
    (idle : found.key ∉ state.loading) (fresh : found.key ∉ state.imported) :
    (∀ next, (first.runModuleBy keep found env state).state? = some next →
      second.runModuleBy other found env state = first.runModuleBy keep found env state) ∧
    state.AfterRun found.key (first.runModuleBy keep found env state) := by
  unfold Engine.runModuleBy
  cases parsed : Program.parse found.source found.dir with
  | error error =>
      exact ⟨fun _ _ => rfl, carried.refl orderly, orderly.get?_eq_none fresh, fresh⟩
  | ok program =>
      have held : (Permits.anyCode True).frame state.heap.frames.size := trivial
      have run := carried.catching.execProgram held program.body .nil (body program parsed)
      have placed : { state with heap := (Store.setDir state.heap.frames.size found.dir
          (Store.child env state.heap).2).2 }.Orderly := orderly.congr rfl rfl rfl
      obtain ⟨same, after⟩ := completes keeps others run placed idle fresh state.heap.frames.size
      exact ⟨same, after.trans (.of_same orderly rfl rfl rfl)⟩

theorem opens (keeps : KeepsNew keep) (others : KeepsNew other) (found : Module) (env : FrameId)
    (body : BodyRelated (.anyCode True) Tidy first second found) :
    Tidy FrameId (first.openModuleBy keep found env) (second.openModuleBy other found env) := by
  intro state orderly next left
  by_cases running : found.key ∈ state.loading
  · rw [first.openModuleBy_running running] at left ⊢
    rw [second.openModuleBy_running running]
    cases left
    exact ⟨rfl, carried.refl orderly⟩
  · rw [first.openModuleBy_idle orderly running] at left ⊢
    rw [second.openModuleBy_idle orderly running]
    cases kept : state.modules.get? found.key with
    | some frame =>
        rw [kept] at left
        cases left
        exact ⟨rfl, carried.refl orderly⟩
    | none =>
        rw [kept] at left
        have fresh : found.key ∉ state.imported := by
          rw [← orderly.kept found.key, kept]
          exact Bool.false_ne_true
        obtain ⟨same, after⟩ := runModuleBy keeps others env body orderly running fresh
        refine ⟨same next left, ?_⟩
        dsimp only at left
        cases outcome : first.runModuleBy keep found env state with
        | done frame last =>
            rw [outcome] at after left
            cases left
            exact after.1
        | fault fault last =>
            rw [outcome] at after left
            cases left
            exact after.1
        | spent =>
            rw [outcome] at left
            cases left

theorem uniform : Uniform (.anyCode True) Tidy Tidy :=
  { carried.thorough (opens .keepModule .keepModule) with
    anyCode := .of_anyCode True
    strong := carried.catching
    weaken := fun _ _ _ inner => inner
    methods := carried.methods }

theorem step (related : EnginesRelated Tidy first second) {α : Type} (job : Job α) :
    Tidy α (first.step job) (second.step job) := by
  have supers := uniform.supers related fun _ => trivial
  refine uniform.step related supers job fun _ _ native args pos _ => ?_
  exact uniform.callNative related native args pos (fun name env pos _ => supers name args env pos)
    fun fn _ => carried.act trivial (uniform.calls related) (fn.body args)

theorem visit (related : EnginesRelated Tidy first second) {α : Type} (visit : Visit α) :
    Tidy α (first.visit visit) (second.visit visit) :=
  carried.catching.visit (carried.changeLimiter _) trivial trivial related visit

end Tidy

/-! ## Engines -/

namespace Engine

/-- Perform one job, but keep modules in a way of one's own. -/
def stepKeeping (engine : Engine) (keep : String → FrameId → Exec Unit) {α : Type} :
    Job α → Exec α
  | .exec (.import_ pos path name) env => Exec.locate pos do
      engine.importBy (engine.openModuleBy keep) path name env
      return .normal .nil
  | job => engine.step job

/-- The engine of a depth that keeps modules in a way of its own. -/
def keeping (keep : String → FrameId → Exec Unit) (loader : Option Loader) : Nat → Engine
  | 0 => ofDepth loader 0
  | depth + 1 =>
      { perform := (keeping keep loader depth).stepKeeping keep
        passes := depth + 1
        loader }

/-- The engine of a depth that marks the key of a module whenever its body comes to its end. -/
def marking : Option Loader → Nat → Engine := keeping Exec.markModule

theorem stepKeeping_keepModule (engine : Engine) {α : Type} (job : Job α) :
    engine.stepKeeping Exec.keepModule job = engine.step job := by
  unfold stepKeeping
  split <;> rfl

theorem keeping_keepModule (loader : Option Loader) (depth : Nat) :
    keeping Exec.keepModule loader depth = ofDepth loader depth := by
  induction depth with
  | zero => rfl
  | succ depth ih =>
      have performs : @perform (keeping Exec.keepModule loader (depth + 1))
          = @perform (ofDepth loader (depth + 1)) := by
        funext α job
        rw [perform_succ, ← ih]
        exact (keeping Exec.keepModule loader depth).stepKeeping_keepModule job
      exact Engine.mk.injEq .. |>.mpr ⟨performs, rfl, rfl⟩

end Engine

namespace Tidy

variable {first second : Engine} {keep other : String → FrameId → Exec Unit}

theorem stepKeeping (related : EnginesRelated Tidy first second) (keeps : KeepsNew keep)
    (others : KeepsNew other) {α : Type} (job : Job α) :
    Tidy α (first.stepKeeping keep job) (second.stepKeeping other job) := by
  unfold Engine.stepKeeping
  split
  · rename_i pos path name env
    refine carried.catching.locate pos (carried.bind ?_ fun _ => carried.catching.pure _)
    refine carried.catching.importBy related.loaders path name trivial fun _ _ found _ _ => ?_
    exact opens keeps others found env fun _ _ part _ => uniform.execs related part
  · exact step related _

variable (loader : Option Loader) (depth : Nat)

theorem ofDepth : EnginesRelated Tidy (Engine.ofDepth loader depth)
    (Engine.ofDepth loader depth) := by
  induction depth with
  | zero => exact ⟨fun _ _ _ _ left => (by cases left), Nat.le_refl _, rfl⟩
  | succ depth ih =>
      refine ⟨fun job => ?_, Nat.le_refl _, rfl⟩
      rw [Engine.perform_succ]
      exact step ih job

theorem keeping (keeps : KeepsNew keep) (others : KeepsNew other) :
    EnginesRelated Tidy (Engine.keeping keep loader depth) (Engine.keeping other loader depth) := by
  induction depth with
  | zero => exact ofDepth loader 0
  | succ depth ih => exact ⟨stepKeeping ih keeps others, Nat.le_refl _, rfl⟩

theorem marking {α : Type} (visit : Visit α) {state : State} (orderly : state.Orderly) :
    (Engine.marking loader depth).visit visit state
      = (Engine.ofDepth loader depth).visit visit state := by
  have marks : KeepsNew Exec.markModule := fun _ _ _ _ => rfl
  have visits := Tidy.visit (keeping loader depth .keepModule marks) visit state orderly
  have back := Tidy.visit (keeping loader depth marks .keepModule) visit state orderly
  rw [Engine.keeping_keepModule] at visits back
  exact Outcome.eq_of_left (fun next left => (visits next left).1)
    fun next left => (back next left).1

end Tidy

/-! ## Sessions -/

theorem Session.orderly {loader : Option Loader} {state : State} (session : Session loader state) :
    state.Orderly ∧ state.loading = [] := by
  induction session with
  | start setup =>
      exact ⟨⟨fun _ => by simp [Setup.start, Fields.get?, Fields.empty], List.nodup_nil,
        List.nodup_nil, by simp [Setup.start]⟩, rfl⟩
  | visited visit depth before left ih =>
      have onward := (Tidy.visit (Tidy.ofDepth loader depth) visit _ ih.1 _ left).2
      exact ⟨onward.orderly, onward.loading.trans ih.2⟩
  | between before move ih =>
      cases move <;> exact ⟨ih.1.congr rfl rfl rfl, ih.2⟩

namespace Engine

theorem importModule_eq {engine : Engine} {find : Loader} {path : String} {env : FrameId}
    {found : Module} {state : State} (loader : engine.loader = some find)
    (resolved : find (state.heap.dir env) path = .ok found) (name : Option String) :
    engine.importModule path name env state
      = (engine.openModule found env >>= Exec.bindExports name env) state := by
  rw [← engine.importBy_openModule, importBy, loader]
  simp only [Exec.bind_eq, Exec.read, resolved]

open Classical in
/-- The modules of the state that a job begins in are in order. -/
noncomputable def orderly : Test := fun _ state _ => decide state.Orderly

theorem watched_orderly (loader : Option Loader) (depth : Nat) :
    EnginesRelated Tidy (ofDepth loader depth) (watched orderly loader depth) := by
  induction depth with
  | zero => exact Tidy.ofDepth loader 0
  | succ depth ih =>
      refine ⟨fun job state before next left => ?_, Nat.le_refl _, rfl⟩
      rw [perform_succ] at left ⊢
      obtain ⟨same, onward⟩ := Tidy.step ih job state before next left
      have passed : orderly job state ((watched orderly loader depth).step job state) = true := by
        simp only [orderly, decide_eq_true_eq]
        exact before
      refine ⟨?_, onward⟩
      rw [← same]
      exact if_pos passed

end Engine

/-- In every session the kept modules are the marked ones, each marked once, and between visits none
is running. In whatever state with modules in order a visit begins, all its jobs begin in such
states, in which no module is running twice or running and kept; it leaves such a state, with the
same modules running and all that was kept or marked still there; and it does what it would do if
the key of a module were marked anew whenever its body came to its end. So no body does that twice.

An import of a module that is running is a fault. One of a module that is kept binds what is bound
in its frame by now, and does nothing else. One of any other module runs its body, and afterwards
the module is kept, or, if there was a fault, it is neither kept nor running, so that the next import
runs it again. -/
theorem modules_run_once (loader : Option Loader) (depth : Nat) :
    (∀ state, Session loader state → state.Orderly ∧ state.loading = []) ∧
    (∀ {α : Type} (visit : Visit α) (state : State), state.Orderly →
      (Engine.watched Engine.orderly loader depth).visit visit state
          = (Engine.ofDepth loader depth).visit visit state ∧
        (Engine.marking loader depth).visit visit state
          = (Engine.ofDepth loader depth).visit visit state ∧
        ∀ next, ((Engine.ofDepth loader depth).visit visit state).state? = some next →
          state.Onward next) ∧
    ∀ (find : Loader) (path : String) (name : Option String) (env : FrameId) (found : Module)
        (state : State), loader = some find → find (state.heap.dir env) path = .ok found →
      state.Orderly →
      let engine := Engine.ofDepth loader depth
      (found.key ∈ state.loading → engine.importModule path name env state
        = .fault (.of (.badImport (.cycle (state.loading.reverse ++ [found.key])))) state) ∧
      (∀ frame, state.modules.get? found.key = some frame →
        engine.importModule path name env state = Exec.bindExports name env frame state) ∧
      (found.key ∉ state.loading → found.key ∉ state.imported →
        engine.importModule path name env state
            = (engine.runModule found env >>= Exec.bindExports name env) state ∧
          state.AfterRun found.key (engine.runModule found env state)) := by
  refine ⟨fun state session => session.orderly, fun visit state orderly => ?_,
    fun find path name env found state given resolved orderly => ?_⟩
  · have watched := Tidy.visit (Engine.watched_orderly loader depth) visit state orderly
    refine ⟨Outcome.eq_of_left (fun next left => (watched next left).1) fun next left => ?_,
      Tidy.marking loader depth visit orderly, fun next left => (watched next left).2⟩
    have agrees := Agrees.catching.visit (Agrees.refl _) trivial trivial
      (Engine.watched_agrees Engine.orderly loader depth) visit
    exact agrees state (Outcome.ended_of_left left)
  · intro engine
    have imports := Engine.importModule_eq ((Engine.ofDepth_loader loader depth).trans given)
      resolved name
    rw [← Engine.openModuleBy_keepModule, Exec.bind_eq] at imports
    refine ⟨fun running => ?_, fun frame kept => ?_, fun idle fresh => ?_⟩
    · rw [imports, engine.openModuleBy_running running]
    · rw [imports, engine.openModuleBy_idle orderly (orderly.idle kept), kept]
    · refine ⟨?_, ?_⟩
      · rw [imports, engine.openModuleBy_idle orderly idle, orderly.get?_eq_none fresh, Exec.bind_eq]
        rfl
      · have body : BodyRelated (.anyCode True) Tidy engine engine found :=
          fun _ _ part _ => Tidy.uniform.execs (Tidy.ofDepth loader depth) part
        exact (Tidy.runModuleBy .keepModule .keepModule env body orderly idle fresh).2

def ModuleTable.single : ModuleTable := .ofList [("lib", "let a = \"x\"")]

def Module.single : Module := ⟨"lib", ".", "let a = \"x\""⟩

/-- The module runs when it is first imported, is used as it is when it is imported again, and is
refused while it runs. -/
theorem modules_run_once_single :
    let engine := Engine.ofDepth (some ModuleTable.single.resolve) 5
    let start := (Setup.plain .default).start
    (∃ frame next, engine.runModule .single globals start = .done frame next ∧
      engine.importModule "lib" none globals start = Exec.bindExports none globals frame next ∧
      engine.importModule "lib" (some "m") globals next
        = Exec.bindExports (some "m") globals frame next) ∧
    engine.importModule "lib" none globals { start with loading := ["lib"] }
      = .fault (.of (.badImport (.cycle ["lib", "lib"]))) { start with loading := ["lib"] } ∧
    (Engine.marking (some ModuleTable.single.resolve) 5).visit (.source "import \"lib\"") start
      = engine.visit (.source "import \"lib\"") start := by
  intro engine start
  obtain ⟨sessions, visits, imports⟩ := modules_run_once (some ModuleTable.single.resolve) 5
  have orderly : start.Orderly := (sessions start (.start _)).1
  have resolved : ModuleTable.single.resolve "." "lib" = .ok .single := by
    have key : ModuleTable.key "." "lib" = "lib" := by decide +kernel
    have directory : Path.directory "lib" = "." := by decide +kernel
    simp only [ModuleTable.resolve, key, directory]
    rfl
  have first := imports _ "lib" none globals .single start rfl resolved orderly
  have running : { start with loading := ["lib"] }.Orderly := orderly.enter (by decide) (by decide)
  refine ⟨?_, ?_, (visits _ start orderly).2.1⟩
  · obtain ⟨runs, after⟩ := first.2.2 (by decide) (by decide)
    have ends : (engine.runModule .single globals start).isDone = true := by decide +kernel
    have stays : (engine.runModule .single globals start).state?.all
        (fun next => decide (next.heap.dir globals = ".")) = true := by decide +kernel
    cases ended : engine.runModule .single globals start with
    | done frame next =>
        rw [ended] at after stays
        have same : next.heap.dir globals = "." := of_decide_eq_true stays
        refine ⟨frame, next, rfl, ?_, ?_⟩
        · rw [runs, Exec.bind_eq, ended]
        · exact (imports _ "lib" (some "m") globals .single next rfl (by rw [same]; exact resolved)
            after.1.orderly).2.1 frame after.2
    | fault | spent =>
        rw [ended] at ends
        cases ends
  · have second := imports _ "lib" none globals .single { start with loading := ["lib"] } rfl resolved
    exact (second running).1 (by decide)

end Rill

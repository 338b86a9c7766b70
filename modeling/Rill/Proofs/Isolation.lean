import Mathlib.Data.Set.Insert
import Rill.Proofs.Superless

/-!
# Scopes are isolated

Where no code mentions `super`, the names of a frame are its own: no expression adds a name to a
frame that is already there, and a statement adds names to none but the frame it runs in. Blocks,
passes, arms, handlers, calls and modules bind their names in frames that are new. The members of
an instance are the exception, since any code that holds the instance may assign to them. No name
ever goes away.
-/

set_option autoImplicit false

namespace Rill

namespace Heap

variable {heap : Heap} {home env : FrameId} {name key : String}

def names (heap : Heap) (env : FrameId) : Set String :=
  {name | (heap.localVariable? env name).isSome}

theorem mem_names : name ∈ heap.names env ↔ (heap.localVariable? env name).isSome := Iff.rfl

/-- Between two heaps, a piece of code that may declare names in one frame at most has left the
names of all other frames as they were, those of instances apart. -/
structure Isolated (home? : Option FrameId) (heap next : Heap) : Prop where
  same (env : FrameId) (apart : heap.Apart env) (other : home? ≠ some env) :
    next.names env = heap.names env
  grows (env : FrameId) : heap.names env ⊆ next.names env

/-! ## What operations do to the names of a frame -/

theorem size_of_mem_names (bound : name ∈ heap.names home) : home < heap.frames.size := by
  obtain ⟨variable_, found⟩ := Option.isSome_iff_exists.mp bound
  exact size_of_localVariable? found

theorem names_subset_bind (heap : Heap) (env : FrameId) (key : String) (variable_ : Variable)
    (home : FrameId) : heap.names home ⊆ (heap.bind env key variable_).names home := by
  intro name bound
  rw [mem_names, localVariable?_bind]
  split
  · rw [Option.isSome_map, Array.getElem?_eq_getElem (size_of_mem_names bound)]
    rfl
  · exact bound

theorem names_bind_other (heap : Heap) (key : String) (variable_ : Variable)
    (other : env ≠ home) : (heap.bind env key variable_).names home = heap.names home := by
  ext name
  rw [mem_names, mem_names, localVariable?_bind, if_neg fun same => other same.1]

theorem names_bind_bound (variable_ : Variable) (bound : key ∈ heap.names home) :
    (heap.bind home key variable_).names home = heap.names home := by
  refine Set.Subset.antisymm (fun name member => ?_) (names_subset_bind heap home key variable_ home)
  rw [mem_names, localVariable?_bind] at member
  split at member
  · rename_i here
    rw [here.2]
    exact bound
  · exact member

theorem mem_names_of_holder? {holder : FrameId} (found : heap.holder? env name = some holder) :
    name ∈ heap.names holder := by
  unfold holder? at found
  induction env using Nat.strong_induction_on with
  | _ env ih =>
      rw [nearest?] at found
      split at found
      · cases found
      · rename_i frame there
        split at found
        · rename_i bound
          cases found
          rw [mem_names, localVariable?, there]
          exact bound
        · split at found
          · cases found
          · rename_i parent _
            split at found
            · rename_i older
              exact ih parent older found
            · cases found

end Heap

namespace Store.Write

variable {permits : Permits} {x : Store Unit} (op : Write permits x)
include op

/-- A write binds one name: in a frame in which that is permitted, in that of an instance, or where
the name was bound already. -/
theorem names_eq_or (heap : Heap) (home : FrameId) :
    (x heap).2.names home = heap.names home ∨ permits.overwrites home ∨ permits.frame home ∨
      ∃ (id : Nat) (object : Object), heap.objects[id]? = some object ∧ object.frame = home := by
  have bound (env : FrameId) (name : String) (variable_ : Variable) :
      (heap.bind env name variable_).names home = heap.names home ∨ env = home := by
    by_cases here : env = home
    · exact Or.inr here
    · exact Or.inl (heap.names_bind_other name variable_ here)
  cases op with
  | define env name value held =>
      rcases bound env name ⟨value, false⟩ with same | rfl
      · exact Or.inl same
      · exact Or.inr (Or.inl held)
  | set env name value held =>
      rw [set_eq]
      split
      · exact Or.inl rfl
      · rcases bound env name ⟨value, false⟩ with same | rfl
        · exact Or.inl same
        · exact Or.inr (Or.inr (Or.inl held))
  | setConst env name value held =>
      rw [setConst_eq]
      split
      · exact Or.inl rfl
      · rcases bound env name ⟨value, true⟩ with same | rfl
        · exact Or.inl same
        · exact Or.inr (Or.inr (Or.inl held))
  | update env name value held =>
      rw [update_eq]
      split
      · exact Or.inl rfl
      · rename_i holder found
        split
        · exact Or.inl rfl
        · rcases bound holder name ⟨value, false⟩ with same | rfl
          · exact Or.inl same
          · exact Or.inl (Heap.names_bind_bound _ (Heap.mem_names_of_holder? found))
  | setField id name value held =>
      rw [setField_eq]
      split
      · rename_i object found
        rcases bound object.frame name ⟨value, false⟩ with same | here
        · exact Or.inl same
        · exact Or.inr (Or.inr (Or.inr ⟨id, object, found, here⟩))
      · exact Or.inl rfl

theorem names_subset (heap : Heap) (home : FrameId) : heap.names home ⊆ (x heap).2.names home := by
  rcases op.heap_eq heap with same | ⟨env, name, variable_, -, bound⟩
  · rw [same]
  · rw [bound]
    exact heap.names_subset_bind env name variable_ home

end Store.Write

namespace Heap

variable {home : FrameId}

theorem names_cells {heap next : Heap} (frames : next.frames = heap.frames) :
    next.names home = heap.names home := by
  ext name
  rw [mem_names, mem_names, localVariable?, localVariable?, frames]

theorem names_push {heap : Heap} (frame : Frame) (old : home < heap.frames.size) :
    { heap with frames := heap.frames.push frame }.names home = heap.names home := by
  ext name
  rw [mem_names, mem_names, localVariable?_push frame old]

theorem names_changeFrame {heap : Heap} (env : FrameId) {f : Frame → Frame}
    (still : ∀ frame, (f frame).vars = frame.vars) :
    (heap.changeFrame env f).names home = heap.names home := by
  ext name
  rw [mem_names, mem_names, localVariable?_changeFrame heap env still]

/-- A name stays bound, whatever runs. -/
theorem isolating_bound (home : FrameId) (name : String) :
    Isolating (fun _ => True) fun heap => name ∈ heap.names home where
  cells heap next frames _ before := by rwa [names_cells frames]
  push frame before := by rwa [names_push frame (size_of_mem_names before)]
  object _ before := before
  write op before := op.names_subset _ _ before
  changeFrame env _ still before := by rwa [names_changeFrame env still]
  fresh _ _ := trivial

theorem isolating_names (home : FrameId) (names : Set String) :
    Isolating (· ≠ home) fun heap => heap.Apart home ∧ heap.names home = names :=
  have around : Lasting (.superless (· ≠ home)) (Apart home) := Apart.lasting fun moved => moved rfl
  { cells := fun heap next frames objects before =>
      ⟨around.cells heap next frames objects before.1, (names_cells frames).trans before.2⟩
    push := fun frame before =>
      ⟨around.push frame before.1, (names_push frame before.1.old).trans before.2⟩
    object := fun held before => ⟨around.object held before.1, before.2⟩
    write := fun {heap x} op before => by
      refine ⟨around.write op before.1, ?_⟩
      rcases op.names_eq_or heap home with same | elsewhere | elsewhere | ⟨id, object, found, here⟩
      · exact same.trans before.2
      · exact absurd rfl elsewhere
      · exact absurd rfl elsewhere
      · exact absurd here (before.1.uninhabited id object found)
    changeFrame := fun env _ still before =>
      ⟨around.changeFrame env still before.1, (names_changeFrame env still).trans before.2⟩
    fresh := fun _ before => Nat.ne_of_gt before.1.old }

end Heap

/-! ## Jobs -/

/-- The frame in which a job may declare names: that of a statement that does. -/
def Job.home? {α : Type} : Job α → Option FrameId
  | .exec stmt env => if stmt.declares then some env else none
  | _ => none

namespace Engine

variable {loader : Option Loader} {α : Type} {state next : State}

theorem perform_isolated (modules : SuperlessModules loader) (depth : Nat) (job : Job α)
    (superless : job.Superless fun _ => True) (plain : state.heap.Superless)
    (left : ((ofDepth loader depth).perform job state).state? = some next) :
    state.heap.Isolated job.home? next.heap where
  same env apart other := by
    have elsewhere : job.Superless (· ≠ env) := by
      cases job with
      | eval expr place => exact superless
      | exec stmt place =>
          exact ⟨superless.1, fun declares here => other (by rw [Job.home?, if_pos declares, here])⟩
      | call => trivial
    have related := (Heap.isolating_names env (state.heap.names env)).ofDepth modules depth
    exact (related.jobs job elsewhere state ⟨plain, apart, rfl⟩ next left).2.2.2
  grows env name bound := by
    have related := (Heap.isolating_bound env name).ofDepth modules depth
    exact (related.jobs job superless state ⟨plain, bound⟩ next left).2.2

/-- A job that has run code without `super` and has left the names of other frames alone. -/
def Isolates (job : Job α) (state : State) (outcome : Outcome α) : Prop :=
  (job.Superless fun _ => True) ∧ state.heap.Superless ∧
    ∀ next, outcome.state? = some next → state.heap.Isolated job.home? next.heap

open Classical in
noncomputable def isolated : Test := fun job state outcome => decide (Isolates job state outcome)

theorem isolated_iff {job : Job α} {outcome : Outcome α} :
    isolated job state outcome = true ↔ Isolates job state outcome := by
  simp only [isolated, decide_eq_true_eq]

/-- Nothing more than to be without `super` is asked of a heap. -/
theorem isolating_plain : Isolating (fun _ => True) fun _ => True where
  cells _ _ _ _ _ := trivial
  push _ _ := trivial
  object _ _ := trivial
  write _ _ := trivial
  changeFrame _ _ _ _ := trivial
  fresh _ _ := trivial

theorem watched_isolated (modules : SuperlessModules loader) (depth : Nat) :
    SuperlessRelated (fun _ => True) (SuperlessKeeps fun _ => True) (ofDepth loader depth)
      (watched isolated loader depth) := by
  induction depth with
  | zero => exact ⟨fun _ _ _ _ _ left => (by cases left), Nat.le_refl _, rfl⟩
  | succ depth ih =>
      refine ⟨fun job superless state before next left => ?_, Nat.le_refl _, rfl⟩
      have here : SuperlessModules (ofDepth loader depth).loader := by rwa [ofDepth_loader]
      have stepped := left
      rw [perform_succ] at stepped ⊢
      obtain ⟨same, kept⟩ := isolating_plain.step ih here job superless state before next stepped
      have passed : isolated job state ((watched isolated loader depth).step job state) = true := by
        refine isolated_iff.mpr ⟨superless, before.1, fun after ended => ?_⟩
        rw [same, ← perform_succ] at ended
        exact perform_isolated modules (depth + 1) job superless before.1 ended
      refine ⟨?_, kept⟩
      rw [← same]
      exact if_pos passed

end Engine

/-- The native functions of a session, and the modules and texts that are run in it, hold no `super`
at first, and what a visit leaves behind holds none either. All through a visit, every job that is
performed leaves the names of the frames that are there as they are, but for those of instances and,
if it runs a statement, of the frame of that statement, and no name goes away. The same holds of a
single job in any state that holds no `super`. -/
theorem scope_isolation (loader : Option Loader) (modules : SuperlessModules loader)
    (depth : Nat) :
    (∀ setup : Setup, (∀ native ∈ setup.natives, native.super? = none) →
      setup.start.heap.Superless) ∧
    (∀ {α : Type} (visit : Visit α) (state : State), visit.Superless → state.heap.Superless →
      (Engine.watched Engine.isolated loader depth).visit visit state
          = (Engine.ofDepth loader depth).visit visit state ∧
        ∀ next, ((Engine.ofDepth loader depth).visit visit state).state? = some next →
          next.heap.Superless) ∧
    ∀ {α : Type} (job : Job α) (state next : State), (job.Superless fun _ => True) →
      state.heap.Superless →
      ((Engine.ofDepth loader depth).perform job state).state? = some next →
        state.heap.Isolated job.home? next.heap := by
  refine ⟨fun setup plain => setup.heap_superless plain, fun visit state superless plain => ?_,
    fun job state next superless plain => Engine.perform_isolated modules depth job superless plain⟩
  have related := Engine.watched_isolated modules depth
  have kept := Engine.isolating_plain.visit related trivial visit superless state ⟨plain, trivial⟩
  refine ⟨Outcome.eq_of_left (fun next left => (kept next left).1) fun next left => ?_,
    fun next left => (kept next left).2.1⟩
  have agrees := Agrees.catching.visit (Agrees.refl _) trivial trivial
    (Engine.watched_agrees Engine.isolated loader depth) visit
  exact agrees state (Outcome.ended_of_left left)

/-- `{ let print = "inner"; for i in "ab" { const k = i } }` -/
def Stmt.shadowing : Stmt :=
  .block .unknown ⟨[.declare .unknown false [⟨"print", some (.literal .unknown (.text "inner"))⟩],
    .forIn .unknown "i" (.literal .unknown (.text "ab"))
      ⟨[.declare .unknown true [⟨"k", some (.ident .unknown "i")⟩]], .unknown⟩], .unknown⟩

theorem Stmt.shadowing_superless : Stmt.shadowing.Superless := by
  have literal (value : Literal) : (Expr.literal .unknown value).Superless :=
    ⟨rfl, rfl, by simp [Expr.needs], by simp [Expr.functions]⟩
  have name : (Expr.ident .unknown "i").Superless :=
    ⟨rfl, rfl, by simp [Expr.needs], by simp [Expr.functions]⟩
  have declare (constant : Bool) (key : String) (expr : Expr) (superless : expr.Superless) :
      (Stmt.declare .unknown constant [⟨key, some expr⟩]).Superless := by
    constructor <;> simp [Stmt.exprs, Stmt.stmts, Stmt.functions, Stmt.classes, superless]
  constructor <;> simp only [shadowing, Stmt.exprs, Stmt.stmts, Stmt.functions, Stmt.classes,
    List.not_mem_nil, false_imp_iff, implies_true, List.mem_cons, or_false, forall_eq_or_imp,
    forall_eq]
  refine ⟨declare _ _ _ (literal _), ?_⟩
  constructor <;> simp [Stmt.exprs, Stmt.stmts, Stmt.functions, Stmt.classes, literal, declare, name]

/-- The block leaves the names of the globals as they were and binds its own in new frames. -/
theorem scope_isolation_shadowing :
    let state := (Setup.plain .default).start
    ∃ next, ((Engine.ofDepth none 5).perform (.exec .shadowing globals) state).state? = some next ∧
      next.heap.names globals = state.heap.names globals ∧ "print" ∈ next.heap.names 1 ∧
      (Engine.watched Engine.isolated none 5).visit (.run ⟨[.shadowing], "."⟩) state
        = (Engine.ofDepth none 5).visit (.run ⟨[.shadowing], "."⟩) state := by
  intro state
  obtain ⟨starts, visits, jobs⟩ := scope_isolation none (fun _ found => by cases found) 5
  have plain : state.heap.Superless := starts (Setup.plain .default) (by decide)
  have ended : ((Engine.ofDepth none 5).perform (.exec .shadowing globals) state).state?.any
      (fun next => (next.heap.localVariable? 1 "print").isSome) = true := by
    decide +kernel
  obtain ⟨next, left, bound⟩ := (Option.any_eq_true _ _).mp ended
  have isolated := jobs (.exec .shadowing globals) state next
    ⟨Stmt.shadowing_superless, fun _ => trivial⟩ plain left
  have apart : state.heap.Apart globals := ⟨by decide +kernel, fun _ _ found => by cases found⟩
  refine ⟨next, left, isolated.same globals apart nofun, bound, ?_⟩
  refine (visits (.run ⟨[.shadowing], "."⟩) state (fun stmt member => ?_) plain).1
  rw [List.mem_singleton.mp member]
  exact Stmt.shadowing_superless

end Rill

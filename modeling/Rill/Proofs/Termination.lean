import Rill.Proofs.Ends
import Rill.Proofs.Visit

/-!
# Termination of limited runs

Every tame program ends when the limiter is on, given a table of tame modules. The engine only has
to be deep enough, and how deep that is does not depend on what the program does: a level takes as
much depth as the largest function has parts, and there are as many levels as calls and modules
can be nested. On top of that a loop needs as many passes as the budget grants, and one to find
that it is over.

Default values of fields are evaluated before anything asks the limiter. They come to no call, so
they need no level at all.
-/

set_option autoImplicit false

namespace Rill

namespace Terms

variable {terms : Terms} {engine : Engine}

def room (terms : Terms) (level : Nat) : Nat :=
  terms.limits.maxIterations + 1 + level * (terms.size + 1)

theorem room_succ (level : Nat) : terms.room (level + 1) = terms.room level + terms.size + 1 := by
  simp only [room, Nat.succ_mul]
  omega

theorem room_mono {lower level : Nat} (below : lower ≤ level) :
    terms.room lower ≤ terms.room level := by
  have := Nat.mul_le_mul_right (terms.size + 1) below
  simp only [room]
  omega

theorem lt_room (level : Nat) : terms.limits.maxIterations < terms.room level := by
  simp only [room]
  omega

def Loads (terms : Terms) (loader : Option Loader) : Prop :=
  ∀ found ∈ loader, ∀ dir path module, found dir path = .ok module →
    module.key ∈ terms.keys ∧
      ∀ program, Program.parse module.source module.dir = .ok program →
        ∀ stmt ∈ program.body, stmt.Tame ∧ sizeOf stmt ≤ terms.size

/-- An engine ends every job that a depth suffices for. -/
structure Handles (terms : Terms) (engine : Engine) (depth : Nat) : Prop where
  passes : depth ≤ engine.passes
  plain {stage : List String → List String → Prop} {expr : Expr} (callFree : expr.CallFree)
    (tame : expr.Tame) (small : sizeOf expr ≤ terms.size)
    (enough : terms.room 0 + sizeOf expr ≤ depth) :
    EvalRelated (terms.Ends stage) engine engine expr
  eval {level : Nat} {expr : Expr} (tame : expr.Tame) (small : sizeOf expr ≤ terms.size)
    (enough : terms.room (level + 1) + sizeOf expr ≤ depth) :
    EvalRelated (terms.Ends (terms.upTo level)) engine engine expr
  exec {level : Nat} {stmt : Stmt} (tame : stmt.Tame) (small : sizeOf stmt ≤ terms.size)
    (enough : terms.room (level + 1) + sizeOf stmt ≤ depth) :
    ExecRelated terms.code (terms.Ends (terms.upTo level)) engine engine stmt
  call {level : Nat} (enough : terms.room (level + 1) ≤ depth) :
    CallRelated (terms.Ends (terms.upTo level)) engine engine

namespace Handles

variable {depth : Nat} (handles : terms.Handles engine depth)
  (enabled : terms.limits.enabled = true)
include handles enabled

/-! ## Calls -/

theorem invokes {level : Nat} (enough : terms.room level + terms.size ≤ depth) :
    InvokeRelated terms.code (terms.Ends (terms.upTo level)) engine engine := by
  intro fn held env frame args pos
  obtain ⟨⟨exprs, stmts⟩, small⟩ := held
  refine Ends.catching.locate pos (.called enabled fn.label pos fun lower below => ?_)
  have deeper : terms.room (lower + 1) ≤ terms.room level := room_mono below
  refine Ends.catching.traced (Ends.catching.enter fn frame args ?_ ?_)
  · intro part member
    have := Function.sizeOf_mem_exprs member
    exact handles.eval (exprs part member) (by omega) (by omega)
  · intro part member
    have := Function.sizeOf_mem_stmts member
    exact handles.exec (stmts part member) (by omega) (by omega)

theorem supers {level : Nat} (enough : terms.room level + terms.size ≤ depth) :
    SuperRelated (terms.Ends (terms.upTo level)) engine engine :=
  Ends.catching.callSuper (fun env => Ends.methods.during env trivial) fun fn held env =>
    handles.invokes enabled enough fn held env (terms.code_fresh env).toScope

theorem callValue {level : Nat} (enough : terms.room level + terms.size ≤ depth)
    (callee : Value) (args : List Value) (pos : Position) :
    terms.Ends (terms.upTo level) Value (engine.callValue callee args pos)
      (engine.callValue callee args pos) := by
  refine Ends.catching.callValue Ends.methods (handles.invokes enabled enough) ?_
    callee args pos ?_
  · intro expr held
    obtain ⟨callFree, tame, small⟩ := held
    have : terms.room 0 ≤ terms.room level := room_mono (Nat.zero_le level)
    exact handles.plain callFree tame small (by omega)
  · intro id native _ held
    refine .called enabled native.label pos fun lower below => ?_
    have deeper : terms.room (lower + 1) ≤ terms.room level := room_mono below
    have room := terms.room_succ lower
    refine Ends.catching.callNative native args trivial (handles.call (by omega))
      (fun name env pos _ => handles.supers enabled (by omega) name args env pos) fun fn same => ?_
    exact (held (by rw [same]; rfl)).elim

/-! ## Loops -/

theorem loops {level : Nat} {stmt : Stmt} (env : FrameId)
    (exprs : ∀ part ∈ stmt.exprs, EvalRelated (terms.Ends (terms.upTo level)) engine engine part)
    (stmts : ∀ part ∈ stmt.stmts,
      ExecRelated terms.code (terms.Ends (terms.upTo level)) engine engine part)
    (enough : terms.limits.maxIterations < depth) :
    LoopRelated (terms.Ends (terms.upTo level)) engine engine env stmt := by
  have compatible := @Ends.catching terms (terms.upTo level)
  have passes := handles.passes
  cases stmt with
  | while_ pos cond body =>
      intro state sound here
      exact Ends.loop
        (fun _ => compatible.pass .whileLoop (some cond) body env pos exprs stmts Ends.passes)
        (fun _ => .pass enabled .whileLoop (some cond) body env pos exprs stmts) _ _ _ state
        sound here (by omega)
  | for_ pos init cond post body =>
      simp only [Stmt.stmts, List.mem_append] at stmts
      have held : ∀ frame, terms.code.frame frame := fun _ => trivial
      have inits := fun frame => compatible.execOption init (held frame) fun part member =>
        stmts part (Or.inl (Or.inl member))
      have posts := fun frame => compatible.execOption post (held frame) fun part member =>
        stmts part (Or.inl (Or.inr member))
      have bodies := fun part member => stmts part (Or.inr member)
      change terms.Ends (terms.upTo level) Signal (engine.execFor init cond post body env pos)
        (engine.execFor init cond post body env pos)
      refine compatible.bind (compatible.store (.child env)) fun frame => ?_
      refine compatible.bind (inits frame) fun _ => ?_
      have ends := compatible.pass .forLoop cond body frame pos exprs bodies Ends.passes
      have counts := Counts.pass enabled .forLoop cond body frame pos exprs bodies
      intro state sound here
      refine Ends.loop (fun index => ?_) (fun index => ?_) _ _ _ state sound here (by omega)
      · dsimp only
        split
        · exact compatible.bind (posts frame) fun _ => ends
        · exact ends
      · dsimp only
        split
        · exact .bind (posts frame) fun _ => counts
        · exact counts
  | forIn pos name source body =>
      have value := exprs source (by simp [Stmt.exprs])
      change terms.Ends (terms.upTo level) Signal (engine.execForIn name source body env pos)
        (engine.execForIn name source body env pos)
      refine compatible.bind (value env) fun value => ?_
      refine compatible.bind (compatible.store (.entries value)) fun entries => ?_
      intro state sound here
      exact Ends.loop
        (fun index => compatible.passOver name value entries body env pos index stmts Ends.passes)
        (fun index => .passOver enabled name value entries body env pos index stmts) _ _ _ state
        sound here (by omega)
  | _ => trivial

/-! ## Imports -/

omit enabled in
theorem imports {level : Nat} (loads : terms.Loads engine.loader)
    (enough : terms.room level + terms.size ≤ depth) :
    ImportRelated terms.code (terms.Ends (terms.upTo level)) engine engine := by
  intro path name env held
  have compatible := fun stage => @Ends.catching terms stage
  refine (compatible _).importBy rfl path name held fun loader dir found given resolved => ?_
  obtain ⟨known, tame⟩ := loads loader given dir path found resolved
  have runs : terms.Ends (fun calls loading => terms.upTo level calls loading ∧
      found.key ∉ loading) FrameId (engine.runModule found env)
        (engine.runModule found env) := by
    unfold Engine.runModule
    split
    · exact (compatible _).raise _ rfl
    · rename_i program parsed
      refine (compatible _).bind ((compatible _).store (.child env)) fun frame => ?_
      have placed : Store.Ordinary terms.code (Store.setDir frame found.dir) :=
        .setDir frame found.dir trivial
      refine (compatible _).bind ((compatible _).store placed) fun _ => ?_
      refine (compatible _).bind (.loading known fun lower below => ?_) fun _ => ?_
      · have deeper : terms.room (lower + 1) ≤ terms.room level := room_mono below
        refine (compatible _).execProgram trivial program.body .nil fun part member => ?_
        obtain ⟨tame, small⟩ := tame program parsed part member
        exact handles.exec tame small (by omega)
      · refine (compatible _).bind (.of_returns fun state sound => ?_) fun _ =>
          (compatible _).pure frame
        exact ⟨_, rfl, ⟨sound.code, sound.limits⟩, rfl, rfl, Nat.le_refl _⟩
  intro state sound here
  -- Whether the module is running depends on the state, so the step is followed from this one.
  cases running : state.loading.contains found.key with
  | true =>
      refine ⟨state, ?_, .refl sound⟩
      simp only [Engine.openModule, Exec.bind_eq, Exec.read, running]
      rfl
  | false =>
      have fresh : found.key ∉ state.loading := by simpa using running
      cases opened : state.moduleFrame? found.key with
      | some frame =>
          refine ⟨state, ?_, .refl sound⟩
          simp only [Engine.openModule, Exec.bind_eq, Exec.read, running, opened,
            Bool.false_eq_true, if_false]
          rfl
      | none =>
          have same : engine.openModule found env state = engine.runModule found env state := by
            simp only [Engine.openModule, Exec.bind_eq, Exec.read, running, opened,
              Bool.false_eq_true, if_false]
          rw [same]
          exact runs state sound ⟨here, fresh⟩

end Handles

/-! ## Engines -/

theorem code_function {expr : Expr} (tame : expr.Tame) (small : sizeOf expr ≤ terms.size) :
    ∀ fn ∈ expr.functions, terms.code.function fn := by
  intro fn member
  obtain ⟨-, functions⟩ := tame
  have := Expr.sizeOf_mem_functions member
  exact ⟨functions fn member, by omega⟩

theorem code_super {expr : Expr} (tame : expr.Tame) (small : sizeOf expr ≤ terms.size) :
    expr.isSuper = true → terms.code.default expr :=
  fun parent => ⟨Expr.callFree_of_isSuper parent, tame, small⟩

theorem code_class {stmt : Stmt} (tame : stmt.Tame) (small : sizeOf stmt ≤ terms.size) :
    ∀ decl ∈ stmt.classes, terms.code.Class decl := by
  intro decl member
  obtain ⟨-, -, -, callFree, defaults, methods⟩ := tame
  have declSize := Stmt.sizeOf_mem_classes member
  refine ⟨fun field own expr given => ?_, fun fn own => ?_⟩
  · have value : expr ∈ decl.defaults := List.mem_filterMap.mpr ⟨field, own, given⟩
    have := ClassDecl.sizeOf_mem_defaults value
    exact ⟨callFree decl member expr value, defaults decl member expr value, by omega⟩
  · have := ClassDecl.sizeOf_mem_methods own
    exact ⟨methods decl member fn own, by omega⟩

namespace Handles

variable {depth : Nat} (handles : terms.Handles engine depth)
  (enabled : terms.limits.enabled = true)
include handles

theorem plainStep {stage : List String → List String → Prop} {expr : Expr}
    (callFree : expr.CallFree)
    (tame : expr.Tame) (small : sizeOf expr ≤ terms.size)
    (enough : terms.room 0 + sizeOf expr ≤ depth + 1) (env : FrameId) :
    terms.Ends stage Value (engine.evalStep expr env) (engine.evalStep expr env) := by
  refine Ends.catching.locate expr.pos (Ends.catching.evalForm expr env ?_
    (code_function tame small) ?_ ?_ (code_super tame small) Ends.passes)
  · intro part member
    obtain ⟨-, callFree⟩ := callFree
    obtain ⟨tame, -⟩ := tame
    have := Expr.sizeOf_mem_needs member
    exact handles.plain (callFree part member) (tame part member) (by omega) (by omega)
  · intro call
    obtain ⟨own, -⟩ := callFree
    rw [own] at call
    cases call
  · intro parent
    obtain ⟨own, -⟩ := callFree
    rw [Expr.isCall_of_isSuperCall parent] at own
    cases own

include enabled in
theorem evalStep {level : Nat} {expr : Expr} (tame : expr.Tame) (small : sizeOf expr ≤ terms.size)
    (enough : terms.room (level + 1) + sizeOf expr ≤ depth + 1) (env : FrameId) :
    terms.Ends (terms.upTo level) Value (engine.evalStep expr env)
      (engine.evalStep expr env) := by
  refine Ends.catching.locate expr.pos (Ends.catching.evalForm expr env ?_
    (code_function tame small) ?_ ?_ (code_super tame small) Ends.passes)
  · intro part member
    obtain ⟨tame, -⟩ := tame
    have := Expr.sizeOf_mem_needs member
    exact handles.eval (tame part member) (by omega) (by omega)
  · intro _
    have positive := expr.sizeOf_pos
    exact handles.call (by omega)
  · intro _
    have positive := expr.sizeOf_pos
    have room := terms.room_succ level
    exact handles.supers enabled (by omega)

include enabled in
theorem execStep {level : Nat} {stmt : Stmt} (loads : terms.Loads engine.loader)
    (tame : stmt.Tame) (small : sizeOf stmt ≤ terms.size)
    (enough : terms.room (level + 1) + sizeOf stmt ≤ depth + 1) (env : FrameId) :
    terms.Ends (terms.upTo level) Signal (engine.execStep stmt env)
      (engine.execStep stmt env) := by
  have room := terms.room_succ level
  have budget := terms.lt_room level
  have classes := code_class tame small
  obtain ⟨exprs, stmts, functions, -, -, -⟩ := tame
  have evals : ∀ part ∈ stmt.exprs,
      EvalRelated (terms.Ends (terms.upTo level)) engine engine part := by
    intro part member
    have := Stmt.sizeOf_mem_exprs member
    exact handles.eval (exprs part member) (by omega) (by omega)
  have execs : ∀ part ∈ stmt.stmts,
      ExecRelated terms.code (terms.Ends (terms.upTo level)) engine engine part := by
    intro part member
    have := Stmt.sizeOf_mem_stmts member
    exact handles.exec (stmts part member) (by omega) (by omega)
  have positive := stmt.sizeOf_pos
  refine Ends.catching.locate stmt.pos (Ends.catching.execForm stmt (fun _ => trivial) trivial
    evals execs ?_ classes
    (handles.loops enabled env evals execs (by omega)) (handles.imports loads (by omega)))
  intro fn member
  have := Stmt.sizeOf_mem_functions member
  exact ⟨functions fn member, by omega⟩

end Handles

theorem handles_ofDepth {loader : Option Loader} (enabled : terms.limits.enabled = true)
    (loads : terms.Loads loader) (depth : Nat) :
    terms.Handles (Engine.ofDepth loader depth) depth := by
  have positive := fun level => terms.lt_room level
  induction depth with
  | zero =>
      refine ⟨Nat.zero_le _, ?_, ?_, ?_, ?_⟩
      · intro stage expr _ _ _ enough
        have := positive 0
        omega
      · intro level expr _ _ enough
        have := positive (level + 1)
        omega
      · intro level stmt _ _ enough
        have := positive (level + 1)
        omega
      · intro level enough
        have := positive (level + 1)
        omega
  | succ depth ih =>
      have loaded : terms.Loads (Engine.ofDepth loader depth).loader := by
        rw [Engine.ofDepth_loader]
        exact loads
      refine ⟨Nat.le_of_eq (Engine.ofDepth_passes loader _).symm, ?_, ?_, ?_, ?_⟩
      · intro stage expr callFree tame small enough env
        rw [Engine.eval, Engine.perform_succ]
        exact ih.plainStep callFree tame small enough env
      · intro level expr tame small enough env
        rw [Engine.eval, Engine.perform_succ]
        exact ih.evalStep enabled tame small enough env
      · intro level stmt tame small enough env _
        rw [Engine.exec, Engine.perform_succ]
        exact ih.execStep enabled loaded tame small enough env
      · intro level enough callee args pos
        have room := terms.room_succ level
        rw [Engine.call, Engine.perform_succ]
        exact ih.callValue enabled (by omega) callee args pos

end Terms

/-! ## Whole runs -/

namespace Terms

/-- The terms of a run: no function is larger than the program and all modules together. -/
noncomputable def ofRun (limits : Limits) (table : ModuleTable) (program : Program) : Terms where
  limits
  keys := table.sources.entries.map Prod.fst
  size := sizeOf program.body + sizeOf (table.programs.map Program.body)

theorem ofRun_loads (limits : Limits) {table : ModuleTable} (program : Program)
    (modules : ∀ found ∈ table.programs, found.Tame) :
    (ofRun limits table program).Loads (some table.resolve) := by
  intro loader given dir path found resolved
  cases given
  obtain ⟨read, -⟩ := ModuleTable.resolve_eq_ok resolved
  obtain ⟨before, after, split, -⟩ := List.lookup_eq_some_iff.mp read
  refine ⟨by simp [ofRun, split], fun parsed result stmt member => ?_⟩
  have known := ModuleTable.mem_programs resolved result
  have one : sizeOf parsed.body < sizeOf (table.programs.map Program.body) :=
    List.sizeOf_lt_of_mem (List.mem_map_of_mem known)
  have part := List.sizeOf_lt_of_mem member
  refine ⟨modules parsed known stmt member, ?_⟩
  simp only [ofRun]
  omega

theorem runWhole {terms : Terms} {loader : Option Loader} {depth : Nat} {program : Program}
    {state : State} (enabled : terms.limits.enabled = true) (loads : terms.Loads loader)
    (tame : program.Tame) (small : sizeOf program.body ≤ terms.size)
    (enough : terms.room (terms.level [] [] + 1) + terms.size ≤ depth)
    (sound : terms.Sound state) (quiet : state.loading = []) :
    ∃ next,
      ((Engine.ofDepth loader depth).runWhole program state).state? = some next := by
  have handles := handles_ofDepth enabled loads depth
  have compatible := @Ends.catching terms (terms.upTo (terms.level [] []))
  have body : ∀ part ∈ program.body,
      ExecRelated terms.code (terms.Ends (terms.upTo (terms.level [] [])))
        (Engine.ofDepth loader depth)
        (Engine.ofDepth loader depth) part := by
    intro part member
    have := List.sizeOf_lt_of_mem member
    exact handles.exec (tame part member) (by omega) (by omega)
  have held : terms.code.frame globals := trivial
  have runs := compatible.bind (compatible.bind
    (compatible.store (.setDir globals program.baseDir held)) fun _ =>
      compatible.execProgram held program.body .nil body) fun value =>
        compatible.bind (compatible.runMain (handles.call (by omega))) fun result =>
          compatible.pure (value, result)
  obtain ⟨next, left, -⟩ := runs { state with limiter := state.limiter.reset }
    ⟨sound.code, sound.limits⟩ (by rw [quiet]; exact Nat.le_refl _)
  exact ⟨next, left⟩

end Terms

/-- Every tame program ends when the limiter is on, whatever its budgets are and whatever the
program does with them: with a value or with a fault, and with the same one on every engine that
is deep enough. -/
theorem limited_run_ends (setup : Setup) (table : ModuleTable) (program : Program)
    (enabled : setup.limits.enabled = true)
    (prelude : ∀ native ∈ setup.natives, native.isHost = false) (tame : program.Tame)
    (modules : ∀ found ∈ table.programs, found.Tame) :
    ∃ depth outcome, outcome ≠ .spent ∧ ∀ more, depth ≤ more →
      (Engine.ofDepth (some table.resolve) more).runWhole program setup.start = outcome := by
  let terms := Terms.ofRun setup.limits table program
  let depth := terms.room (terms.level [] [] + 1) + terms.size
  have code : setup.heap.Holds terms.code :=
    setup.heap_holds trivial fun native member host => by simp [prelude native member] at host
  have sound : terms.Sound setup.start := ⟨code, rfl⟩
  obtain ⟨next, left⟩ := Terms.runWhole enabled
    (Terms.ofRun_loads setup.limits program modules) tame (Nat.le_add_right _ _)
    (Nat.le_refl depth) sound rfl
  have ended : (Engine.ofDepth (some table.resolve) depth).runWhole program setup.start
      ≠ .spent := by
    intro gone
    rw [gone] at left
    cases left
  refine ⟨depth, _, ended, fun more deeper => ?_⟩
  have agrees := Engine.ofDepth_agrees (some table.resolve) deeper
  exact Agrees.catching.runWhole (Agrees.refl _) program trivial trivial
    (fun part _ env _ => agrees.jobs (.exec part env))
    (fun callee args pos => agrees.jobs (.call callee args pos)) setup.start ended

/-- A class with a field, and a `main` that loops and calls itself without end. -/
def Program.restless : Program :=
  ⟨[.class_ .unknown ⟨"A", none, [⟨"f", some (.literal .unknown .nil)⟩], [], .unknown⟩,
    .function .unknown ⟨some "main", [],
      .block ⟨[.while_ .unknown (.literal .unknown (.bool true))
        ⟨[.expr .unknown (.call .unknown (.ident .unknown "main") [])], .unknown⟩], .unknown⟩,
      .unknown⟩], "."⟩

theorem Program.restless_tame : Program.restless.Tame := by
  have literal : ∀ value, (Expr.literal .unknown value).Tame :=
    fun _ => ⟨by simp [Expr.needs], by simp [Expr.functions]⟩
  have name : (Expr.ident .unknown "main").Tame :=
    ⟨by simp [Expr.needs], by simp [Expr.functions]⟩
  have call : (Expr.call .unknown (.ident .unknown "main") []).Tame :=
    ⟨by simpa [Expr.needs, Expr.calleeNeeds] using name, by simp [Expr.functions]⟩
  have callFree : (Expr.literal .unknown .nil).CallFree := ⟨rfl, by simp [Expr.needs]⟩
  intro stmt member
  simp only [restless, List.mem_cons, List.not_mem_nil, or_false] at member
  rcases member with rfl | rfl
  · constructor <;> simp [Stmt.exprs, Stmt.stmts, Stmt.functions, Stmt.classes,
      ClassDecl.defaults, literal, callFree]
  · refine ⟨by simp [Stmt.exprs], by simp [Stmt.stmts], ?_, by simp [Stmt.classes],
      by simp [Stmt.classes], by simp [Stmt.classes]⟩
    simp only [Stmt.functions, List.mem_singleton, forall_eq]
    refine ⟨by simp [Function.exprs], ?_⟩
    simp only [Function.stmts, List.mem_singleton, forall_eq]
    refine ⟨by simp [Stmt.exprs, literal], ?_, by simp [Stmt.functions], by simp [Stmt.classes],
      by simp [Stmt.classes], by simp [Stmt.classes]⟩
    simp only [Stmt.stmts, List.mem_singleton, forall_eq]
    exact ⟨by simp [Stmt.exprs, call], by simp [Stmt.stmts], by simp [Stmt.functions],
      by simp [Stmt.classes], by simp [Stmt.classes], by simp [Stmt.classes]⟩

def Stmt.isImport : Stmt → Bool
  | .import_ .. => true
  | _ => false

theorem Stmt.tame_of_isImport (stmt : Stmt) (given : stmt.isImport = true) : stmt.Tame := by
  cases stmt with
  | import_ pos path name =>
      constructor <;> simp [Stmt.exprs, Stmt.stmts, Stmt.functions, Stmt.classes]
  | _ => cases given

def ModuleTable.looping : ModuleTable := .ofList [("lib", "import \"lib\"")]

theorem limited_run_ends_restless : ∃ depth outcome, outcome ≠ .spent ∧ ∀ more, depth ≤ more →
    (Engine.ofDepth (some ModuleTable.looping.resolve) more).runWhole .restless
      (Setup.plain ⟨3, 5, 1, true⟩).start = outcome := by
  have imports : ∀ found ∈ ModuleTable.looping.programs, found.body.all Stmt.isImport = true := by
    decide +kernel
  refine limited_run_ends (Setup.plain ⟨3, 5, 1, true⟩) .looping
    .restless rfl (by decide) Program.restless_tame fun found member stmt inside => ?_
  exact stmt.tame_of_isImport (List.all_eq_true.mp (imports found member) stmt inside)

end Rill

import Rill.Proofs.Constants
import Rill.Proofs.Raised

/-!
# Signals

A statement ends normally or with the signal of a `return`, `break` or `continue` that stands free in
it: outside every function in it, and outside every loop unless it is a `return`. No other signal
leaves a loop, and none leaves a call or an import.

A `return` that is reached makes every construct around it end with its value, up to the body of the
call, and nothing else of that body runs but the `finally` blocks on the way (`Engine.Returns`).
-/

set_option autoImplicit false

namespace Rill

/-! ## Free control statements -/

namespace Stmt

def isLoop : Stmt → Bool
  | while_ _ _ _ | for_ _ _ _ _ _ | forIn _ _ _ _ => true
  | _ => false

/-- A control statement for a signal stands in a statement, outside every function and, unless the
signal is that of a `return`, outside every loop. -/
inductive Frees : Stmt → Signal → Prop where
  | return_ (pos : Position) (expr : Option Expr) (value : Value) :
      Frees (.return_ pos expr) (.return_ value)
  | break_ (pos : Position) : Frees (.break_ pos) .break_
  | continue_ (pos : Position) : Frees (.continue_ pos) .continue_
  | inside {whole part : Stmt} {signal : Signal} (member : part ∈ whole.stmts)
      (through : whole.isLoop = true → ∃ value, signal = .return_ value)
      (free : Frees part signal) : Frees whole signal

end Stmt

/-- A run of statements ends normally, or one of them frees its signal. -/
def Signal.From (stmts : List Stmt) (signal : Signal) : Prop :=
  signal.isNormal = true ∨ ∃ stmt ∈ stmts, stmt.Frees signal

namespace Signal.From

variable {stmts others : List Stmt} {signal : Signal}

theorem normal (stmts : List Stmt) (value : Value) : Signal.From stmts (.normal value) := Or.inl rfl

theorem mono (part : stmts ⊆ others) (found : signal.From stmts) : signal.From others := by
  rcases found with normal | ⟨stmt, member, frees⟩
  · exact Or.inl normal
  · exact Or.inr ⟨stmt, part member, frees⟩

theorem whole {whole : Stmt} (found : signal.From stmts) (part : stmts ⊆ whole.stmts)
    (through : whole.isLoop = true → ∃ value, signal = .return_ value) :
    signal.From [whole] := by
  rcases found with normal | ⟨stmt, member, frees⟩
  · exact Or.inl normal
  · exact Or.inr ⟨whole, List.mem_singleton_self whole, .inside (part member) through frees⟩

end Signal.From

/-! ## Results -/

def Exec.Gives {α : Type} (x : Exec α) (P : α → Prop) : Prop :=
  ∀ state a next, x state = .done a next → P a

namespace Exec.Gives

variable {α β : Type} {P : α → Prop} {Q : β → Prop}

theorem pure {a : α} (holds : P a) : Exec.Gives (Pure.pure a) P := by
  intro state b next ended
  cases ended
  exact holds

theorem bind {x : Exec α} {f : α → Exec β} (first : x.Gives P) (second : ∀ a, P a → (f a).Gives Q) :
    (x >>= f).Gives Q := by
  intro state b last ended
  obtain ⟨a, next, begun, rest⟩ := Exec.bind_done ended
  exact second a (first state a next begun) next b last rest

theorem after {x : Exec α} {f : α → Exec β} (second : ∀ a, (f a).Gives Q) : (x >>= f).Gives Q :=
  have anything : x.Gives fun _ => True := fun _ _ _ _ => trivial
  anything.bind fun a _ => second a

theorem imp {R : α → Prop} {x : Exec α} (inner : x.Gives P) (weaker : ∀ a, P a → R a) : x.Gives R :=
  fun state a next ended => weaker a (inner state a next ended)

theorem traced {x : Exec α} (inner : x.Gives P) : (Exec.traced x).Gives P :=
  fun state a next ended => inner state a next (Exec.traced_done ended)

theorem locate {x : Exec α} (inner : x.Gives P) (pos : Position) : (Exec.locate pos x).Gives P :=
  fun state a next ended => inner state a next (Exec.locate_done ended)

theorem spent : (Exec.spent : Exec α).Gives P := by
  intro state a next ended
  cases ended

theorem throw (fault : Fault) : (Exec.throw fault : Exec α).Gives P := by
  intro state a next ended
  cases ended

theorem settle {result : Except Fault α} (holds : ∀ a, result = .ok a → P a) :
    (Exec.settle result).Gives P := by
  cases result with
  | ok a => exact pure (holds a rfl)
  | error fault => exact throw fault

theorem attempt {x : Exec α} (inner : x.Gives P) :
    (Exec.attempt x).Gives fun result => ∀ a, result = .ok a → P a := by
  intro state result next ended a same
  rw [Exec.attempt_eq] at ended
  cases outcome : x state with
  | done b between =>
      rw [outcome] at ended
      cases ended
      cases same
      exact inner state _ next outcome
  | fault fault between =>
      rw [outcome] at ended
      cases ended
      cases same
  | spent =>
      rw [outcome] at ended
      cases ended

end Exec.Gives

namespace Exec

/-- A loop lets out nothing but a `return` of its body. -/
theorem loop_gives {whole : Stmt} {stmts : List Stmt} {pass : Nat → Exec (Option Signal)}
    (part : stmts ⊆ whole.stmts) (passes : ∀ index, (pass index).Gives fun result =>
      ∀ signal, result = some signal → signal.From stmts) (rounds index : Nat) (last : Value) :
    (loop pass rounds index last).Gives (·.From [whole]) := by
  induction rounds generalizing index last with
  | zero => exact .spent
  | succ rounds ih =>
      refine .bind (passes index) fun result from_ => ?_
      match result with
      | none => exact .pure (.normal _ last)
      | some (.normal value) => exact ih (index + 1) value
      | some .continue_ => exact ih (index + 1) last
      | some .break_ => exact .pure (.normal _ last)
      | some (.return_ value) =>
          exact .pure ((from_ _ rfl).whole part fun _ => ⟨value, rfl⟩)

end Exec

namespace Engine

variable {engine : Engine} (execs : ∀ stmt env, (engine.exec stmt env).Gives (·.From [stmt]))
include execs

theorem execAll_gives (env : FrameId) (stmts : List Stmt) (last : Value) :
    (engine.execAll env stmts last).Gives (·.From stmts) := by
  induction stmts generalizing last with
  | nil => exact .pure (.normal [] last)
  | cons stmt rest ih =>
      refine .bind (execs stmt env) fun signal from_ => ?_
      have here : signal.From (stmt :: rest) := from_.mono (by simp)
      cases signal with
      | normal value => exact (ih value).imp fun _ => .mono (List.subset_cons_self stmt rest)
      | return_ | break_ | continue_ => exact .pure here

theorem execBlock_gives (block : Block) (env : FrameId) :
    (engine.execBlock block env).Gives (·.From block.stmts) :=
  .after fun frame => execAll_gives execs frame block.stmts .nil

theorem pass_gives (kind : BreachKind) (cond : Option Expr) (body : Block) (env : FrameId)
    (pos : Position) : (engine.pass kind cond body env pos).Gives fun result =>
      ∀ signal, result = some signal → signal.From body.stmts := by
  refine .after fun holds => ?_
  split
  · refine .after fun _ => .bind (execBlock_gives execs body env) fun signal from_ => .pure ?_
    rintro _ ⟨⟩
    exact from_
  · exact .pure nofun

theorem passOver_gives (name : String) (value : Value) (entries : Array (Value × Value))
    (body : Block) (env : FrameId) (pos : Position) (index : Nat) :
    (engine.passOver name value entries body env pos index).Gives fun result =>
      ∀ signal, result = some signal → signal.From body.stmts := by
  refine .after fun entry => ?_
  cases entry with
  | none => exact .pure nofun
  | some entry =>
      refine .after fun frame => .after fun _ => .after fun _ => .after fun _ => .after fun _ =>
        .after fun _ => .bind (execAll_gives execs frame body.stmts .nil) fun signal from_ => .pure ?_
      rintro _ ⟨⟩
      exact from_

theorem handle_gives (handler : Handler) (fault : Fault) (env : FrameId) :
    (engine.handle handler fault env).Gives (·.From handler.stmts) :=
  .after fun frame => .after fun _ => .after fun _ => execAll_gives execs frame handler.stmts .nil

theorem execGuarded_gives (body : Block) (handler : Option Handler) (env : FrameId) :
    (engine.execGuarded body handler env).Gives
      (·.From (body.stmts ++ handler.toList.flatMap Handler.stmts)) := by
  refine .bind (execBlock_gives execs body env).attempt fun result from_ => ?_
  match result, handler with
  | .error fault, some handler =>
      exact (handle_gives execs handler fault env).imp fun _ => .mono (by simp)
  | .ok signal, handler => exact .settle fun _ same => (from_ _ same).mono (by simp)
  | .error fault, none => exact .throw fault

theorem execTry_gives (body : Block) (handler : Option Handler) (cleanup : Option Block)
    (env : FrameId) : (engine.execTry body handler cleanup env).Gives
      (·.From (body.stmts ++ handler.toList.flatMap Handler.stmts
        ++ cleanup.toList.flatMap Block.stmts)) := by
  have guarded := execGuarded_gives execs body handler env
  cases cleanup with
  | none =>
      rw [Option.toList_none, List.flatMap_nil, List.append_nil]
      exact guarded
  | some cleanup =>
      refine .bind guarded.attempt fun result from_ => ?_
      refine .bind (execBlock_gives execs cleanup env) fun signal replaced => ?_
      cases signal with
      | normal => exact .settle fun signal same => (from_ signal same).mono (by simp)
      | return_ | break_ | continue_ => exact .pure (replaced.mono (by simp))

theorem execForm_gives (stmt : Stmt) (env : FrameId) :
    (engine.execForm stmt env).Gives (·.From [stmt]) := by
  have normal (value : Value) : (pure (.normal value) : Exec Signal).Gives (·.From [stmt]) :=
    .pure (.normal [stmt] value)
  have whole {stmts : List Stmt} {x : Exec Signal} (inner : x.Gives (·.From stmts))
      (part : stmts ⊆ stmt.stmts) (open_ : stmt.isLoop = false) : x.Gives (·.From [stmt]) := by
    refine inner.imp fun signal from_ => from_.whole part fun loop => ?_
    rw [open_] at loop
    cases loop
  cases stmt with
  | expr | assign | declare | class_ | import_ => exact .after fun _ => normal _
  | function => exact .after fun _ => .after fun _ => normal _
  | destructure => exact .after fun _ => .after fun _ => .after fun _ => normal _
  | if_ pos cond yes no =>
      refine .after fun holds => ?_
      split
      · exact whole (execBlock_gives execs yes env) (List.subset_append_left _ _) rfl
      · cases no with
        | none => exact normal _
        | some branch => exact whole (execs branch env) (List.subset_append_right _ _) rfl
  | while_ pos cond body =>
      exact Exec.loop_gives (List.Subset.refl _) (fun _ => pass_gives execs _ _ body env pos) _ _ _
  | for_ pos init cond post body =>
      refine .after fun frame => .after fun _ => ?_
      refine Exec.loop_gives (List.subset_append_right _ _) (fun index => ?_) _ _ _
      have passes := pass_gives execs .forLoop cond body frame pos
      dsimp only
      split
      · exact .after fun _ => passes
      · exact passes
  | forIn pos name source body =>
      refine .after fun value => .after fun entries => ?_
      exact Exec.loop_gives (List.Subset.refl _)
        (passOver_gives execs name value entries body env pos) _ _ _
  | block pos block => exact whole (execBlock_gives execs block env) (List.Subset.refl _) rfl
  | return_ pos expr =>
      exact .after fun value => .pure (Or.inr ⟨_, List.mem_singleton_self _, .return_ pos expr value⟩)
  | break_ pos => exact .pure (Or.inr ⟨_, List.mem_singleton_self _, .break_ pos⟩)
  | continue_ pos => exact .pure (Or.inr ⟨_, List.mem_singleton_self _, .continue_ pos⟩)
  | try_ pos body handler cleanup =>
      exact whole (execTry_gives execs body handler cleanup env) (List.Subset.refl _) rfl
  | throw_ pos value =>
      exact .after fun _ => .after fun _ => (Exec.Gives.throw _).traced.locate pos

end Engine

/-- Every engine gives a statement no signal but one that the statement frees. -/
theorem Engine.exec_gives (loader : Option Loader) (depth : Nat) (stmt : Stmt) (env : FrameId) :
    ((ofDepth loader depth).exec stmt env).Gives (·.From [stmt]) := by
  induction depth generalizing stmt env with
  | zero => exact .spent
  | succ depth ih =>
      rw [exec, perform_succ]
      exact (execForm_gives ih stmt env).locate stmt.pos

/-! ## Returns -/

/-- The state in which the statements of a block begin, in a new frame below another one. -/
def State.below (state : State) (env : FrameId) : State :=
  { state with heap := (Store.child env state.heap).2 }

/-- Passes of a loop end normally or by `continue`, from one index to a later one. Of the passes that
the loop may take, some are left. -/
inductive Exec.Turns (pass : Nat → Exec (Option Signal)) :
    (rounds index : Nat) → State → (left last : Nat) → State → Prop where
  | none (rounds index : Nat) (state : State) : Turns pass rounds index state rounds index state
  | next {rounds index left last : Nat} {state between after : State} {signal : Signal}
      (ended : pass index state = .done (some signal) between)
      (on : signal.isNormal = true ∨ signal = .continue_)
      (more : Turns pass rounds (index + 1) between left last after) :
      Turns pass (rounds + 1) index state left last after

namespace Exec

variable {pass : Nat → Exec (Option Signal)} {rounds index : Nat} {state next : State} {value : Value}

theorem bind_of_done {α β : Type} {x : Exec α} {f : α → Exec β} {a : α} {state next : State}
    (ended : x state = .done a next) : (x >>= f) state = f a next := by
  rw [bind_eq, ended]

theorem Turns.loop_eq {left last : Nat} {between : State}
    (turns : Turns pass rounds index state left last between) (value : Value) :
    ∃ latest, loop pass rounds index value state = loop pass left last latest between := by
  induction turns generalizing value with
  | none => exact ⟨value, rfl⟩
  | @next rounds index left last state between after signal ended on more ih =>
      rw [loop, bind_of_done ended]
      cases signal with
      | normal latest => exact ih latest
      | continue_ => exact ih value
      | return_ | break_ => simp [Signal.isNormal] at on

theorem Turns.loop_return {left last : Nat} {between : State}
    (turns : Turns pass rounds index state (left + 1) last between)
    (ended : pass last between = .done (some (.return_ value)) next) (first : Value) :
    loop pass rounds index first state = .done (.return_ value) next := by
  obtain ⟨latest, same⟩ := turns.loop_eq first
  rw [same, loop, bind_of_done ended]
  rfl

theorem turns_of_loop (first : Value)
    (ended : loop pass rounds index first state = .done (.return_ value) next) :
    ∃ left last between, Turns pass rounds index state (left + 1) last between ∧
      pass last between = .done (some (.return_ value)) next := by
  induction rounds generalizing index state first with
  | zero => cases ended
  | succ rounds ih =>
      obtain ⟨result, between, passed, rest⟩ := bind_done ended
      have onward {signal : Signal} (same : result = some signal) (latest : Value)
          (on : signal.isNormal = true ∨ signal = .continue_)
          (rest : loop pass rounds (index + 1) latest between = .done (.return_ value) next) :
          ∃ left last after, Turns pass (rounds + 1) index state (left + 1) last after ∧
            pass last after = .done (some (.return_ value)) next := by
        obtain ⟨left, last, after, turns, returned⟩ := ih latest rest
        exact ⟨left, last, after, .next (same ▸ passed) on turns, returned⟩
      match result with
      | none => cases rest
      | some (.normal latest) => exact onward rfl latest (Or.inl rfl) rest
      | some .continue_ => exact onward rfl first (Or.inr rfl) rest
      | some .break_ => cases rest
      | some (.return_ other) =>
          cases rest
          exact ⟨rounds, index, state, .none _ _ _, passed⟩

end Exec

namespace Engine

/-- The `finally` block of a `try`, if there is one, ends normally. -/
def Completes (engine : Engine) (cleanup : Option Block) (env : FrameId) (state next : State) :
    Prop :=
  match cleanup with
  | none => next = state
  | some cleanup => ∃ value, engine.execBlock cleanup env state = .done (.normal value) next

/-- The frame of one pass of a `for`-`in` loop, with the names of the pass, once the limiter has
granted the pass. -/
def enterPass (name : String) (value key item : Value) (env : FrameId) (pos : Position) :
    Exec FrameId := do
  let frame ← Store.child env
  Store.define frame name key
  Store.define frame "$k" key
  Store.define frame "$v" item
  Store.define frame "$c" value
  Exec.tick .forIn pos
  return frame

def enterHandler (handler : Handler) (fault : Fault) (env : FrameId) : Exec FrameId := do
  let frame ← Store.child env
  Store.define frame handler.name (← fault.caught)
  return frame

/-- What a `for` does before the condition of a pass is asked. -/
def stepFor (engine : Engine) (post : Option Stmt) (env : FrameId) (index : Nat) : Exec Unit :=
  if 0 < index then engine.execOption post env else pure ()

def passFor (engine : Engine) (cond : Option Expr) (post : Option Stmt) (body : Block)
    (env : FrameId) (pos : Position) (index : Nat) : Exec (Option Signal) := do
  engine.stepFor post env index
  engine.pass .forLoop cond body env pos

/-- Statements run up to a `return` in one of them, however deep it stands: what comes before it has
ended normally, and nothing runs after it but the `finally` blocks around it, which end normally
too. The value is that of the `return`, the last state the one that the `finally` blocks leave. -/
inductive Returns (loader : Option Loader) :
    Nat → List Stmt → FrameId → State → Value → State → Prop where
  | return_ {depth : Nat} {pos : Position} {expr : Option Expr} {rest : List Stmt} {env : FrameId}
      {state next : State} {value : Value}
      (given : (ofDepth loader depth).evalOption expr env state = .done value next) :
      Returns loader (depth + 1) (.return_ pos expr :: rest) env state value next
  | later {depth : Nat} {stmt : Stmt} {rest : List Stmt} {env : FrameId}
      {state between next : State} {value other : Value}
      (normal : (ofDepth loader depth).exec stmt env state = .done (.normal other) between)
      (more : Returns loader depth rest env between value next) :
      Returns loader depth (stmt :: rest) env state value next
  | block {depth : Nat} {pos : Position} {block : Block} {rest : List Stmt} {env : FrameId}
      {state next : State} {value : Value}
      (inner : Returns loader depth block.stmts state.heap.frames.size (state.below env) value next) :
      Returns loader (depth + 1) (.block pos block :: rest) env state value next
  | yes {depth : Nat} {pos : Position} {cond : Expr} {yes : Block} {no : Option Stmt}
      {rest : List Stmt} {env : FrameId} {state between next : State} {held value : Value}
      (asked : (ofDepth loader depth).eval cond env state = .done held between)
      (holds : held.isTruthy = true)
      (inner : Returns loader depth yes.stmts between.heap.frames.size (between.below env) value
        next) :
      Returns loader (depth + 1) (.if_ pos cond yes no :: rest) env state value next
  | no {depth : Nat} {pos : Position} {cond : Expr} {yes : Block} {no : Stmt} {rest : List Stmt}
      {env : FrameId} {state between next : State} {held value : Value}
      (asked : (ofDepth loader depth).eval cond env state = .done held between)
      (fails : held.isTruthy = false)
      (inner : Returns loader depth [no] env between value next) :
      Returns loader (depth + 1) (.if_ pos cond yes (some no) :: rest) env state value next
  | while_ {depth left last : Nat} {pos : Position} {cond : Expr} {body : Block} {rest : List Stmt}
      {env : FrameId} {state between asked begun next : State} {value : Value}
      (turns : Exec.Turns (fun _ => (ofDepth loader depth).pass .whileLoop (some cond) body env pos)
        depth 0 state (left + 1) last between)
      (holds : (ofDepth loader depth).holds (some cond) env between = .done true asked)
      (granted : Exec.tick .whileLoop pos asked = .done () begun)
      (inner : Returns loader depth body.stmts begun.heap.frames.size (begun.below env) value next) :
      Returns loader (depth + 1) (.while_ pos cond body :: rest) env state value next
  | for_ {depth left last : Nat} {pos : Position} {init : Option Stmt} {cond : Option Expr}
      {post : Option Stmt} {body : Block} {rest : List Stmt} {env frame : FrameId}
      {state ready between stepped asked begun next : State} {value : Value}
      (entered : frame = state.heap.frames.size)
      (initial : (ofDepth loader depth).execOption init frame (state.below env) = .done () ready)
      (turns : Exec.Turns ((ofDepth loader depth).passFor cond post body frame pos) depth 0 ready
        (left + 1) last between)
      (step : (ofDepth loader depth).stepFor post frame last between = .done () stepped)
      (holds : (ofDepth loader depth).holds cond frame stepped = .done true asked)
      (granted : Exec.tick .forLoop pos asked = .done () begun)
      (inner : Returns loader depth body.stmts begun.heap.frames.size (begun.below frame) value
        next) :
      Returns loader (depth + 1) (.for_ pos init cond post body :: rest) env state value next
  | forIn {depth left last : Nat} {pos : Position} {name : String} {source : Expr} {body : Block}
      {rest : List Stmt} {env frame : FrameId} {state given ready between seen begun next : State}
      {collection key item value : Value} {entries : Array (Value × Value)}
      (evaluated : (ofDepth loader depth).eval source env state = .done collection given)
      (listed : Exec.store (Store.entries collection) given = .done entries ready)
      (turns : Exec.Turns ((ofDepth loader depth).passOver name collection entries body env pos)
        depth 0 ready (left + 1) last between)
      (shown : Exec.store (Store.entryAt collection entries last) between
        = .done (some (key, item)) seen)
      (entered : enterPass name collection key item env pos seen = .done frame begun)
      (inner : Returns loader depth body.stmts frame begun value next) :
      Returns loader (depth + 1) (.forIn pos name source body :: rest) env state value next
  | tried {depth : Nat} {pos : Position} {body : Block} {handler : Option Handler}
      {cleanup : Option Block} {rest : List Stmt} {env : FrameId} {state between next : State}
      {value : Value}
      (inner : Returns loader depth body.stmts state.heap.frames.size (state.below env) value between)
      (completes : (ofDepth loader depth).Completes cleanup env between next) :
      Returns loader (depth + 1) (.try_ pos body handler cleanup :: rest) env state value next
  | handled {depth : Nat} {pos : Position} {body : Block} {handler : Handler}
      {cleanup : Option Block} {rest : List Stmt} {env frame : FrameId}
      {state thrown begun between next : State} {fault : Fault} {value : Value}
      (failed : (ofDepth loader depth).execBlock body env state = .fault fault thrown)
      (entered : enterHandler handler fault env thrown = .done frame begun)
      (inner : Returns loader depth handler.stmts frame begun value between)
      (completes : (ofDepth loader depth).Completes cleanup env between next) :
      Returns loader (depth + 1) (.try_ pos body (some handler) cleanup :: rest) env state value next
  | cleanup {depth : Nat} {pos : Position} {body cleanup : Block} {handler : Option Handler}
      {rest : List Stmt} {env : FrameId} {state between next : State} {value : Value}
      (ended : ((ofDepth loader depth).execGuarded body handler env state).state? = some between)
      (inner : Returns loader depth cleanup.stmts between.heap.frames.size (between.below env) value
        next) :
      Returns loader (depth + 1) (.try_ pos body handler (some cleanup) :: rest) env state value next

/-! ## What comes of a return -/

variable {engine : Engine} {env : FrameId} {state next : State} {value : Value}

theorem execAll_return {stmt : Stmt} (rest : List Stmt) (last : Value)
    (ended : engine.exec stmt env state = .done (.return_ value) next) :
    engine.execAll env (stmt :: rest) last state = .done (.return_ value) next := by
  rw [execAll, Exec.bind_of_done ended]
  rfl

theorem execAll_single {stmt : Stmt} {last : Value} :
    engine.execAll env [stmt] last state = .done (.return_ value) next ↔
      engine.exec stmt env state = .done (.return_ value) next := by
  refine ⟨fun ended => ?_, execAll_return [] last⟩
  obtain ⟨signal, between, run, rest⟩ := Exec.bind_done ended
  cases signal with
  | normal | break_ | continue_ => cases rest
  | return_ other =>
      cases rest
      exact run

theorem execBlock_eq (block : Block) (env : FrameId) (state : State) :
    engine.execBlock block env state
      = engine.execAll state.heap.frames.size block.stmts .nil (state.below env) := rfl

theorem exec_succ_eq {loader : Option Loader} {depth : Nat} {stmt : Stmt} {signal : Signal} :
    (ofDepth loader (depth + 1)).exec stmt env state = .done signal next ↔
      (ofDepth loader depth).execForm stmt env state = .done signal next := by
  rw [exec, perform_succ]
  refine ⟨Exec.locate_done, fun ended => ?_⟩
  change Exec.locate stmt.pos ((ofDepth loader depth).execForm stmt env) state = _
  rw [Exec.locate_eq, ended]
  rfl

theorem pass_return {kind : BreachKind} {cond : Option Expr} {body : Block} {pos : Position}
    {asked begun : State} (holds : engine.holds cond env state = .done true asked)
    (granted : Exec.tick kind pos asked = .done () begun)
    (returned : engine.execBlock body env begun = .done (.return_ value) next) :
    engine.pass kind cond body env pos state = .done (some (.return_ value)) next := by
  rw [pass, Exec.bind_of_done holds]
  change (Exec.tick kind pos >>= _) asked = _
  rw [Exec.bind_of_done granted, Exec.bind_of_done returned]
  rfl

theorem execFor_eq (init : Option Stmt) (cond : Option Expr) (post : Option Stmt) (body : Block)
    (env : FrameId) (pos : Position) : engine.execFor init cond post body env pos = (do
      let frame ← Store.child env
      engine.execOption init frame
      Exec.loop (engine.passFor cond post body frame pos) engine.passes 0 .nil) := by
  have same (frame : FrameId) : engine.passFor cond post body frame pos = (fun index => do
      if 0 < index then engine.execOption post frame
      engine.pass .forLoop cond body frame pos) := by
    funext index
    unfold passFor stepFor
    split <;> rfl
  simp only [same]
  rfl

theorem passOver_eq (name : String) (collection : Value) (entries : Array (Value × Value))
    (body : Block) (env : FrameId) (pos : Position) (index : Nat) :
    engine.passOver name collection entries body env pos index = (do
      match ← Exec.store (Store.entryAt collection entries index) with
      | none => return none
      | some (key, item) =>
          let frame ← enterPass name collection key item env pos
          return some (← engine.execAll frame body.stmts .nil)) := by
  simp only [passOver, enterPass, Exec.bind_assoc]
  rfl

theorem handle_eq (handler : Handler) (fault : Fault) (env : FrameId) :
    engine.handle handler fault env = (do
      let frame ← enterHandler handler fault env
      engine.execAll frame handler.body.stmts .nil) := by
  simp only [handle, enterHandler, Exec.bind_assoc]
  rfl

theorem execTry_return {body : Block} {handler : Option Handler} {cleanup : Option Block}
    {between : State}
    (returned : engine.execGuarded body handler env state = .done (.return_ value) between)
    (completes : engine.Completes cleanup env between next) :
    engine.execTry body handler cleanup env state = .done (.return_ value) next := by
  cases cleanup with
  | none =>
      cases completes
      exact returned
  | some cleanup =>
      obtain ⟨other, ended⟩ := completes
      rw [execTry_some, returned]
      simp only [Outcome.state?, ended, Outcome.mapState]

theorem Returns.execAll_eq {loader : Option Loader} {depth : Nat} {stmts : List Stmt}
    (returns : Returns loader depth stmts env state value next) (last : Value) :
    (ofDepth loader depth).execAll env stmts last state = .done (.return_ value) next := by
  induction returns generalizing last with
  | later normal more ih =>
      rw [execAll, Exec.bind_of_done normal]
      exact ih _
  | return_ given =>
      refine execAll_return _ _ (exec_succ_eq.mpr ?_)
      change ((ofDepth loader _).evalOption _ _ >>= _) _ = _
      rw [Exec.bind_of_done given]
      rfl
  | block inner ih => exact execAll_return _ _ (exec_succ_eq.mpr (ih .nil))
  | @yes depth pos cond yes no rest env state between next held value asked holds inner ih =>
      refine execAll_return _ _ (exec_succ_eq.mpr ?_)
      change ((ofDepth loader depth).eval cond env >>= _) state = _
      rw [Exec.bind_of_done asked, if_pos holds]
      exact ih .nil
  | @no depth pos cond yes no rest env state between next held value asked fails inner ih =>
      refine execAll_return _ _ (exec_succ_eq.mpr ?_)
      change ((ofDepth loader depth).eval cond env >>= _) state = _
      rw [Exec.bind_of_done asked]
      change (if held.isTruthy then _ else (ofDepth loader depth).exec no env) between = _
      rw [if_neg (by simp [fails])]
      exact execAll_single.mp (ih .nil)
  | while_ turns holds granted inner ih =>
      refine execAll_return _ _ (exec_succ_eq.mpr ?_)
      rw [execForm, execWhile, ofDepth_passes]
      exact turns.loop_return (pass_return holds granted (ih .nil)) .nil
  | for_ entered initial turns step holds granted inner ih =>
      subst entered
      refine execAll_return _ _ (exec_succ_eq.mpr ?_)
      rw [execForm, execFor_eq]
      change ((ofDepth loader _).execOption _ _ >>= _) (State.below _ _) = _
      rw [Exec.bind_of_done initial, ofDepth_passes]
      refine turns.loop_return ?_ .nil
      rw [passFor, Exec.bind_of_done step]
      exact pass_return holds granted (ih .nil)
  | forIn evaluated listed turns shown entered inner ih =>
      refine execAll_return _ _ (exec_succ_eq.mpr ?_)
      rw [execForm, execForIn, Exec.bind_of_done evaluated]
      refine (Exec.bind_of_done listed).trans ?_
      rw [ofDepth_passes]
      refine turns.loop_return ?_ .nil
      rw [passOver_eq, Exec.bind_of_done shown]
      refine (Exec.bind_of_done entered).trans ?_
      rw [Exec.bind_of_done (ih .nil)]
      rfl
  | tried inner completes ih =>
      refine execAll_return _ _ (exec_succ_eq.mpr (execTry_return ?_ completes))
      have ended := ih .nil
      rw [← execBlock_eq] at ended
      cases ‹Option Handler› with
      | none => rw [execGuarded_none, ended]
      | some handler => rw [execGuarded_some, ended]
  | handled failed entered inner completes ih =>
      refine execAll_return _ _ (exec_succ_eq.mpr (execTry_return ?_ completes))
      rw [execGuarded_some, failed]
      change (ofDepth loader _).handle _ _ _ _ = _
      rw [handle_eq, Exec.bind_of_done entered]
      exact ih .nil
  | cleanup ended inner ih =>
      refine execAll_return _ _ (exec_succ_eq.mpr ?_)
      rw [execForm, execTry_some, ended]
      have replaced := ih .nil
      rw [← execBlock_eq] at replaced
      simp only [replaced]

/-! ## Where a return comes from -/

theorem pass_returned {kind : BreachKind} {cond : Option Expr} {body : Block} {pos : Position}
    (returned : engine.pass kind cond body env pos state = .done (some (.return_ value)) next) :
    ∃ asked begun, engine.holds cond env state = .done true asked ∧
      Exec.tick kind pos asked = .done () begun ∧
      engine.execBlock body env begun = .done (.return_ value) next := by
  obtain ⟨held, asked, holds, rest⟩ := Exec.bind_done returned
  cases held with
  | false => cases rest
  | true =>
      obtain ⟨⟨⟩, begun, granted, rest⟩ := Exec.bind_done rest
      obtain ⟨signal, after, run, rest⟩ := Exec.bind_done rest
      cases rest
      exact ⟨asked, begun, holds, granted, run⟩

theorem execGuarded_returned {body : Block} {handler : Option Handler}
    (returned : engine.execGuarded body handler env state = .done (.return_ value) next) :
    engine.execBlock body env state = .done (.return_ value) next ∨
      ∃ given fault thrown, handler = some given ∧
        engine.execBlock body env state = .fault fault thrown ∧
        engine.handle given fault env thrown = .done (.return_ value) next := by
  cases handler with
  | none => exact Or.inl (by rwa [execGuarded_none] at returned)
  | some handler =>
      rw [execGuarded_some] at returned
      split at returned
      · next fault thrown failed => exact Or.inr ⟨handler, fault, thrown, rfl, failed, returned⟩
      · exact Or.inl returned

theorem execTry_returned {body : Block} {handler : Option Handler} {cleanup : Option Block}
    (returned : engine.execTry body handler cleanup env state = .done (.return_ value) next) :
    (∃ between, engine.execGuarded body handler env state = .done (.return_ value) between ∧
      engine.Completes cleanup env between next) ∨
    ∃ last between, cleanup = some last ∧
      (engine.execGuarded body handler env state).state? = some between ∧
      engine.execBlock last env between = .done (.return_ value) next := by
  cases cleanup with
  | none => exact Or.inl ⟨next, returned, rfl⟩
  | some cleanup =>
      rw [execTry_some] at returned
      split at returned
      · cases returned
      · next between ended =>
          split at returned
          · next other after completes =>
              obtain ⟨_, guarded, rfl⟩ := Outcome.mapState_done returned
              rw [guarded] at ended
              cases ended
              exact Or.inl ⟨between, guarded, other, completes⟩
          · exact Or.inr ⟨cleanup, between, rfl, ended, returned⟩

/-- A statement that ends with the value of a `return` has run up to one, if that is so of the
statements in it. -/
theorem returns_of_execForm {loader : Option Loader} {depth : Nat}
    (inner : ∀ {stmts env last state value next},
      (ofDepth loader depth).execAll env stmts last state = .done (.return_ value) next →
        Returns loader depth stmts env state value next)
    {stmt : Stmt} (rest : List Stmt)
    (ended : (ofDepth loader depth).execForm stmt env state = .done (.return_ value) next) :
    Returns loader (depth + 1) (stmt :: rest) env state value next := by
  cases stmt with
  | expr | assign | declare | class_ | import_ =>
      obtain ⟨_, _, _, ended⟩ := Exec.bind_done ended
      cases ended
  | function =>
      obtain ⟨_, _, _, ended⟩ := Exec.bind_done ended
      obtain ⟨_, _, _, ended⟩ := Exec.bind_done ended
      cases ended
  | destructure =>
      obtain ⟨_, _, _, ended⟩ := Exec.bind_done ended
      obtain ⟨_, _, _, ended⟩ := Exec.bind_done ended
      obtain ⟨_, _, _, ended⟩ := Exec.bind_done ended
      cases ended
  | break_ | continue_ => cases ended
  | throw_ pos thrown =>
      obtain ⟨_, _, _, ended⟩ := Exec.bind_done ended
      obtain ⟨_, _, _, ended⟩ := Exec.bind_done ended
      cases Exec.traced_done (Exec.locate_done ended)
  | return_ pos expr =>
      obtain ⟨given, after, evaluated, ended⟩ := Exec.bind_done ended
      cases ended
      exact .return_ evaluated
  | block pos block => exact .block (inner ended)
  | if_ pos cond yes no =>
      obtain ⟨held, between, asked, ended⟩ := Exec.bind_done ended
      by_cases holds : held.isTruthy = true
      · rw [if_pos holds] at ended
        exact .yes asked holds (inner ended)
      · rw [if_neg holds] at ended
        cases no with
        | none => cases ended
        | some no =>
            have fails : held.isTruthy = false := by simpa using holds
            have listed : (ofDepth loader depth).execAll env [no] .nil between
                = .done (.return_ value) next := execAll_single.mpr ended
            exact .no asked fails (inner listed)
  | while_ pos cond body =>
      rw [execForm, execWhile, ofDepth_passes] at ended
      obtain ⟨left, last, between, turns, returned⟩ := Exec.turns_of_loop .nil ended
      obtain ⟨asked, begun, holds, granted, run⟩ := pass_returned returned
      exact .while_ turns holds granted (inner run)
  | for_ pos init cond post body =>
      rw [execForm, execFor_eq] at ended
      obtain ⟨⟨⟩, ready, initial, ended⟩ := Exec.bind_done
        (show ((ofDepth loader depth).execOption init state.heap.frames.size >>= _)
          (state.below env) = _ from ended)
      rw [ofDepth_passes] at ended
      obtain ⟨left, last, between, turns, returned⟩ := Exec.turns_of_loop .nil ended
      obtain ⟨⟨⟩, stepped, step, returned⟩ := Exec.bind_done returned
      obtain ⟨asked, begun, holds, granted, run⟩ := pass_returned returned
      exact .for_ rfl initial turns step holds granted (inner run)
  | forIn pos name source body =>
      obtain ⟨collection, given, evaluated, ended⟩ := Exec.bind_done ended
      obtain ⟨entries, ready, listed, ended⟩ := Exec.bind_done ended
      rw [ofDepth_passes] at ended
      obtain ⟨left, last, between, turns, returned⟩ := Exec.turns_of_loop .nil ended
      rw [passOver_eq] at returned
      obtain ⟨entry, seen, shown, returned⟩ := Exec.bind_done returned
      cases entry with
      | none => cases returned
      | some entry =>
          obtain ⟨key, item⟩ := entry
          obtain ⟨frame, begun, entered, returned⟩ := Exec.bind_done returned
          obtain ⟨signal, after, run, returned⟩ := Exec.bind_done returned
          cases returned
          exact .forIn evaluated listed turns shown entered (inner run)
  | try_ pos body handler cleanup =>
      rcases execTry_returned ended with ⟨between, guarded, completes⟩ |
        ⟨cleanup, between, rfl, ended, run⟩
      · rcases execGuarded_returned guarded with run | ⟨handler, fault, thrown, rfl, failed, handled⟩
        · exact .tried (inner run) completes
        · rw [handle_eq] at handled
          obtain ⟨frame, begun, entered, run⟩ := Exec.bind_done handled
          exact .handled failed entered (inner run) completes
      · exact .cleanup ended (inner run)

theorem returns_of_execAll {loader : Option Loader} {depth : Nat} {stmts : List Stmt}
    {last : Value}
    (ended : (ofDepth loader depth).execAll env stmts last state = .done (.return_ value) next) :
    Returns loader depth stmts env state value next := by
  induction depth generalizing stmts env state value next last with
  | zero =>
      cases stmts with
      | nil => cases ended
      | cons stmt rest => cases ended
  | succ depth ihDepth =>
      induction stmts generalizing state last with
      | nil => cases ended
      | cons stmt rest ihRest =>
          obtain ⟨signal, between, run, remaining⟩ := Exec.bind_done ended
          cases signal with
          | normal other => exact .later run (ihRest remaining)
          | break_ | continue_ => cases remaining
          | return_ other =>
              cases remaining
              exact returns_of_execForm (fun run => ihDepth run) rest (exec_succ_eq.mp run)

theorem execAll_append_return {stmts : List Stmt} (later : List Stmt) {last : Value}
    (ended : engine.execAll env stmts last state = .done (.return_ value) next) :
    engine.execAll env (stmts ++ later) last state = .done (.return_ value) next := by
  induction stmts generalizing state last with
  | nil => cases ended
  | cons stmt rest ih =>
      obtain ⟨signal, between, run, remaining⟩ := Exec.bind_done ended
      cases signal with
      | normal other =>
          rw [List.cons_append, execAll, Exec.bind_of_done run]
          exact ih remaining
      | return_ other =>
          cases remaining
          exact execAll_return (rest ++ later) last run
      | break_ | continue_ => cases remaining

/-! ## Calls -/

/-- However the body of a call ends, the call ends with a value. -/
theorem invoke_of_body {fn : Function} {block : Block} {args : List Value} {pos : Position}
    {limiter : Limiter} {begun : State} {signal : Signal} (body : fn.body = .block block)
    (granted : state.limiter.enter fn.label pos = .ok () limiter)
    (bound : engine.bindParams env fn.params args { state with limiter } = .done () begun)
    (ended : engine.execAll env block.stmts .nil begun = .done signal next) :
    engine.invoke fn env args pos state
      = .done signal.value { next with limiter := next.limiter.leave } := by
  have run : (do
      engine.bindParams env fn.params args
      engine.runBody fn.body env) { state with limiter } = .done signal.value next := by
    rw [Exec.bind_of_done bound, body]
    change (engine.execAll env block.stmts .nil >>= _) begun = _
    rw [Exec.bind_of_done ended]
    rfl
  rw [invoke, Exec.locate_eq, Exec.called_eq, granted]
  simp only [Exec.traced_eq, run]
  rfl

end Engine

/-- A loop frees no signal but that of a `return`. -/
theorem Stmt.Frees.of_loop {stmt : Stmt} {signal : Signal} (frees : stmt.Frees signal)
    (loop : stmt.isLoop = true) : ∃ value, signal = .return_ value := by
  cases frees with
  | return_ pos expr value => exact ⟨value, rfl⟩
  | break_ | continue_ => cases loop
  | inside member through free => exact through loop

/-- A statement ends normally or with the signal of a control statement that stands free in it, and a
loop never with that of a `break` or `continue`. The end of a module is no end of the import, and
however the body of a call ends, the call has a value. A list of statements ends by a `return`
exactly if it runs up to one. Then the call whose body it is has the value of that `return`, in the
state that the `finally` blocks around it leave, whatever comes later in the body. -/
theorem signals_come_free (loader : Option Loader) (depth : Nat) :
    (∀ (stmt : Stmt) (env : FrameId) (state next : State) (signal : Signal),
      (Engine.ofDepth loader depth).exec stmt env state = .done signal next →
        (signal.isNormal = true ∨ stmt.Frees signal) ∧
        (stmt.isLoop = true → signal ≠ .break_ ∧ signal ≠ .continue_)) ∧
    (∀ (pos : Position) (path : String) (name : Option String) (env : FrameId)
        (state next : State) (signal : Signal),
      (Engine.ofDepth loader depth).exec (.import_ pos path name) env state = .done signal next →
        signal = .normal .nil) ∧
    (∀ (stmts : List Stmt) (env : FrameId) (last value : Value) (state next : State),
      (Engine.ofDepth loader depth).execAll env stmts last state = .done (.return_ value) next ↔
        Engine.Returns loader depth stmts env state value next) ∧
    ∀ (fn : Function) (block : Block) (env : FrameId) (args : List Value) (pos : Position)
        (state begun next : State) (limiter : Limiter), fn.body = .block block →
      state.limiter.enter fn.label pos = .ok () limiter →
      (Engine.ofDepth loader depth).bindParams env fn.params args { state with limiter }
        = .done () begun →
      (∀ signal, (Engine.ofDepth loader depth).execAll env block.stmts .nil begun
          = .done signal next →
        (Engine.ofDepth loader depth).invoke fn env args pos state
          = .done signal.value { next with limiter := next.limiter.leave }) ∧
      ∀ (stmts later : List Stmt) (value : Value), block.stmts = stmts ++ later →
        Engine.Returns loader depth stmts env begun value next →
        (Engine.ofDepth loader depth).invoke fn env args pos state
          = .done value { next with limiter := next.limiter.leave } := by
  refine ⟨fun stmt env state next signal ended => ?_,
    fun pos path name env state next signal ended => ?_, fun stmts env last value state next =>
      ⟨Engine.returns_of_execAll, fun returns => returns.execAll_eq last⟩,
    fun fn block env args pos state begun next limiter body granted bound =>
      ⟨fun signal => Engine.invoke_of_body body granted bound,
        fun stmts later value split returns => ?_⟩⟩
  · rcases Engine.exec_gives loader depth stmt env state signal next ended with normal |
      ⟨whole, member, frees⟩
    · exact ⟨Or.inl normal, fun _ => by cases signal <;> simp_all [Signal.isNormal]⟩
    · cases List.mem_singleton.mp member
      refine ⟨Or.inr frees, fun loop => ?_⟩
      obtain ⟨value, rfl⟩ := frees.of_loop loop
      exact ⟨nofun, nofun⟩
  · cases depth with
    | zero => cases ended
    | succ depth =>
        obtain ⟨_, _, _, ended⟩ := Exec.bind_done (Engine.exec_succ_eq.mp ended)
        cases ended
        rfl
  · have returned := Engine.execAll_append_return later (returns.execAll_eq .nil)
    exact Engine.invoke_of_body body granted bound (split ▸ returned)

def Stmt.persisting : Stmt :=
  .while_ .unknown (.literal .unknown (.bool true)) ⟨[.try_ .unknown
    ⟨[.return_ .unknown (some (.literal .unknown (.bool true)))], .unknown⟩ none
    (some ⟨[], .unknown⟩)], .unknown⟩

/-- A function that would throw after a loop, if the loop did not return. -/
def Function.persisting : Function :=
  ⟨some "f", [], .block ⟨[.persisting, .throw_ .unknown (.literal .unknown .nil)], .unknown⟩,
    .unknown⟩

def ModuleTable.returning : ModuleTable := .ofList [("lib", "return")]

/-- The function returns out of the loop, and an import of a module that returns ends normally. -/
theorem signals_come_free_persisting :
    let engine := Engine.ofDepth (some ModuleTable.returning.resolve) 5
    let start := (Setup.plain .default).start
    (∃ next, engine.invoke .persisting globals [] .unknown start = .done (.bool true) next) ∧
    (∃ next, engine.exec .persisting globals start = .done (.return_ (.bool true)) next ∧
      Stmt.persisting.Frees (.return_ (.bool true))) ∧
    ∃ next, engine.exec (.import_ .unknown "lib" none) globals start = .done (.normal .nil) next := by
  intro engine start
  obtain ⟨frees, imports, returns, calls⟩ := signals_come_free (some ModuleTable.returning.resolve) 5
  have reached (state begun : State) (granted : Exec.tick .whileLoop .unknown state = .done () begun) :
      ∃ next, Engine.Returns (some ModuleTable.returning.resolve) 5 [.persisting] globals state
        (.bool true) next :=
    ⟨_, .while_ (.none _ _ _) rfl granted (.tried (.return_ rfl) ⟨.nil, rfl⟩)⟩
  refine ⟨?_, ?_, ?_⟩
  · obtain ⟨limiter, entered⟩ : ∃ limiter, start.limiter.enter "f" .unknown = .ok () limiter := ⟨_, rfl⟩
    obtain ⟨begun, granted⟩ : ∃ begun,
        Exec.tick .whileLoop .unknown { start with limiter } = .done () begun := by
      cases entered
      exact ⟨_, rfl⟩
    obtain ⟨next, run⟩ := reached _ begun granted
    obtain ⟨-, returned⟩ := calls .persisting _ globals [] .unknown start _ next limiter rfl entered rfl
    exact ⟨_, returned [.persisting] [.throw_ .unknown (.literal .unknown .nil)] _ rfl run⟩
  · obtain ⟨next, run⟩ := reached start _ rfl
    have ended := Engine.execAll_single.mp ((returns [.persisting] _ .nil _ _ _).mpr run)
    rcases (frees _ _ _ _ _ ended).1 with normal | free
    · cases normal
    · exact ⟨next, ended, free⟩
  · have ends : (engine.exec (.import_ .unknown "lib" none) globals start).isDone = true := by
      decide +kernel
    cases ended : engine.exec (.import_ .unknown "lib" none) globals start with
    | done signal next =>
        cases imports _ _ _ _ _ _ _ ended
        exact ⟨next, rfl⟩
    | fault | spent =>
        rw [ended] at ends
        cases ends

end Rill

import Rill.Proofs.Depth
import Rill.Proofs.Frames

/-!
# Compound assignment

A compound assignment is short for an assignment of the operator's result (`exec_compound`). The
short form evaluates the parts of its target once and keeps what they stand for, a `Slot`, to read
from it and later to write to it. The long form evaluates them again as an operand. When they are
names and literals this finds the same slot, because nothing happens in between; whatever the value
does, it does after both. Then both forms read one slot, run the value, apply the operator and write
to that slot.
-/

set_option autoImplicit false

namespace Rill

/-! ## Up to the position of a fault -/

/-- The outcome without the position noted on a fault. -/
def Outcome.unplaced {α : Type} (outcome : Outcome α) : Outcome α :=
  outcome.mapFault fun fault _ => { fault with position := none }

namespace Exec

/-- Executions that end alike from every state, up to the position noted on a fault. -/
def Alike {α : Type} (x y : Exec α) : Prop := ∀ state, (x state).unplaced = (y state).unplaced

namespace Alike

variable {α β : Type} {x y z : Exec α}

theorem refl (x : Exec α) : Alike x x := fun _ => rfl

theorem symm (alike : Alike x y) : Alike y x := fun state => (alike state).symm

theorem trans (first : Alike x y) (second : Alike y z) : Alike x z := fun state =>
  (first state).trans (second state)

theorem locate (pos : Position) (x : Exec α) : Alike (Exec.locate pos x) x := by
  intro state
  rw [locate_eq]
  cases x state with
  | fault fault next =>
      simp only [Outcome.unplaced, Outcome.mapFault, Fault.locate]
      split <;> rfl
  | done | spent => rfl

theorem bind {f g : α → Exec β} (first : Alike x y) (second : ∀ a, Alike (f a) (g a)) :
    Alike (x >>= f) (y >>= g) := by
  intro state
  have begun := first state
  rw [bind_eq, bind_eq]
  cases left : x state <;> cases right : y state
  all_goals simp only [left, right, Outcome.unplaced, Outcome.mapFault, Outcome.done.injEq,
    Outcome.fault.injEq, reduceCtorEq] at begun ⊢
  · obtain ⟨rfl, rfl⟩ := begun
    exact second _ _
  · exact begun

end Alike

theorem store_bind {α β : Type} (x : Store α) (f : α → Store β) :
    (liftM (x >>= f) : Exec β) = (liftM x : Exec α) >>= fun a => liftM (f a) := by
  funext state
  have run : (x >>= f) state.heap = Store.bind x f state.heap := rfl
  rw [bind_eq, store_eq, store_eq, run]
  unfold Store.bind
  cases x state.heap with
  | mk result next => cases result <;> rfl

/-- What only reads the heap finds the same again. -/
theorem store_twice {α β : Type} {x : Store α} (reads : ∀ heap, (x heap).2 = heap)
    (f : α → α → Exec β) :
    ((do let a ← (liftM x : Exec α); let b ← (liftM x : Exec α); f a b) : Exec β)
      = (do let a ← (liftM x : Exec α); f a a) := by
  funext state
  have same := reads state.heap
  rw [bind_eq, bind_eq, store_eq]
  cases found : x state.heap with
  | mk result next =>
      rw [found] at same
      obtain rfl : next = state.heap := same
      cases result with
      | ok a => simp only [bind_eq, store_eq, found]
      | error cause => rfl

end Exec

/-! ## The places of assignments -/

/-- An expression that has no effect: a name or a literal. -/
inductive Leaf where
  | name (text : String)
  | literal (value : Literal)

namespace Leaf

def expr (pos : Position) : Leaf → Expr
  | name text => .ident pos text
  | literal value => .literal pos value

def value (env : FrameId) : Leaf → Store Value
  | name text => Store.get env text
  | literal value => pure value.value

end Leaf

/-- A target of an assignment all of whose parts are names or literals: a variable, or a member or
an element of what a variable holds. -/
inductive Target where
  | named (name : String)
  | member (object name : String)
  | element (object : String) (key : Leaf)

/-- Where the parts of a target stand in a text. -/
structure Placement where
  whole : Position
  object : Position
  key : Position

/-- What an assignment reads and writes, once the parts of its target have been evaluated. -/
inductive Slot where
  | named (env : FrameId) (name : String)
  | member (owner : Value) (name : String)
  | element (owner key : Value)

namespace Slot

def read : Slot → Store Value
  | named env name => Store.get env name
  | member owner name => Access.getMember owner name
  | element owner key => Access.getIndex owner key

def write (value : Value) : Slot → Store Unit
  | named env name => Store.update env name value
  | member owner name => Access.setMember owner name value
  | element owner key => Access.setIndex owner key value

end Slot

namespace Target

def expr (at_ : Placement) : Target → Expr
  | named name => .ident at_.whole name
  | member object name => .member at_.whole (.ident at_.object object) name false
  | element object key => .index at_.whole (.ident at_.object object) (key.expr at_.key)

def reach (env : FrameId) : Target → Store Slot
  | named name => pure (.named env name)
  | member object name => do return .member (← Store.get env object) name
  | element object key => do return .element (← Store.get env object) (← key.value env)

def compound (target : Target) (op : AssignOp) (value : Expr) (at_ : Placement)
    (pos : Position) : Stmt :=
  .assign pos (target.expr at_) op value

def spelledOut (target : Target) (op : BinaryOp) (value : Expr) (left right : Placement)
    (pos operator : Position) : Stmt :=
  .assign pos (target.expr left) .set (.binary operator op (target.expr right) value)

theorem isTarget_expr (target : Target) (at_ : Placement) :
    Grammar.isTarget (target.expr at_) = true := by
  cases target <;> rfl

end Target

/-! ## Evaluation -/

theorem Store.get_reads (env : FrameId) (name : String) (heap : Heap) :
    (Store.get env name heap).2 = heap := by
  unfold Store.get
  rw [Store.read_bind]
  cases heap.get? env name <;> rfl

theorem Leaf.value_reads (env : FrameId) (leaf : Leaf) (heap : Heap) :
    (leaf.value env heap).2 = heap := by
  cases leaf with
  | name text => exact Store.get_reads env text heap
  | literal value => rfl

theorem Store.bind_reads {α β : Type} {x : Store α} {f : α → Store β}
    (first : ∀ heap, (x heap).2 = heap) (second : ∀ a heap, (f a heap).2 = heap) (heap : Heap) :
    ((x >>= f) heap).2 = heap := by
  have same := first heap
  change (Store.bind x f heap).2 = heap
  unfold Store.bind
  cases found : x heap with
  | mk result next =>
      rw [found] at same
      obtain rfl : next = heap := same
      cases result with
      | ok a => exact second a next
      | error cause => rfl

theorem Target.reach_reads (env : FrameId) (target : Target) (heap : Heap) :
    (target.reach env heap).2 = heap := by
  cases target with
  | named name => rfl
  | member object name =>
      apply Store.bind_reads (Store.get_reads env object)
      intro owner heap
      rfl
  | element object key =>
      apply Store.bind_reads (Store.get_reads env object)
      intro owner heap
      apply Store.bind_reads (key.value_reads env)
      intro key heap
      rfl

namespace Engine

open Exec (Alike)

def reach (engine : Engine) (target : Target) (at_ : Placement) (env : FrameId) : Exec Slot := do
  match target with
  | .named name => return .named env name
  | .member object name => return .member (← engine.eval (.ident at_.object object) env) name
  | .element object key =>
      let owner ← engine.eval (.ident at_.object object) env
      return .element owner (← engine.eval (key.expr at_.key) env)

theorem assign_reach (engine : Engine) (target : Target) (at_ : Placement) (op : AssignOp)
    (value : Expr) (env : FrameId) :
    engine.assign (target.expr at_) op value env = (do
      let slot ← engine.reach target at_ env
      let result ← engine.assigned op slot.read value env
      slot.write result
      return result) := by
  cases target with
  | named name => rfl
  | member object name =>
      simp only [reach, Exec.bind_assoc]
      rfl
  | element object key =>
      simp only [reach, Exec.bind_assoc]
      rfl

theorem evalForm_reach (engine : Engine) (target : Target) (at_ : Placement) (env : FrameId) :
    engine.evalForm (target.expr at_) env = (do
      let slot ← engine.reach target at_ env
      slot.read) := by
  cases target with
  | named name => rfl
  | member object name =>
      simp only [reach, Exec.bind_assoc]
      rfl
  | element object key =>
      simp only [reach, Exec.bind_assoc]
      rfl

theorem evalBinary_strict {op : AssignOp} {binary : BinaryOp} (applied : op.binary = some binary)
    (engine : Engine) (left right : Expr) (env : FrameId) :
    engine.evalBinary binary left right env = (do
      let first ← engine.eval left env
      let second ← engine.eval right env
      Operation.binary binary first second) := by
  cases op <;> cases applied <;> rfl

theorem assigned_compound {op : AssignOp} {binary : BinaryOp} (applied : op.binary = some binary)
    (engine : Engine) (current : Store Value) (value : Expr) (env : FrameId) :
    engine.assigned op current value env = (do
      let first ← current
      let second ← engine.eval value env
      Operation.binary binary first second) := by
  unfold assigned
  rw [applied]

section Depth

variable (loader : Option Loader) (depth : Nat)

theorem eval_alike (expr : Expr) (env : FrameId) :
    Alike ((ofDepth loader (depth + 1)).eval expr env)
      ((ofDepth loader depth).evalForm expr env) := by
  change Alike ((ofDepth loader (depth + 1)).perform (.eval expr env)) _
  rw [perform_succ]
  exact .locate _ _

theorem exec_alike (stmt : Stmt) (env : FrameId) :
    Alike ((ofDepth loader (depth + 1)).exec stmt env)
      ((ofDepth loader depth).execForm stmt env) := by
  change Alike ((ofDepth loader (depth + 1)).perform (.exec stmt env)) _
  rw [perform_succ]
  exact .locate _ _

theorem eval_leaf (leaf : Leaf) (pos : Position) (env : FrameId) :
    Alike ((ofDepth loader (depth + 1)).eval (leaf.expr pos) env) (liftM (leaf.value env)) := by
  apply (eval_alike loader depth (leaf.expr pos) env).trans
  cases leaf <;> exact .refl _

/-- Since the parts of a target are names and literals, they are found in the heap. -/
theorem reach_alike (target : Target) (at_ : Placement) (env : FrameId) :
    Alike ((ofDepth loader (depth + 1)).reach target at_ env) (liftM (target.reach env)) := by
  cases target with
  | named name => exact .refl _
  | member object name =>
      unfold Target.reach
      rw [Exec.store_bind]
      apply Alike.bind (eval_leaf loader depth (.name object) at_.object env)
      intro owner
      exact .refl _
  | element object key =>
      unfold Target.reach
      rw [Exec.store_bind]
      apply Alike.bind (eval_leaf loader depth (.name object) at_.object env)
      intro owner
      rw [Exec.store_bind]
      apply Alike.bind (eval_leaf loader depth key at_.key env)
      intro key
      exact .refl _

theorem eval_target (target : Target) (at_ : Placement) (env : FrameId) :
    Alike ((ofDepth loader (depth + 2)).eval (target.expr at_) env) (do
      let slot ← target.reach env
      slot.read) := by
  apply (eval_alike loader (depth + 1) (target.expr at_) env).trans
  rw [evalForm_reach]
  apply Alike.bind (reach_alike loader depth target at_ env)
  intro slot
  exact .refl _

theorem assign_short {op : AssignOp} {binary : BinaryOp} (applied : op.binary = some binary)
    (target : Target) (at_ : Placement) (value : Expr) (env : FrameId) :
    Alike ((ofDepth loader (depth + 2)).assign (target.expr at_) op value env) (do
      let slot ← target.reach env
      let first ← slot.read
      let second ← (ofDepth loader (depth + 2)).eval value env
      let result ← Operation.binary binary first second
      slot.write result
      return result) := by
  rw [assign_reach]
  apply Alike.bind (reach_alike loader (depth + 1) target at_ env)
  intro slot
  rw [assigned_compound applied]
  simp only [Exec.bind_assoc]
  exact .refl _

theorem assign_long {op : AssignOp} {binary : BinaryOp} (applied : op.binary = some binary)
    (target : Target) (at_ again : Placement) (pos : Position) (value : Expr) (env : FrameId) :
    Alike ((ofDepth loader (depth + 3)).assign (target.expr at_) .set
        (.binary pos binary (target.expr again) value) env) (do
      let slot ← target.reach env
      let twin ← target.reach env
      let first ← twin.read
      let second ← (ofDepth loader (depth + 2)).eval value env
      let result ← Operation.binary binary first second
      slot.write result
      return result) := by
  rw [assign_reach]
  apply Alike.bind (reach_alike loader (depth + 2) target at_ env)
  intro slot
  have valued : Alike
      ((ofDepth loader (depth + 3)).assigned .set slot.read
        (.binary pos binary (target.expr again) value) env) (do
          let first ← (do
            let twin ← target.reach env
            twin.read)
          let second ← (ofDepth loader (depth + 2)).eval value env
          Operation.binary binary first second) := by
    apply (eval_alike loader (depth + 2) _ env).trans
    change Alike ((ofDepth loader (depth + 2)).evalBinary binary (target.expr again) value env) _
    rw [evalBinary_strict applied]
    apply Alike.bind (eval_target loader depth target again env)
    intro first
    exact .refl _
  have bound := Alike.bind valued fun result =>
    Alike.refl (do Exec.store (slot.write result); return result)
  simp only [Exec.bind_assoc] at bound
  exact bound

/-- A compound assignment is short for an assignment of what its operator makes of the target and
the value: both end alike from every state, up to the position noted on a fault. The long form needs
one more level, since the value is an operand there; where an engine finishes it all the same, it
ends as the short form does on that engine. -/
theorem exec_compound {op : AssignOp} {binary : BinaryOp} (applied : op.binary = some binary)
    (target : Target) (value : Expr) (at_ left right : Placement) (short long operator : Position)
    (env : FrameId) (state : State) :
    (((ofDepth loader (depth + 4)).exec
          (target.spelledOut binary value left right long operator) env state).unplaced
      = ((ofDepth loader (depth + 3)).exec
          (target.compound op value at_ short) env state).unplaced)
    ∧ ((ofDepth loader (depth + 3)).exec
          (target.spelledOut binary value left right long operator) env state ≠ .spent →
        ((ofDepth loader (depth + 3)).exec
          (target.spelledOut binary value left right long operator) env state).unplaced
        = ((ofDepth loader (depth + 3)).exec
            (target.compound op value at_ short) env state).unplaced) := by
  have alike : Alike
      ((ofDepth loader (depth + 4)).exec
        (target.spelledOut binary value left right long operator) env)
      ((ofDepth loader (depth + 3)).exec (target.compound op value at_ short) env) := by
    apply (exec_alike loader (depth + 3) _ env).trans
    apply Alike.trans ?_ (exec_alike loader (depth + 2) _ env).symm
    apply Alike.bind ?_ fun result => .refl _
    apply (assign_long loader depth applied target left right operator value env).trans
    apply Alike.trans ?_ (assign_short loader depth applied target at_ value env).symm
    -- nothing has happened when the long form looks for its slot again
    rw [Exec.store_twice (target.reach_reads env)]
    exact .refl _
  refine ⟨alike state, fun ended => ?_⟩
  have deeper : (ofDepth loader (depth + 4)).exec
        (target.spelledOut binary value left right long operator) env state
      = (ofDepth loader (depth + 3)).exec
        (target.spelledOut binary value left right long operator) env state :=
    (ofDepth_agrees loader (Nat.le_succ (depth + 3))).jobs (.exec _ env) state ended
  rw [← deeper]
  exact alike state

end Depth

/-- Text appended to an entry of a record. -/
theorem exec_compound_entry :
    let target : Target := .element "o" (.literal (.text "k"))
    let value : Expr := .literal ⟨1, 11⟩ (.text "b")
    let frame : Frame := ⟨⟨[("o", ⟨.record 0, false⟩)]⟩, none, "", none⟩
    let holding (text : String) := State.ofHeap { Heap.empty with
      frames := #[frame], records := #[⟨[("k", .text text)]⟩] }
    ((ofDepth none 3).exec (target.compound .add value ⟨⟨1, 2⟩, ⟨1, 1⟩, ⟨1, 3⟩⟩ ⟨1, 8⟩) 0
      (holding "a")).unplaced = .done (.normal (.text "ab")) (holding "ab") := by
  intro target value frame holding
  obtain ⟨alike, -⟩ := @exec_compound none 0 .add .add rfl target value ⟨⟨1, 2⟩, ⟨1, 1⟩, ⟨1, 3⟩⟩
    ⟨⟨1, 2⟩, ⟨1, 1⟩, ⟨1, 3⟩⟩ ⟨⟨1, 10⟩, ⟨1, 9⟩, ⟨1, 11⟩⟩ ⟨1, 8⟩ ⟨1, 8⟩ ⟨1, 16⟩ 0 (holding "a")
  rw [← alike]
  with_unfolding_all rfl

end Engine

end Rill

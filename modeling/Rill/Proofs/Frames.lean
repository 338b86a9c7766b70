import Rill.Proofs.Kept
import Rill.Proofs.Visit

/-!
# What lasts

Evaluation binds names, but it never moves a frame: the frame around it, the directory its imports
start from and the method noted in it are afterwards what they were before, and functions,
blueprints and instances that were there are still there (`Engine.fulfil_later`). In between, the
directory of a frame is set only while the frame is new, and the method noted in it is another one
only while a parent's method runs in it.
-/

set_option autoImplicit false

namespace Rill

/-- Frames that hang off the same frame, start imports from the same directory and know the same
method. -/
structure Frame.Alike (frame other : Frame) : Prop where
  parent : other.parent = frame.parent
  dir : other.dir = frame.dir
  method : other.method = frame.method

namespace Heap

def StaysAt (env : FrameId) (heap next : Heap) : Prop :=
  ∀ frame, heap.frames[env]? = some frame → ∃ later, next.frames[env]? = some later ∧
    frame.Alike later

def noted? (heap : Heap) (env : FrameId) : Option MethodRef := heap.frames[env]?.bind Frame.method

/-- Functions, blueprints and instances that were there are still there. -/
structure CellsLast (heap next : Heap) : Prop where
  closure {id : Nat} {closure : Closure} (found : heap.closures[id]? = some closure) :
    next.closures[id]? = some closure
  blueprint {id : BlueprintId} {blueprint : Blueprint}
    (found : heap.blueprints[id]? = some blueprint) : next.blueprints[id]? = some blueprint
  object {id : Nat} {object : Object} (found : heap.objects[id]? = some object) :
    next.objects[id]? = some object

/-- What was there is still there, and all frames are where they were. -/
structure Later (heap next : Heap) : Prop extends CellsLast heap next where
  stays (env : FrameId) : StaysAt env heap next

theorem getElem?_push_old {α : Type} {cells : Array α} {id : Nat} {cell : α}
    (found : cells[id]? = some cell) (fresh : α) : (cells.push fresh)[id]? = some cell := by
  obtain ⟨old, -⟩ := Array.getElem?_eq_some_iff.mp found
  rw [Array.getElem?_push_lt old, ← found, Array.getElem?_eq_getElem old]

/-! ## Cells -/

namespace CellsLast

theorem refl (heap : Heap) : CellsLast heap heap :=
  ⟨fun found => found, fun found => found, fun found => found⟩

theorem trans {before between after : Heap} (first : CellsLast before between)
    (second : CellsLast between after) : CellsLast before after :=
  ⟨fun found => second.closure (first.closure found),
    fun found => second.blueprint (first.blueprint found),
    fun found => second.object (first.object found)⟩

end CellsLast

/-! ## Frames -/

namespace StaysAt

variable {env : FrameId}

theorem of_frames {heap next : Heap} (same : next.frames = heap.frames) :
    StaysAt env heap next := by
  intro frame found
  exact ⟨frame, by rw [same, found], rfl, rfl, rfl⟩

theorem trans {before between after : Heap} (first : StaysAt env before between)
    (second : StaysAt env between after) : StaysAt env before after := by
  intro frame found
  obtain ⟨middle, there, alike⟩ := first frame found
  obtain ⟨last, here, similar⟩ := second middle there
  exact ⟨last, here, similar.parent.trans alike.parent, similar.dir.trans alike.dir,
    similar.method.trans alike.method⟩

theorem size {heap next : Heap} (stays : StaysAt env heap next) (old : env < heap.frames.size) :
    env < next.frames.size := by
  obtain ⟨later, there, -⟩ := stays _ (Array.getElem?_eq_getElem old)
  exact (Array.getElem?_eq_some_iff.mp there).1

theorem push (heap : Heap) (fresh : Frame) :
    StaysAt env heap { heap with frames := heap.frames.push fresh } :=
  fun frame found => ⟨frame, getElem?_push_old found fresh, rfl, rfl, rfl⟩

theorem changeOther (heap : Heap) {other : FrameId} (f : Frame → Frame) (apart : other ≠ env) :
    StaysAt env heap (heap.changeFrame other f) := by
  intro frame found
  refine ⟨frame, ?_, rfl, rfl, rfl⟩
  rw [Heap.changeFrame, Array.getElem?_modify, if_neg apart, found]

theorem bind (heap : Heap) (other : FrameId) (name : String) (variable_ : Variable) :
    StaysAt env heap (heap.bind other name variable_) := by
  by_cases same : other = env
  · subst same
    intro frame found
    refine ⟨{ frame with vars := frame.vars.insert name variable_ }, ?_, rfl, rfl, rfl⟩
    rw [Heap.bind, Heap.changeFrame, Array.getElem?_modify, if_pos rfl, found]
    rfl
  · exact changeOther heap _ same

theorem during {heap next : Heap} (other : FrameId) (method : Option MethodRef)
    (inner : StaysAt env (Store.setMethod other method heap).2 next) :
    StaysAt env heap
      (Store.setMethod other (heap.frames[other]?.bind Frame.method) next).2 := by
  intro frame found
  simp only [StaysAt, Store.setMethod, Store.change, Heap.changeFrame,
    Array.getElem?_modify] at inner ⊢
  by_cases same : other = env
  · -- What the run did to the note does not matter, since the old one is put back.
    subst same
    simp only [if_true, found, Option.map_some, Option.some.injEq, forall_eq'] at inner
    obtain ⟨later, there, alike⟩ := inner
    refine ⟨{ later with method := frame.method }, ?_, alike.parent, alike.dir, rfl⟩
    simp [there, found]
  · simp only [same, if_false] at inner ⊢
    exact inner frame found

end StaysAt

/-! ## Noted methods -/

section Noted

variable {heap next : Heap} {env : FrameId} {method : MethodRef}

theorem StaysAt.noted? (stays : StaysAt env heap next) (noted : heap.noted? env = some method) :
    next.noted? env = some method := by
  obtain ⟨frame, found, own⟩ := Option.bind_eq_some_iff.mp noted
  obtain ⟨later, there, alike⟩ := stays frame found
  rw [Heap.noted?, there, Option.bind_some, alike.method, own]

theorem noted?_setMethod_self (old : env < heap.frames.size) (told : Option MethodRef) :
    (Store.setMethod env told heap).2.noted? env = told := by
  simp [Heap.noted?, Store.setMethod, Store.change, Heap.changeFrame,
    Array.getElem?_modify, Array.getElem?_eq_getElem old]

theorem noted?_setMethod_other {other : FrameId} (apart : other ≠ env)
    (told : Option MethodRef) :
    (Store.setMethod other told heap).2.noted? env = heap.noted? env := by
  simp [Heap.noted?, Store.setMethod, Store.change, Heap.changeFrame,
    Array.getElem?_modify, apart]

theorem size_of_noted? (noted : heap.noted? env = some method) : env < heap.frames.size := by
  obtain ⟨frame, found, -⟩ := Option.bind_eq_some_iff.mp noted
  exact (Array.getElem?_eq_some_iff.mp found).1

end Noted

namespace Later

theorem refl (heap : Heap) : Later heap heap := ⟨.refl heap, fun _ => .of_frames rfl⟩

theorem trans {before between after : Heap} (first : Later before between)
    (second : Later between after) : Later before after :=
  ⟨first.toCellsLast.trans second.toCellsLast,
    fun env => (first.stays env).trans (second.stays env)⟩

end Later

end Heap

/-! ## Evaluation -/

namespace Store.Ordinary

theorem cellsLast {permits : Permits} {α : Type} {x : Store α}
    (ordinary : Store.Ordinary permits x) (heap : Heap) : heap.CellsLast (x heap).2 := by
  induction ordinary generalizing heap with
  | bind first second ihFirst ihSecond =>
      have begun := ihFirst heap
      exact Store.bind_leaves begun fun a => begun.trans (ihSecond a _)
  | newClosure closure =>
      exact ⟨fun found => Heap.getElem?_push_old found closure, fun found => found,
        fun found => found⟩
  | newBlueprint decl parent env =>
      exact ⟨fun found => found, fun found => Heap.getElem?_push_old found _, fun found => found⟩
  | newObject object =>
      exact ⟨fun found => found, fun found => found,
        fun found => Heap.getElem?_push_old found object⟩
  | write op =>
      rcases op.heap_eq heap with same | ⟨other, name, variable_, -, bound⟩
      · rw [same]
        exact .refl heap
      · rw [bound]
        exact ⟨fun found => found, fun found => found, fun found => found⟩
  | _ => exact ⟨fun found => found, fun found => found, fun found => found⟩

theorem staysAt {permits : Permits} {env : FrameId} (unmoved : ¬ permits.moves env) {α : Type}
    {x : Store α} (ordinary : Store.Ordinary permits x) (heap : Heap) :
    Heap.StaysAt env heap (x heap).2 := by
  induction ordinary generalizing heap with
  | bind first second ihFirst ihSecond =>
      have begun := ihFirst heap
      exact Store.bind_leaves begun fun a => begun.trans (ihSecond a _)
  | child other => exact .push heap _
  | write op =>
      rcases op.heap_eq heap with same | ⟨other, name, variable_, -, bound⟩
      · rw [same]
        exact .of_frames rfl
      · rw [bound]
        exact .bind heap other name variable_
  | setDir other dir held =>
      refine .changeOther heap _ fun same => ?_
      rw [same] at held
      exact unmoved held
  | _ => exact .of_frames rfl

end Store.Ordinary

theorem Heap.CellsLast.kept :
    KeptThroughout (.anyCode True) fun state next => state.heap.CellsLast next.heap where
  anyCode := .of_anyCode True
  holds heap := heap.holds_anyCode trivial
  refl state := .refl state.heap
  trans := trans
  store ordinary state := ordinary.cellsLast state.heap
  child _ _ _ inner :=
    have inside := inner ⟨⟨trivial, trivial⟩, trivial⟩
    ⟨inside.closure, inside.blueprint, inside.object⟩
  print _ _ _ := .refl _
  tick _ := .refl _
  aged _ := .refl _
  keepModule left := by
    cases left
    exact .refl _
  called _ inner := inner
  loading inner := inner
  fresh _ _ _ _ inner :=
    have inside := inner ⟨⟨trivial, trivial⟩, trivial⟩
    ⟨inside.closure, inside.blueprint, inside.object⟩
  during _ _ _ _ inner := ⟨inner.closure, inner.blueprint, inner.object⟩

/-- Any code may do anything, but one frame is not given to an instance or another directory. -/
def Permits.unmoved (env : FrameId) : Permits :=
  { anyCode True with moves := fun other => other ≠ env }

theorem Permits.AnyCode.of_unmoved (env : FrameId) : (unmoved env).AnyCode :=
  ⟨fun _ => trivial, fun _ => trivial, fun _ => trivial, trivial⟩

theorem Heap.holds_unmoved (env : FrameId) (heap : Heap) : heap.Holds (.unmoved env) :=
  ⟨fun _ _ _ => trivial, fun _ _ _ _ _ => trivial, fun _ _ _ _ _ _ _ => trivial,
    fun _ _ _ _ => trivial⟩

theorem Heap.StaysAt.kept (env : FrameId) :
    KeptThroughout (.unmoved env) fun state next => StaysAt env state.heap next.heap where
  anyCode := .of_unmoved env
  holds heap := heap.holds_unmoved env
  refl _ := .of_frames rfl
  trans := trans
  store ordinary state := by
    have unmoved : ¬ (Permits.unmoved env).moves env := fun moved => moved rfl
    exact ordinary.staysAt unmoved state.heap
  child other state next inner := by
    -- The frame that is followed was there before, so the new one is another.
    intro frame found
    have fresh : state.heap.frames.size ≠ env :=
      Nat.ne_of_gt (Array.getElem?_eq_some_iff.mp found).1
    exact trans (push state.heap _) (inner ⟨⟨trivial, trivial⟩, fresh⟩) frame found
  print _ _ _ := .of_frames rfl
  tick _ := .of_frames rfl
  aged _ := .of_frames rfl
  keepModule left := by
    cases left
    exact .of_frames rfl
  called _ inner := inner
  loading inner := inner
  fresh other method state next inner := by
    intro frame found
    have fresh : state.heap.frames.size ≠ env :=
      Nat.ne_of_gt (Array.getElem?_eq_some_iff.mp found).1
    have told := (push state.heap _).trans (changeOther (Store.child other state.heap).2
      (fun frame => { frame with method }) fresh)
    exact trans told (inner ⟨⟨trivial, trivial⟩, fresh⟩) frame found
  during other method _ _ inner := .during other (some method) inner

namespace Engine

theorem ofDepth_cellsLast (loader : Option Loader) (depth : Nat) :
    EnginesRelated (Keeps fun state next => state.heap.CellsLast next.heap)
      (ofDepth loader depth) (ofDepth loader depth) :=
  Heap.CellsLast.kept.ofDepth (fun _ => trivial) (fun _ _ => .refl _) loader depth

theorem ofDepth_staysAt (env : FrameId) (loader : Option Loader) (depth : Nat) :
    EnginesRelated (Keeps fun state next => Heap.StaysAt env state.heap next.heap)
      (ofDepth loader depth) (ofDepth loader depth) :=
  (Heap.StaysAt.kept env).ofDepth (fun _ => trivial) (fun _ _ => .of_frames rfl) loader depth

/-- Whatever evaluation is asked for, and however it ends: what was there is still there, and no
frame has moved. -/
theorem fulfil_later (loader : Option Loader) (depth : Nat) {α : Type} (request : Request α)
    {state next : State}
    (left : ((ofDepth loader depth).fulfil request state).state? = some next) :
    state.heap.Later next.heap := by
  have cells := Heap.CellsLast.kept.uniform.fulfil (ofDepth_cellsLast loader depth) request
  -- Cells last all at once, frames one by one: the permission is about a single frame.
  refine ⟨cells state next left, fun env => ?_⟩
  have related := ofDepth_staysAt env loader depth
  have uniform := (Heap.StaysAt.kept env).uniform
  exact uniform.answer related (uniform.supers related fun _ => trivial) request state next left

end Engine

def State.ofHeap (heap : Heap) : State :=
  ⟨heap, .new .default false, [], .empty, [], ⟨"", false⟩⟩

end Rill

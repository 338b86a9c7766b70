import Rill.Proofs.Frames

/-!
# The way outward

A frame hangs off another one, and so on outward: `Heap.Outward` lists the frames that are passed on
the way. A name that none of them holds is looked up where the way leads, and all of them start
imports from the same directory. Evaluation leads onward from a heap (`Heap.Onward`): no frame moves,
and a frame in which a method is noted may at most have another one noted. A way outward therefore
stays what it is, and so do the frames in which the body of a method runs (`Heap.InBody`): a frame
made inside one of them is another one, and a `super` call runs in one of them.
-/

set_option autoImplicit false

namespace Rill

/-- A frame is where it was, and if a method was noted in it, one still is. -/
structure Frame.Unmoved (frame later : Frame) : Prop where
  parent : later.parent = frame.parent
  dir : later.dir = frame.dir
  method : frame.method.isSome = true → later.method.isSome = true

namespace Heap

variable {heap next last : Heap} {env : FrameId}

/-! ## From one frame to the next -/

theorem dir_of_found {frame : Frame} (found : heap.frames[env]? = some frame) :
    heap.dir env = frame.dir := by
  simp [Heap.dir, found]

theorem nearest?_here {frames : Array Frame} {test : Frame → Bool} {frame : Frame}
    (found : frames[env]? = some frame) (passes : test frame = true) :
    nearest? frames test env = some env := by
  rw [nearest?, found]
  simp [passes]

theorem nearest?_outward {frames : Array Frame} {test : Frame → Bool} {frame : Frame}
    {parent : FrameId} (found : frames[env]? = some frame) (around : frame.parent = some parent)
    (older : parent < env) (fails : test frame = false) :
    nearest? frames test env = nearest? frames test parent := by
  rw [nearest?, found]
  simp [fails, around, older]

theorem methodFrame?_here {frame : Frame} {method : MethodRef}
    (found : heap.frames[env]? = some frame) (noted : frame.method = some method) :
    heap.methodFrame? env = some (env, method) := by
  have here : nearest? heap.frames (·.method.isSome) env = some env :=
    nearest?_here found (by simp [noted])
  simp only [Heap.methodFrame?, here, found, noted, Option.map_some]

theorem methodFrame?_outward {frame : Frame} {parent : FrameId}
    (found : heap.frames[env]? = some frame) (around : frame.parent = some parent)
    (older : parent < env) (unnoted : frame.method = none) :
    heap.methodFrame? env = heap.methodFrame? parent := by
  have outward : nearest? heap.frames (·.method.isSome) env
      = nearest? heap.frames (·.method.isSome) parent :=
    nearest?_outward found around older (by simp [unnoted])
  simp only [Heap.methodFrame?, outward]

/-! ## Onward -/

/-- What was there is still there, and no frame has moved. -/
structure Onward (heap next : Heap) : Prop extends CellsLast heap next where
  unmoved {env : FrameId} {frame : Frame} (found : heap.frames[env]? = some frame) :
    ∃ later, next.frames[env]? = some later ∧ frame.Unmoved later

theorem Later.onward (later : heap.Later next) : heap.Onward next where
  toCellsLast := later.toCellsLast
  unmoved {env frame} found := by
    obtain ⟨after, there, alike⟩ := later.stays env frame found
    exact ⟨after, there, alike.parent, alike.dir, fun noted => by rwa [alike.method]⟩

theorem Later.child (env : FrameId) (heap : Heap) : heap.Later (Store.child env heap).2 :=
  ⟨⟨fun found => found, fun found => found, fun found => found⟩, fun _ => .push heap _⟩

theorem Later.bind (heap : Heap) (env : FrameId) (name : String) (variable_ : Variable) :
    heap.Later (heap.bind env name variable_) :=
  ⟨⟨fun found => found, fun found => found, fun found => found⟩,
    fun _ => .bind heap env name variable_⟩

namespace Onward

theorem refl (heap : Heap) : heap.Onward heap := (Later.refl heap).onward

theorem child (env : FrameId) (heap : Heap) : heap.Onward (Store.child env heap).2 :=
  (Later.child env heap).onward

theorem trans (first : heap.Onward next) (second : next.Onward last) : heap.Onward last where
  toCellsLast := first.toCellsLast.trans second.toCellsLast
  unmoved {env frame} found := by
    obtain ⟨middle, there, moved⟩ := first.unmoved found
    obtain ⟨after, here, still⟩ := second.unmoved there
    exact ⟨after, here, still.parent.trans moved.parent, still.dir.trans moved.dir,
      fun noted => still.method (moved.method noted)⟩

theorem setMethod (heap : Heap) (other : FrameId) (told : Option MethodRef)
    (still : (heap.noted? other).isSome = true → told.isSome = true) :
    heap.Onward (Store.setMethod other told heap).2 where
  toCellsLast := ⟨fun found => found, fun found => found, fun found => found⟩
  unmoved {env frame} found := by
    simp only [Store.setMethod, Store.change, Heap.changeFrame, Array.getElem?_modify]
    by_cases same : other = env
    · subst same
      refine ⟨{ frame with method := told }, by simp [found], rfl, rfl, ?_⟩
      intro noted
      apply still
      simpa [noted?, found] using noted
    · exact ⟨frame, by simp [same, found], rfl, rfl, fun noted => noted⟩

theorem size (onward : heap.Onward next) (old : env < heap.frames.size) :
    env < next.frames.size := by
  obtain ⟨later, there, -⟩ := onward.unmoved (Array.getElem?_eq_getElem old)
  exact (Array.getElem?_eq_some_iff.mp there).1

theorem dir_eq (onward : heap.Onward next) (old : env < heap.frames.size) :
    next.dir env = heap.dir env := by
  have found := Array.getElem?_eq_getElem old
  obtain ⟨later, there, unmoved⟩ := onward.unmoved found
  rw [dir_of_found there, dir_of_found found, unmoved.dir]

theorem noted? (onward : heap.Onward next) (noted : (heap.noted? env).isSome = true) :
    (next.noted? env).isSome = true := by
  obtain ⟨method, told⟩ := Option.isSome_iff_exists.mp noted
  obtain ⟨frame, found, own⟩ := Option.bind_eq_some_iff.mp told
  obtain ⟨later, there, unmoved⟩ := onward.unmoved found
  simpa [Heap.noted?, there] using unmoved.method (by simp [own])

end Onward

end Heap

/-- Any code may do anything, but no frame is given to an instance or another directory. -/
def Permits.unmoving : Permits := { anyCode True with moves := fun _ => False }

theorem Store.Ordinary.later {α : Type} {x : Store α} (ordinary : Ordinary .unmoving x)
    (heap : Heap) : heap.Later (x heap).2 :=
  ⟨ordinary.cellsLast heap, fun _ => ordinary.staysAt id heap⟩

namespace Heap

variable {heap next : Heap} {env outer frame : FrameId} {passed : List FrameId} {name : String}

/-! ## Outward -/

/-- Going outward from a frame one passes some frames and comes to another one, and imports start
from the same directory all along. -/
inductive Outward (heap : Heap) (outer : FrameId) : FrameId → List FrameId → Prop where
  | here (old : outer < heap.frames.size) : Outward heap outer outer []
  | up {env parent : FrameId} {passed : List FrameId} {frame : Frame}
      (found : heap.frames[env]? = some frame) (around : frame.parent = some parent)
      (older : parent < env) (dir : frame.dir = heap.dir parent)
      (rest : Outward heap outer parent passed) : Outward heap outer env (env :: passed)

namespace Outward

theorem old (outward : heap.Outward outer env passed) : env < heap.frames.size := by
  cases outward with
  | here old => exact old
  | up found => exact (Array.getElem?_eq_some_iff.mp found).1

theorem dir_eq (outward : heap.Outward outer env passed) : heap.dir env = heap.dir outer := by
  induction outward with
  | here => rfl
  | up found around older dir rest ih => rw [dir_of_found found, dir, ih]

theorem onward (outward : heap.Outward outer env passed) (onward : heap.Onward next) :
    next.Outward outer env passed := by
  induction outward with
  | here old => exact .here (onward.size old)
  | @up env parent passed frame found around older dir rest ih =>
      obtain ⟨later, there, unmoved⟩ := onward.unmoved found
      have same : later.dir = next.dir parent := by
        rw [unmoved.dir, dir, onward.dir_eq rest.old]
      exact .up there (unmoved.parent.trans around) older same ih

theorem append {inner : FrameId} {more : List FrameId} (first : heap.Outward env inner passed)
    (second : heap.Outward outer env more) : heap.Outward outer inner (passed ++ more) := by
  induction first with
  | here => exact second
  | up found around older dir rest ih => exact .up found around older dir ih

theorem child (outward : heap.Outward outer env passed) :
    (Store.child env heap).2.Outward outer heap.frames.size (heap.frames.size :: passed) := by
  have made := Onward.child env heap
  have here : (Store.child env heap).2.frames[heap.frames.size]?
      = some ⟨.empty, some env, heap.dir env, none⟩ := by
    simp [Store.child]
  exact .up here rfl outward.old (made.dir_eq outward.old).symm (outward.onward made)

theorem onTheWay {others more : List FrameId} {place : FrameId}
    (outward : heap.Outward outer env (others ++ place :: more)) :
    heap.Outward outer place (place :: more) := by
  induction others generalizing env with
  | nil =>
      cases outward with
      | up found around older dir rest => exact .up found around older dir rest
  | cons first others ih =>
      cases outward with
      | up found around older dir rest => exact ih rest

/-- A name that no frame on the way holds is held where it is held for the frame that the way leads
to. -/
theorem holder?_eq (outward : heap.Outward outer env passed)
    (free : ∀ inner ∈ passed, heap.localVariable? inner name = none) :
    heap.holder? env name = heap.holder? outer name := by
  induction outward with
  | here => rfl
  | @up env parent passed frame found around older dir rest ih =>
      simp only [List.mem_cons, forall_eq_or_imp] at free
      obtain ⟨unbound, others⟩ := free
      simp only [localVariable?, found] at unbound
      have outside : heap.holder? env name = heap.holder? parent name :=
        nearest?_outward found around older (by simp [Fields.contains, unbound])
      rw [outside, ih others]

theorem methodFrame? {running : FrameId × MethodRef} (outward : heap.Outward outer env passed)
    (noted : ∃ inner ∈ passed, (heap.noted? inner).isSome)
    (nearest : heap.methodFrame? env = some running) :
    (heap.noted? running.1).isSome ∧ ∃ others more, passed = others ++ running.1 :: more := by
  induction outward with
  | here => simp at noted
  | @up env parent passed frame found around older dir rest ih =>
      simp only [List.mem_cons, exists_eq_or_imp, noted?, found, Option.bind_some] at noted
      cases here : frame.method with
      | some method =>
          rw [methodFrame?_here found here] at nearest
          cases nearest
          exact ⟨by simp [noted?, found, here], [], passed, rfl⟩
      | none =>
          simp only [here, Option.isSome_none, Bool.false_eq_true, false_or] at noted
          rw [methodFrame?_outward found around older here] at nearest
          obtain ⟨told, others, more, rfl⟩ := ih noted nearest
          exact ⟨told, env :: others, more, rfl⟩

end Outward

/-! ## Bodies of methods -/

/-- A frame in which a part of the body of a method of an instance may run: on the way outward to the
frame of the instance there is one in which a method is noted. -/
def InBody (heap : Heap) (frame env : FrameId) : Prop :=
  ∃ passed, heap.Outward frame env passed ∧ ∃ inner ∈ passed, (heap.noted? inner).isSome = true

namespace InBody

theorem onward (within : heap.InBody frame env) (onward : heap.Onward next) :
    next.InBody frame env := by
  obtain ⟨passed, way, inner, member, noted⟩ := within
  exact ⟨passed, way.onward onward, inner, member, onward.noted? noted⟩

theorem child (within : heap.InBody frame env) :
    (Store.child env heap).2.InBody frame heap.frames.size := by
  obtain ⟨passed, way, inner, member, noted⟩ := within
  have still := (Onward.child env heap).noted? noted
  exact ⟨_, way.child, inner, List.mem_cons_of_mem _ member, still⟩

theorem of_call (old : frame < heap.frames.size) (method : MethodRef) :
    (Store.setMethod heap.frames.size (some method) (Store.child frame heap).2).2.InBody frame
      heap.frames.size := by
  have told := Onward.setMethod (Store.child frame heap).2 heap.frames.size (some method)
    fun _ => rfl
  have size : heap.frames.size < (Store.child frame heap).2.frames.size := by
    simp [Store.child]
  refine ⟨_, (Outward.here old).child.onward told, heap.frames.size, List.mem_singleton_self _, ?_⟩
  rw [noted?_setMethod_self size]
  rfl

theorem superMethod {target : Option String} {found : FrameId × String × Method}
    (within : heap.InBody frame env) (resolved : heap.superMethod target env = .ok found) :
    heap.InBody frame found.1 ∧ (heap.noted? found.1).isSome = true := by
  obtain ⟨passed, way, noted⟩ := within
  unfold Heap.superMethod at resolved
  cases nearest : heap.methodFrame? env with
  | none => simp [nearest] at resolved
  | some running =>
      obtain ⟨told, others, more, rfl⟩ := way.methodFrame? noted nearest
      have there : heap.InBody frame running.1 :=
        ⟨_, way.onTheWay, running.1, List.mem_cons_self, told⟩
      obtain ⟨place, method⟩ := running
      simp only [nearest] at resolved
      split at resolved
      · cases resolved
      · split at resolved
        · cases resolved
        · cases resolved
          exact ⟨there, told⟩

end InBody

end Heap

end Rill

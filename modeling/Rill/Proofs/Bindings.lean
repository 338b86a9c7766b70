import Rill.Proofs.Via

/-!
# What names stand for

Names are bound by a few writers (`Store.Write.binds`). Declarations and assignments leave a
constant alone. Parameters, loop variables, names of patterns and members are bound whatever a name
stood for, but in frames that are new or belong to an instance.

So a variable never becomes a constant (`Heap.IsVariable.kept`), and a constant in a frame in which
statements run keeps its value as long as no name is bound there whatever it stood for
(`Heap.Constant.kept`).
-/

set_option autoImplicit false

namespace Rill

namespace Heap

variable {heap : Heap} {home env : FrameId} {name key : String} {value : Value}

theorem localVariable?_bind (heap : Heap) (env : FrameId) (key : String) (variable_ : Variable)
    (home : FrameId) (name : String) : (heap.bind env key variable_).localVariable? home name
      = if env = home ∧ name = key then heap.frames[home]?.map fun _ => variable_
        else heap.localVariable? home name := by
  simp only [localVariable?, Heap.bind, changeFrame, Array.getElem?_modify]
  by_cases here : env = home
  · cases heap.frames[home]? with
    | none => simp [here]
    | some frame => by_cases same : name = key <;> simp [here, same, Fields.get?_insert]
  · simp [here]

theorem localVariable?_changeFrame (heap : Heap) (env : FrameId) {f : Frame → Frame}
    (still : ∀ frame, (f frame).vars = frame.vars) (home : FrameId) (name : String) :
    (heap.changeFrame env f).localVariable? home name = heap.localVariable? home name := by
  simp only [localVariable?, changeFrame, Array.getElem?_modify]
  by_cases here : env = home
  · cases heap.frames[home]? <;> simp [here, still]
  · simp [here]

theorem size_of_localVariable? {variable_ : Variable}
    (bound : heap.localVariable? home name = some variable_) : home < heap.frames.size := by
  unfold localVariable? at bound
  split at bound
  · rename_i frame found
    exact (Array.getElem?_eq_some_iff.mp found).1
  · cases bound

theorem localVariable?_push (frame : Frame) (old : home < heap.frames.size) (name : String) :
    { heap with frames := heap.frames.push frame }.localVariable? home name
      = heap.localVariable? home name := by
  simp only [localVariable?, Array.getElem?_push_lt old, Array.getElem?_eq_getElem old]

end Heap

/-! ## What a write binds -/

/-- A write leaves the heap as it is or binds one name. It makes a constant only of a name that was
free, and it binds a name that stands for a constant only in a frame in which that is permitted or
in that of an instance. -/
theorem Store.Write.binds {permits : Permits} {x : Store Unit} (op : Store.Write permits x)
    (heap : Heap) : (x heap).2 = heap ∨ ∃ env name variable_,
      (x heap).2 = heap.bind env name variable_ ∧
      (variable_.constant = true → heap.localVariable? env name = none) ∧
      (permits.overwrites env ∨
        (∃ (id : Nat) (object : Object), heap.objects[id]? = some object ∧ object.frame = env) ∨
        ∀ old, heap.localVariable? env name ≠ some ⟨old, true⟩) := by
  cases op with
  | define env name value held =>
      exact Or.inr ⟨env, name, ⟨value, false⟩, rfl, nofun, Or.inl held⟩
  | set env name value held =>
      rw [set_eq]
      split
      · exact Or.inl rfl
      · rename_i free
        exact Or.inr ⟨env, name, ⟨value, false⟩, rfl, nofun,
          Or.inr (Or.inr free)⟩
  | setConst env name value held =>
      rw [setConst_eq]
      split
      · exact Or.inl rfl
      · rename_i free
        exact Or.inr ⟨env, name, ⟨value, true⟩, rfl, fun _ => free,
          Or.inr (Or.inr fun old bound => by rw [free] at bound; cases bound)⟩
  | update env name value held =>
      rw [update_eq]
      split
      · exact Or.inl rfl
      · rename_i holder _
        split
        · exact Or.inl rfl
        · rename_i free
          exact Or.inr ⟨holder, name, ⟨value, false⟩, rfl, nofun,
            Or.inr (Or.inr free)⟩
  | setField id name value held =>
      rw [setField_eq]
      split
      · rename_i object found
        exact Or.inr ⟨object.frame, name, ⟨value, false⟩, rfl, nofun,
          Or.inr (Or.inl ⟨id, object, found, rfl⟩)⟩
      · exact Or.inl rfl

/-! ## What names stand for -/

/-- A property of what names stand for and of the frames of instances that every step of evaluation
keeps, as far as steps are permitted. -/
structure Heap.Lasting (permits : Permits) (P : Heap → Prop) : Prop where
  cells (heap next : Heap) (frames : next.frames = heap.frames)
    (objects : next.objects = heap.objects) (before : P heap) : P next
  push {heap : Heap} (frame : Frame) (before : P heap) :
    P { heap with frames := heap.frames.push frame }
  object {heap : Heap} {object : Object} (held : permits.moves object.frame)
    (before : P heap) : P { heap with objects := heap.objects.push object }
  write {heap : Heap} {x : Store Unit} (op : Store.Write permits x) (before : P heap) :
    P (x heap).2
  changeFrame {heap : Heap} (env : FrameId) {f : Frame → Frame}
    (still : ∀ frame, (f frame).vars = frame.vars) (before : P heap) : P (heap.changeFrame env f)

namespace Heap.Lasting

variable {permits : Permits} {P : Heap → Prop} (lasting : Lasting permits P)
include lasting

theorem ordinary {α : Type} {x : Store α} (ordinary : Store.Ordinary permits x) :
    ∀ heap : Heap, P heap → P (x heap).2 := by
  induction ordinary with
  | bind first second ihFirst ihSecond =>
      intro heap before
      have between := ihFirst heap before
      exact Store.bind_leaves between fun a => ihSecond a _ between
  | newObject object held => exact fun _ before => lasting.object held before
  | child env => exact fun _ before => lasting.push _ before
  | write op => exact fun _ before => lasting.write op before
  | setDir env dir held => exact fun _ before => lasting.changeFrame env (fun _ => rfl) before
  | _ => exact fun heap before => lasting.cells heap _ rfl rfl before

theorem setMethod {heap : Heap} (env : FrameId) (method : Option MethodRef) (before : P heap) :
    P (Store.setMethod env method heap).2 := lasting.changeFrame env (fun _ => rfl) before

theorem kept (anyCode : permits.AnyCode) (holds : ∀ heap : Heap, heap.Holds permits)
    (fresh : ∀ heap : Heap, P heap → permits.Fresh heap.frames.size) :
    KeptThroughout permits fun state next => P state.heap → P next.heap where
  anyCode := anyCode
  holds := holds
  refl _ before := before
  trans first second before := second (first before)
  store op state := lasting.ordinary op state.heap
  child _ state _ inner before := inner (fresh state.heap before) (lasting.push _ before)
  print _ _ _ before := before
  tick _ before := before
  aged _ before := before
  keepModule left before := by
    cases left
    exact before
  called _ inner := inner
  loading inner := inner
  fresh _ method state _ inner before :=
    inner (fresh state.heap before) (lasting.setMethod _ method (lasting.push _ before))
  during env method _ _ inner before :=
    lasting.setMethod env _ (inner (lasting.setMethod env (some method) before))

end Heap.Lasting

/-! ## Constants -/

namespace Heap

variable {home : FrameId} {name : String} {value : Value}

/-- A frame that is there and that is not the frame of an instance. Statements, and so declarations,
run in no others: they run in the frames of blocks, calls, programs and modules. -/
structure Apart (home : FrameId) (heap : Heap) : Prop where
  old : home < heap.frames.size
  uninhabited : ∀ (id : Nat) (object : Object),
    heap.objects[id]? = some object → object.frame ≠ home

/-- A name stands for a constant in such a frame. -/
structure Constant (home : FrameId) (name : String) (value : Value) (heap : Heap) : Prop where
  bound : heap.localVariable? home name = some ⟨value, true⟩
  apart : heap.Apart home

namespace Apart

variable {heap : Heap}

theorem bind (apart : heap.Apart home) (env : FrameId) (key : String) (variable_ : Variable) :
    (heap.bind env key variable_).Apart home :=
  ⟨by simpa using apart.old, apart.uninhabited⟩

theorem lasting {permits : Permits} (unmoved : ¬ permits.moves home) :
    Lasting permits (Apart home) where
  cells _ _ frames objects before :=
    ⟨by rw [frames]; exact before.old, by rw [objects]; exact before.uninhabited⟩
  push {heap} frame before :=
    ⟨by simpa using Nat.lt_succ_of_lt before.old, before.uninhabited⟩
  object {heap object} held before := by
    refine ⟨before.old, fun id other found => ?_⟩
    simp only [Array.getElem?_push] at found
    split at found
    · cases found
      exact fun same => unmoved (same ▸ held)
    · exact before.uninhabited id other found
  write {heap x} op before := by
    rcases op.binds heap with same | ⟨env, key, variable_, bound, -⟩
    · rw [same]
      exact before
    · rw [bound]
      exact before.bind env key variable_
  changeFrame env f still before :=
    ⟨by simpa using before.old, before.uninhabited⟩

theorem child (env : FrameId) (there : ∀ (id : Nat) (object : Object),
    heap.objects[id]? = some object → object.frame < heap.frames.size) :
    (Store.child env heap).2.Apart heap.frames.size :=
  ⟨by simp, fun id object found => Nat.ne_of_lt (there id object found)⟩

theorem kept (home : FrameId) :
    KeptThroughout (.unmoved home) fun state next =>
      state.heap.Apart home → next.heap.Apart home := by
  have unmoved : ¬ (Permits.unmoved home).moves home := fun moved => moved rfl
  exact (lasting unmoved).kept (.of_unmoved home) (fun heap => heap.holds_unmoved home)
    fun _ before => ⟨⟨trivial, trivial⟩, Nat.ne_of_gt before.old⟩

end Apart

namespace Constant

variable {heap : Heap}

theorem declared (apart : heap.Apart home)
    (succeeds : (Store.setConst home name value heap).1 = .ok ()) :
    (Store.setConst home name value heap).2.Constant home name value := by
  rw [Store.setConst_eq] at succeeds ⊢
  split at succeeds
  · cases succeeds
  · refine ⟨?_, apart.bind _ _ _⟩
    rw [localVariable?_bind, if_pos ⟨rfl, rfl⟩, Array.getElem?_eq_getElem apart.old,
      Option.map_some]

theorem bind (constant : heap.Constant home name value) {env : FrameId} {key : String}
    (other : env ≠ home ∨ key ≠ name) (variable_ : Variable) :
    (heap.bind env key variable_).Constant home name value := by
  refine ⟨?_, constant.apart.bind _ _ _⟩
  rw [localVariable?_bind, if_neg, constant.bound]
  rintro ⟨here, same⟩
  exact other.elim (absurd here) (absurd same.symm)

theorem write {x : Store Unit} (op : Store.Write (.apart home) x)
    (constant : heap.Constant home name value) : (x heap).2.Constant home name value := by
  rcases op.binds heap with same | ⟨env, key, variable_, bound, -, allowed⟩
  · rw [same]
    exact constant
  · rw [bound]
    refine constant.bind ?_ variable_
    rcases allowed with elsewhere | ⟨id, object, found, rfl⟩ | free
    · exact Or.inl elsewhere
    · exact Or.inl (constant.apart.uninhabited id object found)
    · by_cases here : env = home
      · -- A write that looks first would have refused the name of the constant.
        refine Or.inr fun same => free value ?_
        rw [here, same]
        exact constant.bound
      · exact Or.inl here

theorem lasting (home : FrameId) (name : String) (value : Value) :
    Lasting (.apart home) (Constant home name value) :=
  have around : Lasting (.apart home) (Apart home) := Apart.lasting fun moved => moved rfl
  { cells := fun heap next frames objects before =>
      ⟨by rw [localVariable?, frames]; exact before.bound,
        around.cells heap next frames objects before.apart⟩
    push := fun frame before =>
      ⟨(localVariable?_push frame before.apart.old name).trans before.bound,
        around.push frame before.apart⟩
    object := fun held before => ⟨before.bound, around.object held before.apart⟩
    write := write
    changeFrame := fun {heap} env _ still before =>
      ⟨(localVariable?_changeFrame heap env still home name).trans before.bound,
        around.changeFrame env still before.apart⟩ }

/-- A constant lasts as long as no name is bound in its frame whatever it stood for. -/
theorem kept (home : FrameId) (name : String) (value : Value) :
    KeptThroughout (.apart home) fun state next =>
      state.heap.Constant home name value → next.heap.Constant home name value :=
  (lasting home name value).kept (.of_apart home) (fun heap => heap.holds_apart home)
    fun _ before =>
      have fresh := Nat.ne_of_gt before.apart.old
      ⟨⟨trivial, fresh⟩, fresh⟩

end Constant

/-! ## Variables -/

def IsVariable (home : FrameId) (name : String) (heap : Heap) : Prop :=
  ∃ value, heap.localVariable? home name = some ⟨value, false⟩

namespace IsVariable

variable {heap : Heap}

theorem define (old : home < heap.frames.size) (value : Value) :
    (Store.define home name value heap).2.IsVariable home name := by
  refine ⟨value, ?_⟩
  change (heap.bind home name ⟨value, false⟩).localVariable? home name = _
  rw [localVariable?_bind, if_pos ⟨rfl, rfl⟩, Array.getElem?_eq_getElem old, Option.map_some]

theorem write {permits : Permits} {x : Store Unit} (op : Store.Write permits x)
    (before : heap.IsVariable home name) : (x heap).2.IsVariable home name := by
  obtain ⟨value, bound⟩ := before
  rcases op.binds heap with same | ⟨env, key, ⟨fresh, constant⟩, written, free, -⟩
  · rw [same]
    exact ⟨value, bound⟩
  · rw [written]
    by_cases here : env = home ∧ name = key
    · obtain ⟨rfl, rfl⟩ := here
      cases constant with
      | false => exact define (size_of_localVariable? bound) fresh
      | true => exact absurd ((free rfl).symm.trans bound) nofun
    · exact ⟨value, by rw [localVariable?_bind, if_neg here, bound]⟩

theorem lasting (home : FrameId) (name : String) :
    Lasting (.anyCode True) (IsVariable home name) where
  cells _ _ frames _ := fun ⟨value, bound⟩ => ⟨value, by rw [localVariable?, frames]; exact bound⟩
  push frame := fun ⟨value, bound⟩ =>
    ⟨value, (localVariable?_push frame (size_of_localVariable? bound) name).trans bound⟩
  object _ before := before
  write := write
  changeFrame {heap} env _ still := fun ⟨value, bound⟩ =>
    ⟨value, (localVariable?_changeFrame heap env still home name).trans bound⟩

/-- What is a variable never becomes a constant. -/
theorem kept (home : FrameId) (name : String) :
    KeptThroughout (.anyCode True) fun state next =>
      state.heap.IsVariable home name → next.heap.IsVariable home name :=
  (lasting home name).kept (.of_anyCode True) (fun heap => heap.holds_anyCode trivial)
    fun _ _ => ⟨⟨trivial, trivial⟩, trivial⟩

end IsVariable

end Heap

end Rill

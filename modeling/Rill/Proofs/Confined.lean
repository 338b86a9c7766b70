import Rill.Proofs.Depth

/-!
# Nothing leads out of the heap

Arrays and frames go by the numbers of their cells. A heap is closed when every array that something
in it stands for is a cell of it, and so is the frame of every instance (`Heap.Closed`). An
operation that starts from a closed heap and from values that are known there leaves a closed heap
and gives a value that is known in it (`Store.Confined`), since it makes no number of a cell by
itself: it hands on what it was given, what it has read, and the numbers of new cells.
-/

set_option autoImplicit false

namespace Rill

namespace Fields

variable {α : Type}

def values (fields : Fields α) : List α := fields.entries.map Prod.snd

theorem mem_values_of_get? {fields : Fields α} {name : String} {value : α}
    (found : fields.get? name = some value) : value ∈ fields.values := by
  obtain ⟨entry, member, same⟩ := mem_of_get? found
  exact List.mem_map.mpr ⟨entry, member, same⟩

theorem mem_values_insert {fields : Fields α} {name : String} {value item : α}
    (member : item ∈ (fields.insert name value).values) : item = value ∨ item ∈ fields.values := by
  obtain ⟨entry, inside, rfl⟩ := List.mem_map.mp member
  exact (mem_put inside).imp_right fun old => List.mem_map.mpr ⟨entry, old, rfl⟩

theorem mem_values_insertAll {fields : Fields α} {written : List (String × α)} {item : α}
    (member : item ∈ (fields.insertAll written).values) :
    item ∈ fields.values ∨ item ∈ written.map Prod.snd := by
  obtain ⟨entry, inside, rfl⟩ := List.mem_map.mp member
  rcases mem_insertAll inside with old | ⟨source, place, same⟩
  · exact Or.inl (List.mem_map.mpr ⟨entry, old, rfl⟩)
  · exact Or.inr (List.mem_map.mpr ⟨source, place, same.symm⟩)

end Fields

/-! ## Cells -/

def Cells {α : Type} (cells : Array α) (P : α → Prop) : Prop :=
  ∀ (id : Nat) (cell : α), cells[id]? = some cell → P cell

namespace Cells

variable {α : Type} {cells : Array α} {P Q : α → Prop}

theorem mono (all : Cells cells P) (implies : ∀ cell, P cell → Q cell) : Cells cells Q :=
  fun id cell found => implies cell (all id cell found)

theorem push (all : Cells cells P) {cell : α} (holds : P cell) : Cells (cells.push cell) P := by
  intro id other found
  rw [Array.getElem?_push] at found
  split at found
  · cases found
    exact holds
  · exact all id other found

theorem modify (all : Cells cells P) (place : Nat) {f : α → α}
    (holds : ∀ cell, P cell → P (f cell)) : Cells (cells.modify place f) P := by
  intro id other found
  rw [Array.getElem?_modify] at found
  split at found
  · obtain ⟨cell, old, rfl⟩ := Option.map_eq_some_iff.mp found
    exact holds cell (all id cell old)
  · exact all id other found

end Cells

def Native.values : Native → List Value
  | partialCall callee slots _ => callee :: slots.filterMap id
  | _ => []

theorem Native.filled?_subset {slots : List (Option Value)} {args : List Value}
    (complete : filled? slots = some args) : args ⊆ slots.filterMap id := by
  have same : slots = args.map some := by
    induction slots generalizing args with
    | nil =>
        cases complete
        rfl
    | cons slot slots ih =>
        cases slot with
        | none => cases complete
        | some value =>
            have complete : (filled? slots).bind (fun rest => some (value :: rest))
                = some args := by simpa [filled?] using complete
            obtain ⟨rest, later, made⟩ := Option.bind_eq_some_iff.mp complete
            cases made
            rw [ih later, List.map_cons]
  rw [same, List.filterMap_map, Function.id_comp, List.filterMap_some]
  exact List.Subset.refl args

namespace Heap

def Knows (heap : Heap) : Value → Prop
  | .array id => id < heap.arrays.size
  | _ => True

def KnowsAll (heap : Heap) (values : List Value) : Prop := ∀ value ∈ values, heap.Knows value

/-- What stands in the cells of a heap is known in another one. -/
structure Within (heap other : Heap) : Prop where
  arrays : Cells heap.arrays fun items => other.KnowsAll items.toList
  records : Cells heap.records fun fields => other.KnowsAll fields.values
  frames : Cells heap.frames fun frame => ∀ variable_ ∈ frame.vars.values,
    other.Knows variable_.value
  natives : Cells heap.natives fun native => other.KnowsAll native.values
  objects : Cells heap.objects fun object => object.frame < other.frames.size

def Closed (heap : Heap) : Prop := heap.Within heap

/-- A heap has no more arrays and frames than another one. -/
structure NoLarger (heap next : Heap) : Prop where
  arrays : heap.arrays.size ≤ next.arrays.size
  frames : heap.frames.size ≤ next.frames.size

/-- A closed heap that has all the arrays and frames of another one. -/
structure GrownTo (heap next : Heap) : Prop extends heap.NoLarger next where
  closed : next.Closed

variable {heap next last other : Heap} {value : Value} {values more : List Value}

theorem NoLarger.of_same (arrays : next.arrays = heap.arrays) (frames : next.frames = heap.frames) :
    heap.NoLarger next where
  arrays := Nat.le_of_eq (congrArg Array.size arrays.symm)
  frames := Nat.le_of_eq (congrArg Array.size frames.symm)

theorem NoLarger.knows (larger : heap.NoLarger next) (known : heap.Knows value) :
    next.Knows value := by
  cases value with
  | array id => exact Nat.lt_of_lt_of_le known larger.arrays
  | _ => trivial

theorem NoLarger.knowsAll (larger : heap.NoLarger next) (known : heap.KnowsAll values) :
    next.KnowsAll values := fun value member => larger.knows (known value member)

theorem Within.mono (within : other.Within heap) (larger : heap.NoLarger next) :
    other.Within next where
  arrays := within.arrays.mono fun _ known => larger.knowsAll known
  records := within.records.mono fun _ known => larger.knowsAll known
  frames := within.frames.mono fun _ known variable_ member =>
    larger.knows (known variable_ member)
  natives := within.natives.mono fun _ known => larger.knowsAll known
  objects := within.objects.mono fun _ known => Nat.lt_of_lt_of_le known larger.frames

theorem GrownTo.refl (closed : heap.Closed) : heap.GrownTo heap := ⟨.of_same rfl rfl, closed⟩

theorem GrownTo.trans (first : heap.GrownTo next) (second : next.GrownTo last) :
    heap.GrownTo last where
  arrays := Nat.le_trans first.arrays second.arrays
  frames := Nat.le_trans first.frames second.frames
  closed := second.closed

theorem knows_of_isScalar (scalar : value.isScalar = true) : heap.Knows value := by
  cases value with
  | array => cases scalar
  | _ => trivial

@[simp] theorem knowsAll_nil : heap.KnowsAll [] := nofun

@[simp] theorem knowsAll_cons :
    heap.KnowsAll (value :: values) ↔ heap.Knows value ∧ heap.KnowsAll values :=
  List.forall_mem_cons

@[simp] theorem knowsAll_append :
    heap.KnowsAll (values ++ more) ↔ heap.KnowsAll values ∧ heap.KnowsAll more :=
  List.forall_mem_append

theorem KnowsAll.sub (known : heap.KnowsAll values) (part : more ⊆ values) : heap.KnowsAll more :=
  fun value member => known value (part member)

theorem KnowsAll.push {items : Array Value} (known : heap.KnowsAll items.toList)
    (fresh : heap.Knows value) : heap.KnowsAll (items.push value).toList := by
  simpa using ⟨known, fresh⟩

theorem KnowsAll.fill {slots : List (Option Value)} (known : heap.KnowsAll (slots.filterMap id))
    (given : heap.KnowsAll values) : heap.KnowsAll ((Native.fill slots values).filterMap id) := by
  induction slots generalizing values with
  | nil => exact known
  | cons slot slots ih =>
      cases slot with
      | some held =>
          simp only [Native.fill, List.filterMap_cons, id, knowsAll_cons] at known ⊢
          exact ⟨known.1, ih known.2 given⟩
      | none =>
          cases values with
          | nil => exact ih known given
          | cons value values =>
              simp only [Native.fill, List.filterMap_cons, id, knowsAll_cons] at given ⊢
              exact ⟨given.1, ih known given.2⟩

theorem KnowsAll.insert {fields : Fields Value} {name : String}
    (known : heap.KnowsAll fields.values) (fresh : heap.Knows value) :
    heap.KnowsAll (fields.insert name value).values := by
  intro item member
  rcases Fields.mem_values_insert member with rfl | old
  · exact fresh
  · exact known item old

theorem KnowsAll.insertAll {fields : Fields Value} {written : List (String × Value)}
    (known : heap.KnowsAll fields.values) (fresh : heap.KnowsAll (written.map Prod.snd)) :
    heap.KnowsAll (fields.insertAll written).values :=
  fun item member => (Fields.mem_values_insertAll member).elim (known item) (fresh item)

theorem knowsAll_texts (texts : List String) : heap.KnowsAll (texts.map .text) := by
  intro value member
  obtain ⟨text, -, rfl⟩ := List.mem_map.mp member
  trivial

theorem knows_character (found : Option Char) :
    heap.Knows ((found.map fun c => .text (String.singleton c)).getD .nil) := by
  cases found with
  | none => trivial
  | some c => trivial

theorem KnowsAll.getD (known : heap.KnowsAll values) (index : Nat) :
    heap.Knows (values[index]?.getD .nil) := by
  cases found : values[index]? with
  | none => trivial
  | some value => exact known value (List.mem_of_getElem? found)

theorem closed_empty : empty.Closed := by
  constructor <;> intro id cell found <;> simp [empty] at found

namespace Closed

variable (closed : heap.Closed)
include closed

/-! ### What is read from a closed heap -/

theorem array (id : Nat) : heap.KnowsAll (heap.array id).toList := by
  unfold Heap.array
  cases found : heap.arrays[id]? with
  | none => exact knowsAll_nil
  | some items => exact closed.arrays id items found

theorem record (id : Nat) : heap.KnowsAll (heap.record id).values := by
  unfold Heap.record
  cases found : heap.records[id]? with
  | none => exact knowsAll_nil
  | some fields => exact closed.records id fields found

theorem localVariable? {env : FrameId} {name : String} {variable_ : Variable}
    (found : heap.localVariable? env name = some variable_) : heap.Knows variable_.value := by
  unfold Heap.localVariable? at found
  split at found
  · rename_i frame there
    exact closed.frames env frame there variable_ (Fields.mem_values_of_get? found)
  · cases found

theorem getLocal? {env : FrameId} {name : String} (found : heap.getLocal? env name = some value) :
    heap.Knows value := by
  obtain ⟨variable_, there, rfl⟩ := Option.map_eq_some_iff.mp found
  exact closed.localVariable? there

theorem get? {env : FrameId} {name : String} (found : heap.get? env name = some value) :
    heap.Knows value := by
  obtain ⟨variable_, seen, rfl⟩ := Option.map_eq_some_iff.mp found
  unfold lookup? at seen
  split at seen
  · exact closed.localVariable? seen
  · cases seen

theorem bindings (env : FrameId) : heap.KnowsAll ((heap.bindings env).map Prod.snd) := by
  unfold Heap.bindings
  split
  · rename_i frame there
    intro value member
    simp only [List.map_map, List.mem_map, Function.comp_apply] at member
    obtain ⟨entry, inside, rfl⟩ := member
    have own : entry ∈ frame.vars.entries := (List.mergeSort_perm _ _).mem_iff.mp inside
    exact closed.frames env frame there entry.2 (List.mem_map.mpr ⟨entry, own, rfl⟩)
  · exact knowsAll_nil

theorem objectMember? {id : Nat} {name : String}
    (found : Access.objectMember? heap id name = some value) : heap.Knows value := by
  unfold Access.objectMember? at found
  split at found
  · exact closed.getLocal? found
  · cases found

theorem field? {owner : Value} {key : String}
    (found : Matching.field? heap owner key = some value) : heap.Knows value := by
  cases owner with
  | record id => exact closed.record id value (Fields.mem_values_of_get? found)
  | object id => exact closed.objectMember? found
  | _ => cases found

theorem part (owner : Value) (key : String) :
    heap.Knows ((Matching.field? heap owner key).getD .nil) := by
  cases found : Matching.field? heap owner key with
  | none => trivial
  | some value => exact closed.field? found

/-! ### What is written to a closed heap -/

theorem pushArray {items : Array Value} (known : heap.KnowsAll items.toList) :
    heap.GrownTo { heap with arrays := heap.arrays.push items } := by
  have larger : heap.NoLarger { heap with arrays := heap.arrays.push items } :=
    ⟨by simp, Nat.le_refl _⟩
  have within := Within.mono closed larger
  exact ⟨larger, within.arrays.push (larger.knowsAll known), within.records, within.frames,
    within.natives, within.objects⟩

theorem pushRecord {fields : Fields Value} (known : heap.KnowsAll fields.values) :
    heap.GrownTo { heap with records := heap.records.push fields } :=
  ⟨.of_same rfl rfl, closed.arrays, closed.records.push known, closed.frames, closed.natives,
    closed.objects⟩

theorem pushNative {native : Native} (known : heap.KnowsAll native.values) :
    heap.GrownTo { heap with natives := heap.natives.push native } :=
  ⟨.of_same rfl rfl, closed.arrays, closed.records, closed.frames, closed.natives.push known,
    closed.objects⟩

theorem pushObject {object : Object} (known : object.frame < heap.frames.size) :
    heap.GrownTo { heap with objects := heap.objects.push object } :=
  ⟨.of_same rfl rfl, closed.arrays, closed.records, closed.frames, closed.natives,
    closed.objects.push known⟩

theorem pushFrame {frame : Frame} (free : frame.vars = .empty) :
    heap.GrownTo { heap with frames := heap.frames.push frame } := by
  have larger : heap.NoLarger { heap with frames := heap.frames.push frame } :=
    ⟨Nat.le_refl _, by simp⟩
  have within := Within.mono closed larger
  have unbound : ∀ variable_ ∈ frame.vars.values, heap.Knows variable_.value := by
    rw [free]
    nofun
  exact ⟨larger, within.arrays, within.records, within.frames.push unbound, within.natives,
    within.objects⟩

theorem changeFrame (env : FrameId) {f : Frame → Frame}
    (known : ∀ frame, (∀ variable_ ∈ frame.vars.values, heap.Knows variable_.value) →
      ∀ variable_ ∈ (f frame).vars.values, heap.Knows variable_.value) :
    heap.GrownTo (heap.changeFrame env f) := by
  have larger : heap.NoLarger (heap.changeFrame env f) := ⟨Nat.le_refl _, by simp⟩
  have within := Within.mono closed larger
  exact ⟨larger, within.arrays, within.records, closed.frames.modify env known, within.natives,
    within.objects⟩

theorem bind (env : FrameId) (name : String) (constant : Bool) (known : heap.Knows value) :
    heap.GrownTo (heap.bind env name ⟨value, constant⟩) := by
  refine closed.changeFrame env fun frame old variable_ member => ?_
  rcases Fields.mem_values_insert member with rfl | before
  · exact known
  · exact old variable_ before

theorem changeArray (id : Nat) {f : Array Value → Array Value}
    (known : ∀ items : Array Value, heap.KnowsAll items.toList → heap.KnowsAll (f items).toList) :
    heap.GrownTo { heap with arrays := heap.arrays.modify id f } := by
  have larger : heap.NoLarger { heap with arrays := heap.arrays.modify id f } :=
    ⟨by simp, Nat.le_refl _⟩
  have within := Within.mono closed larger
  have items : Cells (heap.arrays.modify id f) fun items => heap.KnowsAll items.toList :=
    closed.arrays.modify id known
  exact ⟨larger, items.mono fun _ => larger.knowsAll, within.records, within.frames,
    within.natives, within.objects⟩

theorem changeRecord (id : Nat) {f : Fields Value → Fields Value}
    (known : ∀ fields : Fields Value, heap.KnowsAll fields.values →
      heap.KnowsAll (f fields).values) :
    heap.GrownTo { heap with records := heap.records.modify id f } :=
  ⟨.of_same rfl rfl, closed.arrays, closed.records.modify id known, closed.frames, closed.natives,
    closed.objects⟩

end Closed

end Heap

/-! ## Operations on the heap -/

/-- The value that a cause carries, if it carries one, is known. -/
def Cause.Known (heap : Heap) : Cause → Prop
  | thrown value _ => heap.Knows value
  | _ => True

theorem Heap.NoLarger.known {heap next : Heap} {cause : Cause} (larger : heap.NoLarger next)
    (known : cause.Known heap) : cause.Known next := by
  cases cause with
  | thrown value shown => exact larger.knows known
  | _ => trivial

/-- What is asked of a result in the heap that it comes with. -/
abbrev Requirement (α : Type) := Heap → α → Prop

namespace Requirement

def none {α : Type} : Requirement α := fun _ _ => True

def items : Requirement (Array Value) := fun heap items => heap.KnowsAll items.toList

def fields : Requirement (Fields Value) := fun heap fields => heap.KnowsAll fields.values

def entries : Requirement (List (String × Value)) :=
  fun heap entries => heap.KnowsAll (entries.map Prod.snd)

def pair : Requirement (Value × Value) := fun heap pair => heap.Knows pair.1 ∧ heap.Knows pair.2

def frame : Requirement FrameId := fun heap frame => frame < heap.frames.size

end Requirement

/-- A result is as required, or the cause of the failure is known. -/
def Heap.Meets {α : Type} (heap : Heap) (required : Requirement α) : Except Cause α → Prop
  | .ok a => required heap a
  | .error cause => cause.Known heap

/-- From a closed heap an operation leads to a closed heap, and its result is as required. -/
def Store.Confined {α : Type} (heap : Heap) (required : Requirement α) (x : Store α) : Prop :=
  heap.Closed → heap.GrownTo (x heap).2 ∧ (x heap).2.Meets required (x heap).1

namespace Store.Confined

variable {α β : Type} {heap : Heap} {x : Store α} {f : α → Store β} {required : Requirement α}
  {after : Requirement β}

theorem pure {a : α} (given : required heap a) : Confined heap required (pure a) :=
  fun closed => ⟨.refl closed, given⟩

theorem bind (first : Confined heap required x)
    (second : ∀ a next, heap.GrownTo next → required next a → Confined next after (f a)) :
    Confined heap after (x >>= f) := by
  intro closed
  have begun := first closed
  rw [bind_eq]
  cases ended : x heap with
  | mk result next =>
      rw [ended] at begun
      cases result with
      | ok a =>
          obtain ⟨grown, given⟩ := begun
          obtain ⟨further, met⟩ := second a next grown given grown.closed
          exact ⟨grown.trans further, met⟩
      | error cause => exact begun

theorem fail {cause : Cause} (known : cause.Known heap) : Confined heap required (fail cause) :=
  fun closed => ⟨.refl closed, known⟩

theorem mismatch (m : Mismatch) : Confined heap required (Store.mismatch m) := fail trivial

theorem read {f : Heap → α} (given : heap.Closed → required heap (f heap)) :
    Confined heap required (Store.read f) :=
  fun closed => ⟨.refl closed, given closed⟩

theorem look {f : Heap → α} {g : α → Store β}
    (inner : heap.Closed → Confined heap after (g (f heap))) :
    Confined heap after (Store.read f >>= g) :=
  fun closed => inner closed closed

theorem change {f : Heap → Heap} (grows : heap.Closed → heap.GrownTo (f heap)) :
    Confined heap .none (Store.change f) :=
  fun closed => ⟨grows closed, trivial⟩

theorem display (value : Value) : Confined heap .none (Store.display value) :=
  read fun _ => trivial

/-! ### New cells -/

theorem newArray {items : Array Value} (known : heap.KnowsAll items.toList) :
    Confined heap Heap.Knows (newArray items) := by
  intro closed
  refine ⟨closed.pushArray known, ?_⟩
  show heap.arrays.size < (heap.arrays.push items).size
  simp

theorem newTexts (texts : List String) :
    Confined heap Heap.Knows (Store.newArray (texts.map Value.text).toArray) :=
  newArray (Heap.knowsAll_texts texts)

theorem newRecord {fields : Fields Value} (known : heap.KnowsAll fields.values) :
    Confined heap Heap.Knows (newRecord fields) :=
  fun closed => ⟨closed.pushRecord known, trivial⟩

theorem newNative {native : Native} (known : heap.KnowsAll native.values) :
    Confined heap Heap.Knows (newNative native) :=
  fun closed => ⟨closed.pushNative known, trivial⟩

theorem newClosure (closure : Closure) : Confined heap Heap.Knows (newClosure closure) :=
  fun closed => ⟨⟨.of_same rfl rfl, closed.arrays, closed.records, closed.frames,
    closed.natives, closed.objects⟩, trivial⟩

theorem newBlueprint (decl : ClassDecl) (parent : Option BlueprintId) (env : FrameId) :
    Confined heap Heap.Knows (newBlueprint decl parent env) :=
  fun closed => ⟨⟨.of_same rfl rfl, closed.arrays, closed.records, closed.frames,
    closed.natives, closed.objects⟩, trivial⟩

theorem newObject {object : Object} (known : object.frame < heap.frames.size) :
    Confined heap Heap.Knows (newObject object) :=
  fun closed => ⟨closed.pushObject known, trivial⟩

theorem child (env : FrameId) : Confined heap .frame (child env) :=
  fun closed => ⟨closed.pushFrame rfl, by simp [Requirement.frame, Store.child, Heap.Meets]⟩

/-! ### Variables -/

theorem setMethod (env : FrameId) (method : Option MethodRef) :
    Confined heap .none (setMethod env method) :=
  change fun closed => closed.changeFrame env fun _ known => known

theorem setDir (env : FrameId) (dir : String) : Confined heap .none (setDir env dir) :=
  change fun closed => closed.changeFrame env fun _ known => known

theorem get (env : FrameId) (name : String) : Confined heap Heap.Knows (get env name) := by
  refine look fun closed => ?_
  split
  · rename_i value found
    exact pure (closed.get? found)
  · exact fail trivial

section Bind

variable {value : Value} (known : heap.Knows value)
include known

theorem define (env : FrameId) (name : String) : Confined heap .none (define env name value) :=
  change fun closed => closed.bind env name false known

theorem set (env : FrameId) (name : String) : Confined heap .none (set env name value) := by
  refine look fun _ => ?_
  split
  · exact fail trivial
  · exact define known env name

theorem declare (constant : Bool) (env : FrameId) (name : String) :
    Confined heap .none (declare constant env name value) := by
  cases constant with
  | false => exact set known env name
  | true =>
      refine look fun _ => ?_
      split
      · exact fail trivial
      · exact change fun closed => closed.bind env name true known

theorem update (env : FrameId) (name : String) : Confined heap .none (update env name value) := by
  refine look fun _ => ?_
  split
  · exact fail trivial
  · refine look fun _ => ?_
    split
    · exact fail trivial
    · exact define known _ name

end Bind

theorem declareAll (constant : Bool) (env : FrameId) {entries : List (String × Value)}
    (known : heap.KnowsAll (entries.map Prod.snd)) :
    Confined heap .none (declareAll constant env entries) := by
  induction entries generalizing heap with
  | nil => exact pure trivial
  | cons entry rest ih =>
      simp only [List.map_cons, Heap.knowsAll_cons] at known
      exact bind (declare known.1 constant env entry.1) fun _ next grown _ =>
        ih (grown.knowsAll known.2)

theorem setAll (env : FrameId) {entries : List (String × Value)}
    (known : heap.KnowsAll (entries.map Prod.snd)) :
    Confined heap .none (setAll env entries) := by
  induction entries generalizing heap with
  | nil => exact pure trivial
  | cons entry rest ih =>
      simp only [List.map_cons, Heap.knowsAll_cons] at known
      exact bind (set known.1 env entry.1) fun _ next grown _ => ih (grown.knowsAll known.2)

theorem defineMethods (env : FrameId) (methods : List (String × Method)) :
    Confined heap .none (defineMethods env methods) := by
  induction methods generalizing heap with
  | nil => exact pure trivial
  | cons entry rest ih =>
      exact bind (newClosure _) fun closure next _ known =>
        bind (define known env entry.1) fun _ _ _ _ => ih

theorem declareClass (decl : ClassDecl) (env : FrameId) :
    Confined heap .none (declareClass decl env) := by
  have parent : Confined heap .none (parentOf decl env) := by
    unfold parentOf
    split
    · exact pure trivial
    · refine bind (get env _) fun found next _ _ => ?_
      split
      · exact pure trivial
      · exact mismatch _
  exact bind parent fun above next _ _ =>
    bind (newBlueprint decl above env) fun blueprint last _ known => set known env decl.name

/-! ### Members and elements -/

theorem getMember {owner : Value} (known : heap.Knows owner) (name : String) :
    Confined heap Heap.Knows (Access.getMember owner name) := by
  cases owner with
  | record id =>
      refine look fun closed => ?_
      split
      · rename_i value found
        exact pure (closed.record id value (Fields.mem_values_of_get? found))
      · exact fail trivial
  | object id =>
      refine look fun closed => ?_
      split
      · rename_i value found
        exact pure (closed.objectMember? found)
      · exact look fun _ => fail trivial
  | array id =>
      simp only [Access.getMember]
      split
      · exact newNative Heap.knowsAll_nil
      · exact fail trivial
  | text text =>
      simp only [Access.getMember]
      split
      · exact newNative Heap.knowsAll_nil
      · exact fail trivial
  | _ => exact mismatch _

theorem setMember (owner : Value) (name : String) {value : Value} (known : heap.Knows value) :
    Confined heap .none (Access.setMember owner name value) := by
  cases owner with
  | record id =>
      exact change fun closed => closed.changeRecord id fun _ old => old.insert known
  | object id =>
      refine look fun _ => ?_
      split
      · exact define known _ name
      · exact pure trivial
  | _ => exact mismatch _

theorem place_known {n : Float} {length : Nat} {cause : Cause}
    (failed : Access.place n length = .error cause) : cause.Known heap := by
  unfold Access.place at failed
  grind [Cause.Known]

theorem getIndex {owner key : Value} (known : heap.Knows owner) :
    Confined heap Heap.Knows (Access.getIndex owner key) := by
  unfold Access.getIndex
  split
  · refine look fun closed => ?_
    split
    · rename_i id _ _ index _
      have elements := (closed.array id).getD index
      rw [Array.getElem?_toList] at elements
      exact pure elements
    · rename_i failed
      exact fail (place_known failed)
  · dsimp only
    split
    · exact pure (Heap.knows_character _)
    · rename_i failed
      exact fail (place_known failed)
  · exact getMember known _
  · exact getMember known _
  · exact mismatch _

theorem setIndex (owner key : Value) {value : Value} (known : heap.Knows value) :
    Confined heap .none (Access.setIndex owner key value) := by
  unfold Access.setIndex
  split
  · refine look fun closed => ?_
    split
    · rename_i id _ _ index _
      refine change fun closed => closed.changeArray id fun items old item member => ?_
      rw [Array.toList_setIfInBounds] at member
      rcases List.mem_or_eq_of_mem_set member with before | rfl
      · exact old item before
      · exact known
    · rename_i failed
      exact fail (place_known failed)
  · exact setMember _ _ known
  · exact setMember _ _ known
  · exact mismatch _

theorem keyText (key : Value) : Confined heap .none (Access.keyText key) := by
  cases key with
  | text text => exact pure trivial
  | number | bool => exact display _
  | _ => exact mismatch _

theorem spreadItems (value : Value) : Confined heap Heap.KnowsAll (Access.spreadItems value) := by
  cases value with
  | array id => exact look fun closed => pure (closed.array id)
  | text text => exact pure (Heap.knowsAll_texts _)
  | _ => exact mismatch _

theorem spreadFields (value : Value) : Confined heap .entries (Access.spreadFields value) := by
  cases value with
  | record id => exact look fun closed => pure (closed.record id)
  | nil => exact pure Heap.knowsAll_nil
  | _ => exact mismatch _

theorem elements (value : Value) : Confined heap Heap.KnowsAll (Access.elements value) := by
  cases value with
  | array id => exact look fun closed => pure (closed.array id)
  | record id => exact look fun _ => pure (Heap.knowsAll_texts _)
  | text text => exact pure (Heap.knowsAll_texts _)
  | _ => exact mismatch _

theorem entries (value : Value) :
    Confined heap (fun heap found => ∀ pair ∈ found, Requirement.pair heap pair)
      (Store.entries value) := by
  unfold Store.entries
  split
  · exact pure nofun
  · rename_i id
    refine look fun closed => pure fun pair member => ?_
    simp only [List.mem_toArray, List.mem_map] at member
    obtain ⟨entry, inside, rfl⟩ := member
    exact ⟨trivial, closed.record id entry.2 (List.mem_map.mpr ⟨entry, inside, rfl⟩)⟩
  · refine pure fun pair member => ?_
    simp only [List.mem_toArray, List.mem_map] at member
    obtain ⟨entry, -, rfl⟩ := member
    exact ⟨trivial, trivial⟩
  · exact mismatch _

theorem entryAt (value : Value) {entries : Array (Value × Value)}
    (known : ∀ pair ∈ entries, Requirement.pair heap pair) (index : Nat) :
    Confined heap (fun heap found => ∀ pair, found = some pair → Requirement.pair heap pair)
      (Store.entryAt value entries index) := by
  unfold Store.entryAt
  split
  · rename_i id
    refine look fun closed => pure fun pair found => ?_
    obtain ⟨item, there, rfl⟩ := Option.map_eq_some_iff.mp found
    exact ⟨trivial, closed.array id item (Array.mem_toList_iff.mpr (Array.mem_of_getElem? there))⟩
  · exact pure fun pair found => known pair (Array.mem_of_getElem? found)

/-! ### Patterns -/

mutual

theorem matchBind (env : FrameId) (pattern : Pattern) {heap : Heap} {value : Value}
    (known : heap.Knows value) : Confined heap .none (Matching.bind env pattern value) := by
  cases pattern with
  | wildcard =>
      rw [Matching.bind]
      exact pure trivial
  | binding name =>
      rw [Matching.bind]
      exact bind (define known env name) fun _ _ _ _ => pure trivial
  | literal literal =>
      rw [Matching.bind]
      exact pure trivial
  | array elements rest =>
      cases value with
      | array id =>
          rw [Matching.bind]
          refine look fun closed => ?_
          have items := closed.array id
          cases rest with
          | none =>
              dsimp only
              split
              · exact pure trivial
              · refine bind (matchAll env elements items) fun fitting next _ _ => ?_
                split
                · exact pure trivial
                · exact pure trivial
          | some name =>
              dsimp only
              split
              · exact pure trivial
              · refine bind (matchAll env elements items) fun fitting next grown _ => ?_
                have left := (grown.knowsAll items).sub (List.drop_subset elements.length _)
                split
                · exact pure trivial
                · exact bind (newArray left) fun rest last _ known =>
                    bind (define known env name) fun _ _ _ _ => pure trivial
      | _ =>
          rw [Matching.bind]
          · exact pure trivial
          · simp
  | record fields =>
      rw [Matching.bind]
      exact matchFields env fields known

theorem matchAll (env : FrameId) (patterns : List Pattern) {heap : Heap} {values : List Value}
    (known : heap.KnowsAll values) :
    Confined heap .none (Matching.bindAll env patterns values) := by
  cases patterns with
  | nil =>
      rw [Matching.bindAll]
      · exact pure trivial
      · simp
  | cons pattern patterns =>
      cases values with
      | nil =>
          rw [Matching.bindAll]
          · exact pure trivial
          · simp
      | cons value values =>
          rw [Heap.knowsAll_cons] at known
          rw [Matching.bindAll]
          refine bind (matchBind env pattern known.1) fun fitting next grown _ => ?_
          split
          · exact matchAll env patterns (grown.knowsAll known.2)
          · exact pure trivial

theorem matchFields (env : FrameId) (fields : List (String × Pattern)) {heap : Heap} {value : Value}
    (known : heap.Knows value) : Confined heap .none (Matching.bindFields env fields value) := by
  cases fields with
  | nil =>
      rw [Matching.bindFields]
      exact pure trivial
  | cons field rest =>
      obtain ⟨key, pattern⟩ := field
      rw [Matching.bindFields]
      refine look fun closed => ?_
      split
      · exact pure trivial
      · rename_i part found
        refine bind (matchBind env pattern (closed.field? found)) fun fitting next grown _ => ?_
        split
        · exact matchFields env rest (grown.knows known)
        · exact pure trivial

end

theorem parts (names : Destructure) (value : Value) :
    Confined heap .entries (Matching.parts names value) := by
  have named : ∀ (keys : List String) (owner : Value), Confined heap .entries (Store.read
      fun heap => keys.map fun key => (key, (Matching.field? heap owner key).getD .nil)) := by
    intro keys owner
    refine read fun closed item member => ?_
    obtain ⟨entry, inside, rfl⟩ := List.mem_map.mp member
    obtain ⟨key, -, rfl⟩ := List.mem_map.mp inside
    exact closed.part owner key
  unfold Matching.parts
  split
  · rename_i slots id
    refine look fun closed => pure fun item member => ?_
    obtain ⟨entry, inside, rfl⟩ := List.mem_map.mp member
    obtain ⟨slot, -, made⟩ := List.mem_filterMap.mp inside
    obtain ⟨name, -, rfl⟩ := Option.map_eq_some_iff.mp made
    have element := (closed.array id).getD slot.2
    rwa [Array.getElem?_toList] at element
  · exact named _ _
  · exact named _ _
  · exact mismatch _
  · exact mismatch _

/-! ### Operators -/

theorem binary (op : BinaryOp) {left right : Value} (knownLeft : heap.Knows left)
    (knownRight : heap.Knows right) :
    Confined heap Heap.Knows (Operation.binary op left right) := by
  have onNumbers : ∀ f : Float → Float → Store Value, (∀ a b, Confined heap Heap.Knows (f a b)) →
      Confined heap Heap.Knows (Operation.onNumbers op left right f) := by
    intro f confined
    unfold Operation.onNumbers
    split
    · exact confined _ _
    · exact mismatch _
  have arithmetic : ∀ a b, Confined heap Heap.Knows (Operation.arithmetic op a b) := by
    intro a b
    unfold Operation.arithmetic
    split
    · exact pure trivial
    · exact pure trivial
    · split
      · exact fail trivial
      · exact pure trivial
    · split
      · exact fail trivial
      · exact pure trivial
  have comparison : Confined heap Heap.Knows (Operation.comparison op left right) := by
    unfold Operation.comparison
    split
    · exact pure trivial
    · exact pure trivial
    · exact mismatch _
  have bitwise : ∀ a b, heap.Knows (Operation.bitwise op a b) := by
    intro a b
    unfold Operation.bitwise
    dsimp only
    split <;> trivial
  have either : ∀ answer : Bool, heap.Knows (if answer then right else left) ∧
      heap.Knows (if answer then left else right) := by
    rintro (_ | _)
    · exact ⟨knownLeft, knownRight⟩
    · exact ⟨knownRight, knownLeft⟩
  cases op with
  | add =>
      show Confined heap Heap.Knows (Operation.add left right)
      unfold Operation.add
      split
      · exact pure trivial
      · exact look fun _ => pure trivial
      · exact look fun _ => pure trivial
      · exact look fun closed => look fun _ => newArray (by
          simpa using ⟨closed.array _, closed.array _⟩)
      · exact look fun closed => newArray (by simpa using ⟨closed.array _, knownRight⟩)
      · exact mismatch _
  | sub | mul | div | mod => exact onNumbers _ arithmetic
  | eq | notEq => exact pure trivial
  | and | coalesce => exact pure (either _).1
  | or => exact pure (either _).2
  | less | lessEq | greater | greaterEq => exact comparison
  | bitAnd | bitOr | bitXor | shiftLeft | shiftRight =>
      exact onNumbers _ fun a b => pure (bitwise _ _)
  | pipe => exact mismatch _

theorem unary (op : UnaryOp) (value : Value) :
    Confined heap Heap.Knows (Operation.unary op value) := by
  unfold Operation.unary
  split
  · exact pure trivial
  · exact pure trivial
  · exact pure trivial
  · exact pure trivial
  · exact mismatch _

/-! ### Native functions and handlers -/

theorem caught {fault : Fault} (known : fault.cause.Known heap) :
    Confined heap Heap.Knows fault.caught := by
  have described : ∀ entries : List (String × Value), heap.KnowsAll (entries.map Prod.snd) →
      Confined heap Heap.Knows (Store.newRecord (.ofList entries)) := by
    exact fun entries all => newRecord (Heap.knowsAll_nil.insertAll all)
  have place : heap.KnowsAll ((Fault.placeFields fault.position).map Prod.snd) := by
    unfold Fault.placeFields
    split <;> simp [Heap.Knows]
  unfold Fault.caught
  split
  · rename_i thrown
    rw [thrown] at known
    exact pure known
  · dsimp only
    split
    · exact described _ (by simp [place, Fault.breachFields, Heap.Knows])
    · exact described _ (by simp [place, Heap.Knows])

theorem function (name : String) {value : Value} (known : heap.Knows value) :
    Confined heap Heap.Knows (Native.function name value) := by
  unfold Native.function
  split
  · exact pure known
  · exact mismatch _

theorem text (name : String) (value : Value) : Confined heap .none (Native.text name value) := by
  unfold Native.text
  split
  · exact pure trivial
  · exact mismatch _

theorem bound (value : Value) (length default : Nat) :
    Confined heap .none (Native.bound value length default) := by
  unfold Native.bound
  split
  · exact pure trivial
  · exact pure trivial
  · exact mismatch _

theorem ofTextResult (method : TextMethod) (name receiver : String) (args : List Value) :
    Confined heap Heap.Knows (Native.ofTextResult method name receiver args) := by
  cases method with
  | count | upper | lower | trim => exact pure trivial
  | split =>
      simp only [Native.ofTextResult]
      split
      · exact newTexts _
      · exact bind (text name _) fun separator _ _ _ => newTexts _
  | contains | startsWith | endsWith =>
      exact bind (text name _) fun piece _ _ _ => pure trivial

theorem length (args : List Value) : Confined heap Heap.Knows (Native.length args) := by
  unfold Native.length
  split
  · exact pure trivial
  · exact look fun _ => pure trivial
  · exact look fun _ => pure trivial
  · exact mismatch _

theorem fieldNames (args : List Value) : Confined heap Heap.Knows (Native.fieldNames args) := by
  unfold Native.fieldNames
  split
  · exact look fun _ => newTexts _
  · exact look fun _ => newTexts _
  · exact mismatch _

theorem isInstance (args : List Value) : Confined heap Heap.Knows (Native.isInstance args) := by
  unfold Native.isInstance
  split
  · exact read fun _ => trivial
  · exact pure trivial
  · exact mismatch _

end Store.Confined

end Rill

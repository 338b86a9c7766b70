import Rill.Proofs.Bindings
import Rill.Proofs.Confined.Evaluation
import Rill.Proofs.Endless

/-!
# What patterns match

`Matching.Fits` says when a value has the shape of a pattern and which parts of it the names of the
pattern stand for, without a frame. `Matching.bind` writes names while it still decides, but it
answers with that shape, and a match that succeeds leaves exactly the parts in the frame
(`bind_bound`).

A record pattern without fields asks for nothing, not even for a record.
-/

set_option autoImplicit false

namespace Rill

namespace Heap

/-- A value and what is in it: elements, fields and members, at any depth. -/
inductive Part (heap : Heap) (whole : Value) : Value → Prop where
  | self : Part heap whole whole
  | element {id : Nat} {item : Value} (outer : Part heap whole (.array id))
      (member : item ∈ (heap.array id).toList) : Part heap whole item
  | field {owner item : Value} {key : String} (outer : Part heap whole owner)
      (named : Matching.field? heap owner key = some item) : Part heap whole item

def Allocates (heap : Heap) (value : Value) : Prop :=
  ∀ id, heap.Part value (.array id) → id < heap.arrays.size

theorem Allocates.part {heap : Heap} {value item : Value} (whole : heap.Allocates value)
    (inside : heap.Part value item) : heap.Allocates item := by
  intro id deeper
  refine whole id ?_
  generalize array : Value.array id = last at deeper ⊢
  clear array
  induction deeper with
  | self => exact inside
  | element _ member outward => exact .element outward member
  | field _ named outward => exact .field outward named

theorem Closed.knows_part {heap : Heap} (closed : heap.Closed) {value item : Value}
    (known : heap.Knows value) (inside : heap.Part value item) : heap.Knows item := by
  induction inside with
  | self => exact known
  | element _ member => exact closed.array _ _ member
  | field _ named => exact closed.field? named

theorem Closed.allocates {heap : Heap} (closed : heap.Closed) {value : Value}
    (known : heap.Knows value) : heap.Allocates value :=
  fun _ inside => closed.knows_part known inside

/-- Nothing but one frame has changed, and arrays have been added. -/
structure Beside (env : FrameId) (heap next : Heap) : Prop where
  cells : next = { heap with arrays := next.arrays, frames := next.frames }
  arrays : heap.arrays.toList <+: next.arrays.toList
  frames (home : FrameId) (other : home ≠ env) : next.frames[home]? = heap.frames[home]?

namespace Beside

variable {env : FrameId} {heap next last : Heap}

theorem refl (env : FrameId) (heap : Heap) : heap.Beside env heap :=
  ⟨rfl, List.prefix_refl _, fun _ _ => rfl⟩

theorem trans (first : heap.Beside env next) (second : next.Beside env last) :
    heap.Beside env last :=
  ⟨by rw [second.cells, first.cells], first.arrays.trans second.arrays,
    fun home other => (second.frames home other).trans (first.frames home other)⟩

theorem bind (heap : Heap) (env : FrameId) (name : String) (variable_ : Variable) :
    heap.Beside env (heap.bind env name variable_) := by
  refine ⟨rfl, List.prefix_refl _, fun home other => ?_⟩
  rw [Heap.bind, changeFrame, Array.getElem?_modify, if_neg (Ne.symm other)]

theorem push (heap : Heap) (env : FrameId) (items : Array Value) :
    heap.Beside env { heap with arrays := heap.arrays.push items } :=
  ⟨rfl, by simp, fun _ _ => rfl⟩

theorem array (beside : heap.Beside env next) {id : Nat} (old : id < heap.arrays.size) :
    next.array id = heap.array id := by
  obtain ⟨extra, grown⟩ := beside.arrays
  have same : next.arrays.toList[id]? = heap.arrays.toList[id]? := by
    rw [← grown, List.getElem?_append_left (by simpa using old)]
  simp only [Array.getElem?_toList] at same
  simp only [Heap.array, same]

theorem field? (beside : heap.Beside env next)
    (apart : ∀ (id : Nat) (object : Object), heap.objects[id]? = some object → object.frame ≠ env)
    (value : Value) (key : String) :
    Matching.field? next value key = Matching.field? heap value key := by
  have records : next.records = heap.records := by rw [beside.cells]
  have objects : next.objects = heap.objects := by rw [beside.cells]
  cases value with
  | record id => simp only [Matching.field?, Heap.record, records]
  | object id =>
      simp only [Matching.field?, Access.objectMember?, objects]
      cases found : heap.objects[id]? with
      | none => rfl
      | some object =>
          simp only [getLocal?, localVariable?, beside.frames _ (apart id object found)]
  | _ => rfl

end Beside

end Heap

namespace Matching

/-- What a name of a pattern stands for: a part of the value, or the elements that are left. -/
inductive Share where
  | part (value : Value)
  | rest (items : List Value)

mutual

/-- A value has the shape of a pattern, whose names stand for these shares of it, from left to
right. -/
inductive Fits (heap : Heap) : Pattern → Value → List (String × Share) → Prop where
  | wildcard (value : Value) : Fits heap .wildcard value []
  | binding (name : String) (value : Value) :
      Fits heap (.binding name) value [(name, .part value)]
  | literal {literal : Literal} {value : Value} (same : literal.value.same value = true) :
      Fits heap (.literal literal) value []
  | array {elements : List Pattern} {id : Nat} {found : List (String × Share)}
      (all : FitsAll heap elements (heap.array id).toList found) :
      Fits heap (.array elements none) (.array id) found
  | arrayRest {elements : List Pattern} {name : String} {id : Nat} {front back : List Value}
      {found : List (String × Share)} (split : (heap.array id).toList = front ++ back)
      (all : FitsAll heap elements front found) :
      Fits heap (.array elements (some name)) (.array id) (found ++ [(name, .rest back)])
  | record {key : String} {pattern : Pattern} {fields : List (String × Pattern)} {value : Value}
      {found : List (String × Share)} (keyed : value.type = .record ∨ value.type = .object)
      (all : FitsFields heap ((key, pattern) :: fields) value found) :
      Fits heap (.record ((key, pattern) :: fields)) value found
  /-- The record pattern without fields does not look at the value. -/
  | noFields (value : Value) : Fits heap (.record []) value []

inductive FitsAll (heap : Heap) : List Pattern → List Value → List (String × Share) → Prop where
  | nil : FitsAll heap [] [] []
  | cons {pattern : Pattern} {value : Value} {patterns : List Pattern} {values : List Value}
      {found more : List (String × Share)} (first : Fits heap pattern value found)
      (others : FitsAll heap patterns values more) :
      FitsAll heap (pattern :: patterns) (value :: values) (found ++ more)

inductive FitsFields (heap : Heap) :
    List (String × Pattern) → Value → List (String × Share) → Prop where
  | nil (value : Value) : FitsFields heap [] value []
  | cons {key : String} {pattern : Pattern} {value item : Value}
      {fields : List (String × Pattern)} {found more : List (String × Share)}
      (named : field? heap value key = some item) (first : Fits heap pattern item found)
      (others : FitsFields heap fields value more) :
      FitsFields heap ((key, pattern) :: fields) value (found ++ more)

end

/-- The heap after one share has been given its name. A rest becomes a new array. -/
def Share.bind (env : FrameId) (heap : Heap) : String × Share → Heap
  | (name, .part value) => heap.bind env name ⟨value, false⟩
  | (name, .rest items) =>
      { heap with arrays := heap.arrays.push items.toArray }.bind env name
        ⟨.array heap.arrays.size, false⟩

/-- The heap after all shares have been given their names, from left to right. -/
def Share.bindAll (env : FrameId) (found : List (String × Share)) (heap : Heap) : Heap :=
  found.foldl (Share.bind env) heap

/-- How a match in a frame ends: it leaves the shares of the value in the frame, or the value does
not have the shape that was asked for. -/
inductive Bound (env : FrameId) (heap next : Heap) (fits : List (String × Share) → Prop) :
    Except Cause Bool × Heap → Prop where
  | bound {found : List (String × Share)} (fit : fits found) :
      Bound env heap next fits (.ok true, Share.bindAll env found next)
  | unfit {last : Heap} (misfit : ∀ found, ¬ fits found) (beside : heap.Beside env last) :
      Bound env heap next fits (.ok false, last)

section Bind

variable {env : FrameId} {heap next : Heap}

theorem Share.bindAll_append (found more : List (String × Share)) (heap : Heap) :
    bindAll env (found ++ more) heap = bindAll env more (bindAll env found heap) :=
  List.foldl_append

theorem Share.beside_bindAll (found : List (String × Share)) (heap : Heap) :
    heap.Beside env (bindAll env found heap) := by
  induction found generalizing heap with
  | nil => exact .refl env heap
  | cons first more ih =>
      refine Heap.Beside.trans ?_ (ih (Share.bind env heap first))
      obtain ⟨name, share⟩ := first
      cases share with
      | part value => exact .bind heap env name _
      | rest items => exact (Heap.Beside.push heap env items.toArray).trans (.bind _ env name _)

/-- Two matches one after another, the second only if the first succeeds. -/
theorem Bound.both {first second both : List (String × Share) → Prop} {x y : Store Bool}
    (beside : heap.Beside env next) (one : Bound env heap next first (x next))
    (two : ∀ between, heap.Beside env between → Bound env heap between second (y between))
    (join : ∀ found more, first found → second more → both (found ++ more))
    (split : ∀ found, both found → ∃ front back, first front ∧ second back) :
    Bound env heap next both ((do if ← x then y else return false : Store Bool) next) := by
  rw [Store.bind_eq]
  cases ended : x next with
  | mk answer between =>
      rw [ended] at one
      cases one with
      | bound fit =>
          rename_i found
          have later := two _ (beside.trans (Share.beside_bindAll found next))
          simp only [if_true]
          cases last : y (Share.bindAll env found next) with
          | mk answer last =>
              rw [last] at later
              cases later with
              | bound also =>
                  rw [← Share.bindAll_append]
                  exact .bound (join _ _ fit also)
              | unfit misfit after =>
                  refine .unfit (fun found all => ?_) after
                  obtain ⟨_, back, -, also⟩ := split found all
                  exact misfit back also
      | unfit misfit after =>
          refine .unfit (fun found all => ?_) after
          obtain ⟨front, _, fit, -⟩ := split found all
          exact misfit front fit

/-- To give up unless a match succeeds is to go on if it does. -/
theorem if_not (x y : Store Bool) :
    (do if !(← x) then return false else y) = (do if ← x then y else return false) := by
  congr 1
  funext answer
  cases answer <;> rfl

theorem FitsAll.length_eq {patterns : List Pattern} {values : List Value}
    {found : List (String × Share)} (all : FitsAll heap patterns values found) :
    patterns.length = values.length := by
  induction patterns generalizing values found with
  | nil =>
      cases all
      rfl
  | cons pattern patterns ih =>
      cases all with
      | cons first others => rw [List.length_cons, List.length_cons, ih others]

theorem type_of_field? {value item : Value} {key : String}
    (named : field? heap value key = some item) :
    value.type = .record ∨ value.type = .object := by
  cases value with
  | record id => exact .inl rfl
  | object id => exact .inr rfl
  | _ => cases named

mutual

theorem bind_bound
    (apart : ∀ (id : Nat) (object : Object), heap.objects[id]? = some object → object.frame ≠ env) :
    ∀ (pattern : Pattern) (value : Value) (next : Heap), heap.Beside env next →
      heap.Allocates value →
      Bound env heap next (Fits heap pattern value) (bind env pattern value next)
  | .wildcard, value, _, _, _ => .bound (Fits.wildcard value)
  | .binding name, value, _, _, _ => .bound (Fits.binding name value)
  | .literal literal, value, next, beside, _ => by
      rw [bind]
      cases same : literal.value.same value with
      | true => exact .bound (Fits.literal same)
      | false =>
          refine .unfit (fun _ fit => ?_) beside
          cases fit with
          | literal equal => exact absurd equal (by rw [same]; exact Bool.false_ne_true)
  | .array elements rest, .array id, next, beside, whole => by
      have inside : ∀ item ∈ (heap.array id).toList, heap.Allocates item := fun item member =>
        whole.part (.element .self member)
      rw [bind, Store.bind_eq]
      simp only [Store.array, Store.read, beside.array (whole id .self), if_not]
      generalize items : (heap.array id).toList = values at inside ⊢
      cases rest with
      | none =>
          by_cases same : values.length = elements.length
          · have all := bindAll_bound apart elements values [] next beside same.symm inside
            rw [List.append_nil] at all
            rw [if_neg (by simpa using same)]
            refine Bound.both beside all (fun between _ => .bound (rfl : [] = []))
              (fun found more all nothing => ?_) fun found fit => ?_
            · rw [← nothing, List.append_nil]
              exact .array (items.symm ▸ all)
            · cases fit with
              | array all => exact ⟨found, [], items ▸ all, rfl⟩
          · rw [if_pos (by simpa using same)]
            refine .unfit (fun found fit => ?_) beside
            cases fit with
            | array all => exact same (items ▸ all.length_eq).symm
      | some name =>
          by_cases enough : elements.length ≤ values.length
          · obtain ⟨front, back, rfl, same⟩ : ∃ front back, values = front ++ back ∧
                elements.length = front.length :=
              ⟨values.take elements.length, values.drop elements.length,
                (List.take_append_drop _ _).symm, (List.length_take_of_le enough).symm⟩
            rw [if_neg (by simpa using enough), same, List.drop_left]
            refine Bound.both beside
              (bindAll_bound apart elements front back next beside same fun item member =>
                inside item (List.mem_append_left back member))
              (fun between _ => .bound (rfl : [(name, Share.rest back)] = [(name, Share.rest back)]))
              (fun found more all only => ?_) fun found fit => ?_
            · rw [← only]
              exact .arrayRest items all
            · cases fit with
              | arrayRest split all =>
                  obtain ⟨rfl, rfl⟩ := List.append_inj (items.symm.trans split)
                    (same.symm.trans all.length_eq)
                  exact ⟨_, _, all, rfl⟩
          · rw [if_pos (by simpa using enough)]
            refine .unfit (fun found fit => ?_) beside
            cases fit with
            | arrayRest split all =>
                rw [← items, split, all.length_eq, List.length_append] at enough
                exact enough (Nat.le_add_right _ _)
  | .array elements rest, .nil, next, beside, _
  | .array elements rest, .bool _, next, beside, _
  | .array elements rest, .number _, next, beside, _
  | .array elements rest, .text _, next, beside, _
  | .array elements rest, .record _, next, beside, _
  | .array elements rest, .native _, next, beside, _
  | .array elements rest, .closure _, next, beside, _
  | .array elements rest, .blueprint _, next, beside, _
  | .array elements rest, .object _, next, beside, _ => .unfit (fun _ fit => nomatch fit) beside
  | .record [], value, _, _, _ => .bound (Fits.noFields value)
  | .record (field :: fields), value, next, beside, whole => by
      rw [bind]
      generalize ended : bindFields env (field :: fields) value next = answer
      have bound := bindFields_bound apart (field :: fields) value next beside whole
      rw [ended] at bound
      cases bound with
      | bound all =>
          cases all with
          | cons named first others =>
              exact .bound (Fits.record (type_of_field? named) (.cons named first others))
      | unfit misfit after =>
          refine .unfit (fun found fit => ?_) after
          cases fit with
          | record keyed all => exact misfit found all

theorem bindAll_bound
    (apart : ∀ (id : Nat) (object : Object), heap.objects[id]? = some object → object.frame ≠ env) :
    ∀ (patterns : List Pattern) (front back : List Value) (next : Heap), heap.Beside env next →
      patterns.length = front.length → (∀ value ∈ front, heap.Allocates value) →
      Bound env heap next (FitsAll heap patterns front) (bindAll env patterns (front ++ back) next)
  | [], [], back, _, _, _, _ => by
      rw [bindAll.eq_def]
      exact .bound FitsAll.nil
  | pattern :: patterns, value :: values, back, next, beside, same, whole => by
      rw [List.cons_append, bindAll]
      refine Bound.both beside (bind_bound apart pattern value next beside (whole value (by simp)))
        (fun between after => bindAll_bound apart patterns values back between after
          (by simpa using same) fun item member => whole item (by simp [member]))
        (fun _ _ => .cons) fun found all => ?_
      cases all with
      | cons first others => exact ⟨_, _, first, others⟩

theorem bindFields_bound
    (apart : ∀ (id : Nat) (object : Object), heap.objects[id]? = some object → object.frame ≠ env) :
    ∀ (fields : List (String × Pattern)) (value : Value) (next : Heap), heap.Beside env next →
      heap.Allocates value →
      Bound env heap next (FitsFields heap fields value) (bindFields env fields value next)
  | [], value, _, _, _ => .bound (FitsFields.nil value)
  | (key, pattern) :: fields, value, next, beside, whole => by
      rw [bindFields, Store.bind_eq]
      simp only [Store.read, beside.field? apart]
      cases named : field? heap value key with
      | none =>
          refine .unfit (fun found all => ?_) beside
          cases all with
          | cons present => rw [named] at present; cases present
      | some item =>
          refine Bound.both beside
            (bind_bound apart pattern item next beside (whole.part (.field .self named)))
            (fun between after => bindFields_bound apart fields value between after whole)
            (fun _ _ => .cons named) fun found all => ?_
          cases all with
          | cons present first others =>
              rw [named] at present
              cases present
              exact ⟨_, _, first, others⟩

end

end Bind

/-! ## What a match leaves -/

section Unique

variable {heap : Heap}

mutual

theorem Fits.unique {pattern : Pattern} {value : Value} {found others : List (String × Share)}
    (fit : Fits heap pattern value found) (again : Fits heap pattern value others) :
    found = others := by
  match fit, again with
  | .wildcard _, .wildcard _ => rfl
  | .binding _ _, .binding _ _ => rfl
  | .literal _, .literal _ => rfl
  | .array all, .array also => exact FitsAll.unique all also
  | .arrayRest split all, .arrayRest split' also =>
      obtain ⟨rfl, rfl⟩ := List.append_inj (split.symm.trans split')
        (all.length_eq.symm.trans also.length_eq)
      rw [FitsAll.unique all also]
  | .record _ all, .record _ also => exact FitsFields.unique all also
  | .noFields _, .noFields _ => rfl

theorem FitsAll.unique {patterns : List Pattern} {values : List Value}
    {found others : List (String × Share)} (all : FitsAll heap patterns values found)
    (again : FitsAll heap patterns values others) : found = others := by
  match all, again with
  | .nil, .nil => rfl
  | .cons first rest, .cons first' rest' =>
      rw [Fits.unique first first', FitsAll.unique rest rest']

theorem FitsFields.unique {fields : List (String × Pattern)} {value : Value}
    {found others : List (String × Share)} (all : FitsFields heap fields value found)
    (again : FitsFields heap fields value others) : found = others := by
  match all, again with
  | .nil _, .nil _ => rfl
  | .cons named first rest, .cons named' first' rest' =>
      cases named.symm.trans named'
      rw [Fits.unique first first', FitsFields.unique rest rest']

end

end Unique

end Matching

mutual

def Pattern.names : Pattern → List String
  | .wildcard | .literal _ => []
  | .binding name => [name]
  | .array elements rest => namesAll elements ++ rest.toList
  | .record fields => namesFields fields

def Pattern.namesAll : List Pattern → List String
  | [] => []
  | pattern :: patterns => pattern.names ++ namesAll patterns

def Pattern.namesFields : List (String × Pattern) → List String
  | [] => []
  | (_, pattern) :: fields => pattern.names ++ namesFields fields

end

namespace Matching

section Names

variable {heap : Heap}

mutual

theorem Fits.names {pattern : Pattern} {value : Value} {found : List (String × Share)}
    (fit : Fits heap pattern value found) : found.map Prod.fst = pattern.names := by
  match fit with
  | .wildcard _ | .binding _ _ | .literal _ | .noFields _ => rfl
  | .array all => simp only [Pattern.names, all.names, Option.toList_none, List.append_nil]
  | .arrayRest _ all => simp only [Pattern.names, List.map_append, all.names]; rfl
  | .record _ all => exact all.names

theorem FitsAll.names {patterns : List Pattern} {values : List Value}
    {found : List (String × Share)} (all : FitsAll heap patterns values found) :
    found.map Prod.fst = Pattern.namesAll patterns := by
  match all with
  | .nil => rfl
  | .cons first others =>
      rw [List.map_append, first.names, others.names, Pattern.namesAll]

theorem FitsFields.names {fields : List (String × Pattern)} {value : Value}
    {found : List (String × Share)} (all : FitsFields heap fields value found) :
    found.map Prod.fst = Pattern.namesFields fields := by
  match all with
  | .nil _ => rfl
  | .cons _ first others =>
      rw [List.map_append, first.names, others.names, Pattern.namesFields]

end

end Names

namespace Share

/-- The variables that shares are given, when new arrays are numbered from `next` on. -/
def stored : Nat → List (String × Share) → List (String × Variable)
  | _, [] => []
  | next, (name, .part value) :: more => (name, ⟨value, false⟩) :: stored next more
  | next, (name, .rest _) :: more => (name, ⟨.array next, false⟩) :: stored (next + 1) more

def rests : List (String × Share) → List (Array Value)
  | [] => []
  | (_, .part _) :: more => rests more
  | (_, .rest items) :: more => items.toArray :: rests more

variable {env : FrameId}

theorem arrays_bindAll (found : List (String × Share)) (heap : Heap) :
    (bindAll env found heap).arrays.toList = heap.arrays.toList ++ rests found := by
  induction found generalizing heap with
  | nil => exact (List.append_nil _).symm
  | cons first found ih =>
      obtain ⟨name, share⟩ := first
      refine (ih (Share.bind env heap (name, share))).trans ?_
      cases share with
      | part value => rfl
      | rest items => simp [Share.bind, Heap.bind, Heap.changeFrame, rests]

theorem stays_bindAll (found : List (String × Share)) (heap : Heap) :
    heap.StaysAt env (bindAll env found heap) := by
  induction found generalizing heap with
  | nil => exact .of_frames rfl
  | cons first found ih =>
      refine Heap.StaysAt.trans ?_ (ih (Share.bind env heap first))
      obtain ⟨name, share⟩ := first
      cases share with
      | part value => exact .bind heap env name _
      | rest items => exact .trans (.of_frames rfl) (.bind _ env name _)

theorem extends_bindAll {base : FrameId} (found : List (String × Share)) (heap : Heap)
    (new : base ≤ env) : heap.Extends base (bindAll env found heap) := by
  induction found generalizing heap with
  | nil => exact .of_same rfl rfl rfl
  | cons first found ih =>
      refine Heap.Extends.trans ?_ (ih (Share.bind env heap first))
      obtain ⟨name, share⟩ := first
      cases share with
      | part value => exact .changeFrame heap _ new
      | rest items =>
          refine Heap.Extends.trans ?_ (.changeFrame _ _ new)
          exact ⟨Nat.le_refl _, fun _ _ => rfl, by simp, List.prefix_refl _⟩

theorem localVariable?_bind_self {heap : Heap} (old : env < heap.frames.size) (key : String)
    (variable_ : Variable) (name : String) :
    (heap.bind env key variable_).localVariable? env name
      = ([(key, variable_)].lookup name).or (heap.localVariable? env name) := by
  rw [Heap.localVariable?_bind]
  by_cases same : name = key
  · simp [same, old]
  · simp [same, List.lookup_cons, beq_eq_false_iff_ne.mpr same]

theorem localVariable?_bindAll (found : List (String × Share)) {heap : Heap}
    (old : env < heap.frames.size) (name : String) :
    (bindAll env found heap).localVariable? env name =
      ((stored heap.arrays.size found).reverse.lookup name).or
        (heap.localVariable? env name) := by
  induction found generalizing heap with
  | nil => rfl
  | cons first found ih =>
      obtain ⟨key, share⟩ := first
      change (bindAll env found (Share.bind env heap (key, share))).localVariable? env name = _
      cases share with
      | part value =>
          rw [Share.bind, ih (by simpa using old), localVariable?_bind_self old, stored,
            List.reverse_cons, List.lookup_append, Option.or_assoc]
          rfl
      | rest items =>
          rw [Share.bind, ih (by simpa using old), localVariable?_bind_self, stored,
            List.reverse_cons, List.lookup_append, Option.or_assoc]
          · simp only [Heap.bind, Heap.changeFrame, Array.size_push]
            rfl
          · exact old

end Share

/-! ## Matches in a fresh frame -/

end Matching

namespace Heap

/-- A frame in which nothing is bound and that is not the frame of an instance. -/
structure Unused (env : FrameId) (heap : Heap) : Prop extends Apart env heap where
  free (name : String) : heap.localVariable? env name = none

/-- A value and a frame of a closed heap. -/
structure Anchors (heap : Heap) (value : Value) (env : FrameId) : Prop where
  closed : heap.Closed
  known : heap.Knows value
  old : env < heap.frames.size

theorem get?_off {heap : Heap} {home env : FrameId} {frame : Frame}
    (here : heap.frames[home]? = some frame) (off : frame.parent = some env) (older : env < home)
    (name : String) :
    heap.get? home name
      = ((heap.localVariable? home name).map Variable.value).or (heap.get? env name) := by
  have own : heap.localVariable? home name = frame.vars.get? name := by
    simp only [localVariable?, here]
  have holder : heap.holder? home name
      = if (frame.vars.get? name).isSome then some home else heap.holder? env name := by
    rw [holder?, nearest?, here]
    simp only [off, dif_pos older]
    rfl
  unfold Heap.get? lookup?
  rw [holder, own]
  cases bound : frame.vars.get? name with
  | some variable_ => simp [own, bound]
  | none => simp

theorem Beside.child (env : FrameId) (heap : Heap) :
    heap.Beside heap.frames.size (Store.child env heap).2 := by
  refine ⟨rfl, List.prefix_refl _, fun home other => ?_⟩
  simp only [Store.child, Array.getElem?_push, if_neg other]

namespace Anchors

variable {heap next : Heap} {value : Value} {env : FrameId} (anchors : heap.Anchors value env)
include anchors

theorem later (grown : heap.GrownTo next) : next.Anchors value env :=
  ⟨grown.closed, grown.knows anchors.known, Nat.lt_of_lt_of_le anchors.old grown.frames⟩

theorem apart (id : Nat) (object : Object) (found : heap.objects[id]? = some object) :
    object.frame ≠ heap.frames.size :=
  Nat.ne_of_lt (anchors.closed.objects id object found)

/-- A match in a new frame leaves a closed heap, whatever its answer is. -/
theorem matched (pattern : Pattern) :
    Matching.Bound heap.frames.size heap (Store.child env heap).2 (Matching.Fits heap pattern value)
        (Matching.bind heap.frames.size pattern value (Store.child env heap).2) ∧
      heap.GrownTo (Matching.bind heap.frames.size pattern value (Store.child env heap).2).2 := by
  obtain ⟨grown, -⟩ := Store.Confined.child env anchors.closed
  obtain ⟨further, -⟩ := Store.Confined.matchBind heap.frames.size pattern
    (grown.knows anchors.known) grown.closed
  exact ⟨Matching.bind_bound anchors.apart pattern value _ (.child env heap)
    (anchors.closed.allocates anchors.known), grown.trans further⟩

end Anchors

end Heap

namespace Engine

open Matching

variable (engine : Engine) (value : Value) (env : FrameId)

/-- The state in which the guard and the body of an arm are evaluated: a new frame off the frame of
the `match` holds the shares of the value. -/
def admitted (found : List (String × Share)) (state : State) : State :=
  { state with heap :=
      Share.bindAll state.heap.frames.size found (Store.child env state.heap).2 }

/-- Arms that are passed over, one after another: the value does not have the shape, and only the
frame that was new has changed, or the guard has a value that does not hold. The heap stays closed
when an arm has been given up. -/
inductive Passes : List Arm → State → State → Prop where
  | none (state : State) : Passes [] state state
  | unfit {arm : Arm} {arms : List Arm} {state last : State} {heap : Heap}
      (unfit : ∀ found, ¬ Fits state.heap arm.pattern value found)
      (beside : state.heap.Beside state.heap.frames.size heap) (grown : state.heap.GrownTo heap)
      (others : Passes arms { state with heap } last) : Passes (arm :: arms) state last
  | refused {arm : Arm} {arms : List Arm} {state next last : State} {guard : Expr}
      {found : List (String × Share)} {answer : Value}
      (fit : Fits state.heap arm.pattern value found) (guarded : arm.guard = some guard)
      (ended : engine.eval guard state.heap.frames.size (admitted env found state)
        = .done answer next)
      (refusal : answer.isTruthy = false) (others : Passes arms next last) :
      Passes (arm :: arms) state last

/-- How an arm ends whose pattern has the shape of the value, unless the guard has a value that does
not hold. -/
inductive Chosen (arm : Arm) (frame : FrameId) (state : State) : Outcome Value → Prop where
  | unguarded (unguarded : arm.guard = none) :
      Chosen arm frame state (engine.eval arm.body frame state)
  | guarded {guard : Expr} {answer : Value} {next : State} (guarded : arm.guard = some guard)
      (ended : engine.eval guard frame state = .done answer next)
      (holds : answer.isTruthy = true) : Chosen arm frame state (engine.eval arm.body frame next)
  | fault {guard : Expr} {fault : Fault} {next : State} (guarded : arm.guard = some guard)
      (ended : engine.eval guard frame state = .fault fault next) :
      Chosen arm frame state (.fault fault next)
  | spent {guard : Expr} (guarded : arm.guard = some guard)
      (ended : engine.eval guard frame state = .spent) : Chosen arm frame state .spent

/-- How a `match` ends: by the first arm that is not passed over, or with a fault if there is
none. -/
inductive Decided (arms : List Arm) (state : State) : Outcome Value → Prop where
  | chosen {passed others : List Arm} {arm : Arm} {turn : State} {found : List (String × Share)}
      {outcome : Outcome Value} (split : arms = passed ++ arm :: others)
      (passes : engine.Passes value env passed state turn)
      (fit : Fits turn.heap arm.pattern value found)
      (chosen : engine.Chosen arm turn.heap.frames.size (admitted env found turn) outcome) :
      Decided arms state outcome
  | exhausted {last : State} (passes : engine.Passes value env arms state last) :
      Decided arms state (.fault (.of (.noMatch (last.heap.inspect value))) last)

def Turn (arms : List Arm) (state turn : State) : Prop :=
  ∃ passed arm others, arms = passed ++ arm :: others ∧
    engine.Passes value env passed state turn

variable {engine value env}

theorem Decided.cons {arm : Arm} {arms : List Arm} {state between : State}
    {outcome : Outcome Value} (later : engine.Decided value env arms between outcome)
    (passes : ∀ passed last, engine.Passes value env passed between last →
      engine.Passes value env (arm :: passed) state last) :
    engine.Decided value env (arm :: arms) state outcome := by
  cases later with
  | chosen split before fit chosen =>
      exact .chosen (by rw [split, List.cons_append]) (passes _ _ before) fit chosen
  | exhausted before => exact .exhausted (passes _ _ before)

theorem admitted_grown {state : State} (anchors : state.heap.Anchors value env) {pattern : Pattern}
    {found : List (String × Share)} (fit : Fits state.heap pattern value found) :
    state.heap.GrownTo (admitted env found state).heap := by
  obtain ⟨bound, grown⟩ := anchors.matched pattern
  generalize bind state.heap.frames.size pattern value (Store.child env state.heap).2 = answer
    at bound grown
  cases bound with
  | bound again =>
      rw [fit.unique again]
      exact grown
  | unfit misfit _ => exact absurd fit (misfit found)

section Confined

variable (confined : engine.Confined)
include confined

theorem guard_grown {state next : State} (anchors : state.heap.Anchors value env)
    {pattern : Pattern} {found : List (String × Share)}
    (fit : Fits state.heap pattern value found) {guard : Expr} {answer : Value}
    (ended : engine.eval guard state.heap.frames.size (admitted env found state)
      = .done answer next) : state.heap.GrownTo next.heap := by
  have grown := admitted_grown anchors fit
  have evaluated := confined.eval _ guard state.heap.frames.size grown.closed _ rfl
  rw [ended] at evaluated
  exact grown.trans evaluated.1

theorem Passes.anchors {arms : List Arm} {state last : State}
    (passes : engine.Passes value env arms state last) (anchors : state.heap.Anchors value env) :
    last.heap.Anchors value env := by
  induction passes with
  | none state => exact anchors
  | unfit _ _ grown _ ih => exact ih (anchors.later grown)
  | refused fit _ ended _ _ ih => exact ih (anchors.later (guard_grown confined anchors fit ended))

theorem evalArms_decided (arms : List Arm) (state : State)
    (anchors : state.heap.Anchors value env) :
    engine.Decided value env arms state (engine.evalArms value env arms state) := by
  induction arms generalizing state with
  | nil => exact .exhausted (.none state)
  | cons arm arms ih =>
      obtain ⟨bound, grown⟩ := anchors.matched arm.pattern
      have entered : (liftM (Store.child env) : Exec FrameId) state
          = .done state.heap.frames.size { state with heap := (Store.child env state.heap).2 } := rfl
      rw [evalArms, Exec.bind_eq, entered]
      dsimp only
      rw [Exec.bind_eq, Exec.store_eq]
      dsimp only
      generalize bind state.heap.frames.size arm.pattern value (Store.child env state.heap).2
        = answer at bound grown ⊢
      have first {found : List (String × Share)} {outcome : Outcome Value}
          (fit : Fits state.heap arm.pattern value found)
          (chosen : engine.Chosen arm state.heap.frames.size (admitted env found state) outcome) :
          engine.Decided value env (arm :: arms) state outcome :=
        .chosen (List.nil_append _).symm (.none state) fit chosen
      cases bound with
      | unfit none beside =>
          exact (ih _ (anchors.later grown)).cons fun _ _ => .unfit none beside grown
      | bound fit =>
          rename_i found
          dsimp only
          rw [if_pos rfl]
          cases guarded : arm.guard with
          | none => exact first fit (.unguarded guarded)
          | some guard =>
              change engine.Decided value env _ _ ((engine.eval guard _ >>= fun answer => _)
                (admitted env found state))
              rw [Exec.bind_eq]
              cases ended : engine.eval guard state.heap.frames.size (admitted env found state) with
              | done answer next =>
                  dsimp only
                  cases holds : answer.isTruthy with
                  | true => exact first fit (.guarded guarded ended holds)
                  | false =>
                      have still := anchors.later (guard_grown confined anchors fit ended)
                      exact (ih next still).cons fun _ _ => .refused fit guarded ended holds
              | fault fault next => exact first fit (.fault guarded ended)
              | spent => exact first fit (.spent guarded ended)

end Confined

/-- In the new frame of an arm the names of its pattern stand for their last shares, and every other
name stands for what it does in the frame of the `match`. -/
theorem get?_admitted {state : State} (old : env < state.heap.frames.size)
    (found : List (String × Share)) (name : String) :
    (admitted env found state).heap.get? state.heap.frames.size name
      = (((Share.stored state.heap.arrays.size found).reverse.lookup name).map
          Variable.value).or (state.heap.get? env name) := by
  have there : (Store.child env state.heap).2.frames[state.heap.frames.size]?
      = some ⟨.empty, some env, state.heap.dir env, none⟩ := by simp [Store.child]
  have extended := Heap.Extends.trans (.push state.heap _ (Nat.le_refl _))
    (Share.extends_bindAll found (Store.child env state.heap).2 (Nat.le_refl _))
  obtain ⟨frame, here, alike⟩ := Share.stays_bindAll found _ _ there
  have inside : state.heap.frames.size < (Store.child env state.heap).2.frames.size := by simp
  have bound := Share.localVariable?_bindAll found inside name
  have free : (Store.child env state.heap).2.localVariable? state.heap.frames.size name = none := by
    simp only [Heap.localVariable?, there]
    rfl
  rw [free, Option.or_none] at bound
  refine (Heap.get?_off here alike.parent old name).trans ?_
  rw [bound, extended.get?_eq old]
  rfl

end Engine

/-! ## Matching is structural -/

/-- A match in an unused frame has an answer: whether the value has the shape of the pattern. If so,
the frame holds the names of the pattern, each bound to its last share. From a closed heap, a
`match` evaluates the body of the first arm whose pattern has the shape of the value and whose guard
holds, in a frame where the names of that pattern alone have been bound.

The one shape that is not what it seems is the record pattern without fields (`Fits.noFields`). -/
theorem match_structural (env : FrameId) (value : Value) :
    (∀ (heap : Heap) (pattern : Pattern), heap.Unused env → heap.Allocates value →
        ∃ answer next, Matching.bind env pattern value heap = (.ok answer, next) ∧
          heap.Beside env next ∧
          (answer = true ↔ ∃ found, Matching.Fits heap pattern value found) ∧
          ∀ found, Matching.Fits heap pattern value found →
            found.map Prod.fst = pattern.names ∧
            next.arrays.toList = heap.arrays.toList ++ Matching.Share.rests found ∧
            ∀ name, next.localVariable? env name
              = (Matching.Share.stored heap.arrays.size found).reverse.lookup name) ∧
    ∀ (loader : Option Loader) (depth : Nat) (pos : Position) (subject : Expr) (arms : List Arm)
      (start state : State), start.heap.Closed → env < start.heap.frames.size →
      (Engine.ofDepth loader depth).eval subject env start = .done value state →
        (Engine.ofDepth loader depth).Decided value env arms state
          ((Engine.ofDepth loader depth).evalForm (.match_ pos subject arms) env start) ∧
        ∀ turn, (Engine.ofDepth loader depth).Turn value env arms state turn → ∀ found name,
          (Engine.admitted env found turn).heap.get? turn.heap.frames.size name
            = (((Matching.Share.stored turn.heap.arrays.size found).reverse.lookup name).map
                Variable.value).or (turn.heap.get? env name) := by
  refine ⟨fun heap pattern unused whole => ?_,
    fun loader depth pos subject arms start state closed old subjectEnds => ?_⟩
  · have bound := Matching.bind_bound unused.uninhabited pattern value heap (.refl env heap) whole
    generalize Matching.bind env pattern value heap = ended at bound ⊢
    cases bound with
    | unfit none beside =>
        exact ⟨false, _, rfl, beside, ⟨nofun, fun ⟨found, fit⟩ => absurd fit (none found)⟩,
          fun found fit => absurd fit (none found)⟩
    | bound fit =>
        refine ⟨true, _, rfl, Matching.Share.beside_bindAll _ heap, ⟨fun _ => ⟨_, fit⟩, fun _ => rfl⟩,
          fun found again => ?_⟩
        rw [fit.unique again]
        refine ⟨again.names, Matching.Share.arrays_bindAll found heap, fun name => ?_⟩
        rw [Matching.Share.localVariable?_bindAll found unused.old, unused.free, Option.or_none]
  · have confined := Engine.ofDepth_confined loader depth
    have evaluated := confined.eval _ subject env closed start rfl
    rw [subjectEnds] at evaluated
    obtain ⟨grown, known⟩ := evaluated
    have anchors : state.heap.Anchors value env :=
      ⟨grown.closed, known, Nat.lt_of_lt_of_le old grown.frames⟩
    constructor
    · rw [Engine.evalForm, Exec.bind_eq, subjectEnds]
      exact Engine.evalArms_decided confined arms state anchors
    · rintro turn ⟨passed, arm, others, -, passes⟩ found name
      exact Engine.get?_admitted (passes.anchors confined anchors).old found name

def Heap.flags : Heap :=
  { empty with
    frames := #[⟨.empty, none, ".", none⟩]
    arrays := #[#[.bool true, .nil, .bool true]] }

def Pattern.twice : Pattern := .array [.binding "x", .binding "y"] (some "x")

def Arm.willing : Arm :=
  ⟨.binding "x", some (.literal .unknown (.bool true)), .ident .unknown "x"⟩

theorem Heap.flags_unused : Heap.flags.Unused 0 :=
  ⟨⟨Nat.zero_lt_one, fun id _ found => by simp [flags, empty] at found⟩, fun _ => rfl⟩

theorem Heap.flags_closed : Heap.flags.Closed :=
  ((closed_empty.pushFrame rfl).closed.pushArray (by simp [Knows])).closed

/-- A name that stands for a part and then for a rest, and a `match` with a guard. -/
theorem match_structural_twice :
    (∃ next, Matching.bind 0 .twice (.array 0) Heap.flags = (.ok true, next) ∧
      next.arrays.toList = [#[.bool true, .nil, .bool true], #[.bool true]] ∧
      next.localVariable? 0 "x" = some ⟨.array 1, false⟩ ∧
      next.localVariable? 0 "y" = some ⟨.nil, false⟩) ∧
    (Engine.ofDepth none 3).Decided (.text "a") 0 [.willing] (.ofHeap .flags)
      ((Engine.ofDepth none 3).evalForm
        (.match_ .unknown (.literal .unknown (.text "a")) [.willing]) 0 (.ofHeap .flags)) := by
  constructor
  · have whole : Heap.flags.Allocates (.array 0) := Heap.flags_closed.allocates Nat.zero_lt_one
    have split : (Heap.flags.array 0).toList = [.bool true, .nil] ++ [.bool true] := rfl
    have fit : Matching.Fits Heap.flags .twice (.array 0)
        [("x", .part (.bool true)), ("y", .part .nil), ("x", .rest [.bool true])] :=
      .arrayRest split (.cons (.binding "x" _) (.cons (.binding "y" _) .nil))
    obtain ⟨answer, next, ended, -, iff, left⟩ :=
      (match_structural 0 (.array 0)).1 .flags .twice Heap.flags_unused whole
    obtain ⟨-, arrays, stored⟩ := left _ fit
    rw [iff.mpr ⟨_, fit⟩] at ended
    exact ⟨next, ended, arrays, stored "x", stored "y"⟩
  · exact ((match_structural 0 (.text "a")).2 none 3 .unknown _ [.willing] (.ofHeap .flags)
      (.ofHeap .flags) Heap.flags_closed Nat.zero_lt_one (by rfl)).1

end Rill

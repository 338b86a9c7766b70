import Rill.Proofs.Frames
import Rill.Proofs.Limiter

/-!
# Calls that wait for arguments

A partial call fills its open slots from left to right with whatever it is called with. However the
arguments are split into batches, the callee is called once, when no slot is open any more, with the
first arguments of all batches together. Up to then nothing is called: every batch makes a partial
call of its own, and those before it stay as they are.
-/

set_option autoImplicit false

namespace Rill

namespace Native

/-! ## Slots -/

def openSlots (slots : List (Option Value)) : Nat := slots.countP Option.isNone

/-- The arguments of a call that slots and supplied values make: a filled slot gives its own value,
and the open ones give the first supplied values in order. -/
structure Placed (slots : List (Option Value)) (supplied values : List Value) : Prop where
  length : values.length = slots.length
  filled (place : Nat) (value : Value) (own : slots[place]? = some (some value)) :
    values[place]? = some value
  open_ (place : Nat) (free : slots[place]? = some none) :
    values[place]? = supplied[openSlots (slots.take place)]?

theorem fill_nil (slots : List (Option Value)) : fill slots [] = slots := by
  induction slots with
  | nil => rfl
  | cons slot slots ih => cases slot <;> rw [fill, ih]

theorem fill_fill (slots : List (Option Value)) (first second : List Value) :
    fill (fill slots first) second = fill slots (first ++ second) := by
  induction slots generalizing first with
  | nil => rfl
  | cons slot slots ih =>
      cases slot with
      | some value => rw [fill, fill, fill, ih]
      | none =>
          cases first with
          | nil => rw [fill_nil, List.nil_append]
          | cons arg first => rw [fill, fill, List.cons_append, fill, ih]

theorem openSlots_fill (slots : List (Option Value)) (args : List Value) :
    openSlots (fill slots args) = openSlots slots - args.length := by
  induction slots generalizing args with
  | nil => simp [fill, openSlots]
  | cons slot slots ih =>
      cases slot with
      | some value => simpa [fill, openSlots] using ih args
      | none =>
          cases args with
          | nil => simp [fill_nil]
          | cons arg args => simpa [fill, openSlots] using ih args

/-- As long as a slot is open the call waits. -/
theorem filled?_open {slots : List (Option Value)} (waiting : 0 < openSlots slots) :
    filled? slots = none := by
  induction slots with
  | nil => exact absurd waiting (Nat.lt_irrefl 0)
  | cons slot slots ih =>
      cases slot with
      | none => rfl
      | some value =>
          have later : 0 < openSlots slots := by simpa [openSlots] using waiting
          have waits : slots.mapM id = none := ih later
          simp [filled?, waits]

namespace Placed

variable {slots : List (Option Value)} {supplied values : List Value}

theorem own (placed : Placed slots supplied values) (value : Value) :
    Placed (some value :: slots) supplied (value :: values) where
  length := by rw [List.length_cons, placed.length, List.length_cons]
  filled place other own := by
    cases place with
    | zero => simpa using own
    | succ place => exact placed.filled place other own
  open_ place free := by
    cases place with
    | zero => cases free
    | succ place => simpa [openSlots] using placed.open_ place free

theorem next (placed : Placed slots supplied values) (arg : Value) :
    Placed (none :: slots) (arg :: supplied) (arg :: values) where
  length := by rw [List.length_cons, placed.length, List.length_cons]
  filled place other own := by
    cases place with
    | zero => cases own
    | succ place => exact placed.filled place other own
  open_ place free := by
    cases place with
    | zero => simp [openSlots]
    | succ place => simpa [openSlots] using placed.open_ place free

end Placed

theorem filled?_placed (slots : List (Option Value)) (args : List Value)
    (enough : openSlots slots ≤ args.length) :
    ∃ values, filled? (fill slots args) = some values ∧ Placed slots args values := by
  induction slots generalizing args with
  | nil => exact ⟨[], rfl, rfl, by simp, by simp⟩
  | cons slot slots ih =>
      cases slot with
      | some value =>
          obtain ⟨values, filled, placed⟩ := ih args (by simpa [openSlots] using enough)
          have filled : (fill slots args).mapM id = some values := filled
          exact ⟨value :: values, by simp [fill, filled?, filled], placed.own value⟩
      | none =>
          cases args with
          | nil => simp [openSlots] at enough
          | cons arg args =>
              obtain ⟨values, filled, placed⟩ := ih args (by simpa [openSlots] using enough)
              have filled : (fill slots args).mapM id = some values := filled
              exact ⟨arg :: values, by simp [fill, filled?, filled], placed.next arg⟩

/-- The partial calls that batches of too few arguments make, one after another. -/
def waiting (callee : Value) (pos : Position) : List (Option Value) → List (List Value) → List Native
  | _, [] => []
  | slots, args :: batches =>
      .partialCall callee (fill slots args) pos :: waiting callee pos (fill slots args) batches

end Native

namespace Limiter

/-- A call is granted: the limiter is switched off, or nothing stands against a call. -/
def Grants (limiter : Limiter) : Prop :=
  limiter.limits.enabled = true → limiter.Uninterrupted ∧ limiter.depth < limiter.limits.maxDepth

theorem Grants.enter {limiter : Limiter} (grants : limiter.Grants) (name : String) (pos : Position) :
    limiter.enter name pos
      = .ok () { limiter with calls := name :: limiter.calls, clock := limiter.clockAfter } :=
  enter_ok_iff.mpr ⟨grants, rfl⟩

theorem refused {limiter : Limiter} (shut : ¬ limiter.Grants) (name : String) (pos : Position) :
    ∃ breach next, limiter.enter name pos = .error breach next ∧ limiter.Aged next := by
  cases asked : limiter.enter name pos with
  | error breach next => exact ⟨breach, next, rfl, aged_of_enter_error asked⟩
  | ok granted next => exact absurd (enter_ok_iff.mp asked).1 shut

/-- The limiter after so many calls that were granted and left again. -/
def past (limiter : Limiter) : Nat → Limiter
  | 0 => limiter
  | calls + 1 => past { limiter with clock := limiter.clockAfter } calls

end Limiter

namespace State

/-- The state with further functions on its heap that are not written in the language. -/
def withNatives (state : State) (natives : List Native) : State :=
  { state with heap := { state.heap with natives := state.heap.natives ++ natives.toArray } }

theorem withNatives_nil (state : State) : state.withNatives [] = state := by
  simp [withNatives]

/-- The state after batches of too few arguments, which leaves their partial calls on the heap and has
seen a call for each of them. -/
def supplied (state : State) (callee : Value) (slots : List (Option Value)) (pos : Position)
    (batches : List (List Value × Position)) : State :=
  { state.withNatives (Native.waiting callee pos slots (batches.map Prod.fst)) with
    limiter := state.limiter.past batches.length }

theorem supplied_nil (state : State) (callee : Value) (slots : List (Option Value)) (pos : Position) :
    state.supplied callee slots pos [] = state := state.withNatives_nil

theorem supplied_cons (state : State) (callee : Value) (slots : List (Option Value)) (pos : Position)
    (batch : List Value × Position) (batches : List (List Value × Position)) :
    (state.supplied callee slots pos [batch]).supplied callee (Native.fill slots batch.1) pos batches
      = state.supplied callee slots pos (batch :: batches) := by
  simp [supplied, withNatives, Native.waiting, Limiter.past]

end State

/-- A value is a partial call that waits for the arguments of its open slots. -/
def Heap.Waits (heap : Heap) (callee : Value) (slots : List (Option Value)) (pos : Position)
    (value : Value) : Prop :=
  ∃ id, value = .native id ∧ heap.natives[id]? = some (.partialCall callee slots pos)

theorem State.waits_supplied (state : State) (callee : Value) (slots : List (Option Value))
    (pos : Position) (batch : List Value × Position) :
    (state.supplied callee slots pos [batch]).heap.Waits callee (Native.fill slots batch.1) pos
      (.native state.heap.natives.size) :=
  ⟨_, rfl, by simp [supplied, withNatives, Native.waiting]⟩

namespace Engine

variable (engine : Engine)

/-- Call a value with the first batch of arguments, the result with the next one, and so on. -/
def callInTurn : Value → List (List Value × Position) → Exec Value
  | callee, [] => pure callee
  | callee, (args, pos) :: batches => do
      let next ← engine.call callee args pos
      callInTurn next batches

section Step

variable {engine : Engine} {state : State} {callee waiting : Value} {slots : List (Option Value)}
  {at_ : Position} (waits : state.heap.Waits callee slots at_ waiting)
include waits

theorem callValue_partial (args : List Value) (pos : Position) :
    engine.callValue waiting args pos state
      = Exec.locate pos (Exec.called "partial" pos
          (engine.callNative (.partialCall callee slots at_) args)) state := by
  obtain ⟨id, rfl, found⟩ := waits
  rw [callValue, Exec.bind_eq, Exec.read, found]
  rfl

theorem callValue_few (grants : state.limiter.Grants) {args : List Value}
    (few : args.length < Native.openSlots slots) (pos : Position) :
    engine.callValue waiting args pos state
      = .done (.native state.heap.natives.size) (state.supplied callee slots at_ [(args, pos)]) := by
  have open_ : 0 < Native.openSlots (Native.fill slots args) := by
    rw [Native.openSlots_fill]
    omega
  rw [callValue_partial waits, Exec.locate_eq, Exec.called_eq, grants.enter, callNative]
  simp only [Native.filled?_open open_, Exec.store_eq, Store.newNative, Outcome.mapState,
    Outcome.mapFault, Limiter.leave, List.tail_cons, State.supplied, State.withNatives,
    Array.push_eq_append]
  rfl

theorem callValue_refused (shut : ¬ state.limiter.Grants) (args : List Value) (pos : Position) :
    ∃ fault breach limiter, fault.cause = .limit breach ∧ state.limiter.Aged limiter
      ∧ engine.callValue waiting args pos state = .fault fault { state with limiter } := by
  obtain ⟨breach, limiter, refused, aged⟩ := Limiter.refused shut "partial" pos
  rw [callValue_partial waits, Exec.locate_eq, Exec.called_eq, refused]
  exact ⟨_, breach, limiter, Fault.locate_cause .., aged, rfl⟩

end Step

end Engine

namespace Heap

/-- Functions that are not written in the language and were there are still there. -/
def NativesLast (heap next : Heap) : Prop :=
  ∀ (id : Nat) (native : Native), heap.natives[id]? = some native → next.natives[id]? = some native

theorem NativesLast.refl (heap : Heap) : heap.NativesLast heap := fun _ _ found => found

theorem NativesLast.trans {before between after : Heap} (first : before.NativesLast between)
    (second : between.NativesLast after) : before.NativesLast after :=
  fun id native found => second id native (first id native found)

end Heap

theorem Store.Ordinary.nativesLast {permits : Permits} {α : Type} {x : Store α}
    (ordinary : Store.Ordinary permits x) (heap : Heap) : heap.NativesLast (x heap).2 := by
  induction ordinary generalizing heap with
  | bind first second ihFirst ihSecond =>
      have begun := ihFirst heap
      exact Store.bind_leaves begun fun a => begun.trans (ihSecond a _)
  | newNative native => exact fun id _ found => Heap.getElem?_push_old found native
  | write op =>
      rcases op.heap_eq heap with same | ⟨other, name, variable_, -, bound⟩
      · rw [same]
        exact .refl heap
      · rw [bound]
        exact fun _ _ found => found
  | _ => exact fun _ _ found => found

theorem Heap.NativesLast.kept :
    KeptThroughout (.anyCode True) fun state next => state.heap.NativesLast next.heap where
  anyCode := .of_anyCode True
  holds heap := heap.holds_anyCode trivial
  refl state := .refl state.heap
  trans := trans
  store ordinary state := ordinary.nativesLast state.heap
  child _ _ _ inner := inner ⟨⟨trivial, trivial⟩, trivial⟩
  print _ _ _ := .refl _
  tick _ := .refl _
  aged _ := .refl _
  keepModule left := by
    cases left
    exact .refl _
  called _ inner := inner
  loading inner := inner
  fresh _ _ _ _ inner := inner ⟨⟨trivial, trivial⟩, trivial⟩
  during _ _ _ _ inner := inner

namespace Engine

/-- Whatever evaluation is asked for, partial calls that were there can be called afterwards. -/
theorem fulfil_nativesLast (loader : Option Loader) (depth : Nat) {α : Type} (request : Request α)
    {state next : State}
    (left : ((ofDepth loader depth).fulfil request state).state? = some next) :
    state.heap.NativesLast next.heap := by
  have natives := Heap.NativesLast.kept.ofDepth (fun _ => trivial) (fun _ _ => .refl _) loader depth
  exact Heap.NativesLast.kept.uniform.fulfil natives request state next left

theorem callInTurn_append (engine : Engine) (callee : Value)
    (first second : List (List Value × Position)) :
    engine.callInTurn callee (first ++ second) = (do
      let next ← engine.callInTurn callee first
      engine.callInTurn next second) := by
  induction first generalizing callee with
  | nil => rfl
  | cons batch first ih =>
      obtain ⟨args, pos⟩ := batch
      rw [List.cons_append, callInTurn, callInTurn, Exec.bind_assoc]
      simp only [ih]

theorem callInTurn_single (engine : Engine) (callee : Value) (args : List Value) (pos : Position)
    (state : State) : engine.callInTurn callee [(args, pos)] state = engine.call callee args pos state := by
  rw [callInTurn, Exec.bind_eq]
  cases engine.call callee args pos state <;> rfl

theorem call_succ (loader : Option Loader) (depth : Nat) (callee : Value) (args : List Value)
    (pos : Position) :
    (ofDepth loader (depth + 1)).call callee args pos = (ofDepth loader depth).callValue callee args pos := by
  rw [call, perform_succ]
  rfl

section InTurn

variable (loader : Option Loader) (depth : Nat) {callee : Value} {at_ : Position}

theorem callInTurn_few {state : State} {waiting : Value} {slots : List (Option Value)}
    (waits : state.heap.Waits callee slots at_ waiting) {batches : List (List Value × Position)}
    (grants : ∀ earlier < batches.length, (state.limiter.past earlier).Grants)
    (few : (batches.flatMap Prod.fst).length < Native.openSlots slots) :
    ∃ last, (ofDepth loader (depth + 1)).callInTurn waiting batches state
        = .done last (state.supplied callee slots at_ batches)
      ∧ (state.supplied callee slots at_ batches).heap.Waits callee
          (Native.fill slots (batches.flatMap Prod.fst)) at_ last := by
  induction batches generalizing state waiting slots with
  | nil =>
      rw [state.supplied_nil, List.flatMap_nil, Native.fill_nil]
      exact ⟨waiting, rfl, waits⟩
  | cons batch batches ih =>
      obtain ⟨args, pos⟩ := batch
      have total : args.length + (batches.flatMap Prod.fst).length < Native.openSlots slots := by
        simpa using few
      have short : args.length < Native.openSlots slots := by omega
      have later : (batches.flatMap Prod.fst).length < Native.openSlots (Native.fill slots args) := by
        rw [Native.openSlots_fill]
        omega
      have first : state.limiter.Grants := grants 0 (Nat.zero_lt_succ _)
      obtain ⟨last, run, there⟩ := ih (state.waits_supplied callee slots at_ (args, pos))
        (fun earlier before => grants (earlier + 1) (Nat.succ_lt_succ before)) later
      rw [State.supplied_cons] at run there
      rw [Native.fill_fill] at there
      refine ⟨last, ?_, there⟩
      rw [callInTurn, Exec.bind_eq, call_succ, callValue_few waits first short]
      exact run

/-- However the arguments are split into batches, calling a partial call with one batch after
another makes one call of its callee, as soon as no slot is open any more: the filled slots are in
place, the open ones hold the first arguments of all batches in order, and the rest is dropped. Each
batch before adds a partial call to the heap, the callee of the next batch, and changes nothing
else, and nothing is called for it, since it goes the same way on an engine of any depth. Only the
limiter can be in the way: the first batch that it refuses ends in that refusal, and nothing is called.
All partial calls are there afterwards and can be called with other arguments. -/
theorem callInTurn_partial {state : State} {waiting : Value} {slots : List (Option Value)}
    (waits : state.heap.Waits callee slots at_ waiting) {batches : List (List Value × Position)}
    {args : List Value} {pos : Position}
    (few : (batches.flatMap Prod.fst).length < Native.openSlots slots)
    (enough : Native.openSlots slots ≤ (batches.flatMap Prod.fst ++ args).length) :
    ∃ values, Native.Placed slots (batches.flatMap Prod.fst ++ args) values
      ∧ ((∀ earlier < batches.length, (state.limiter.past earlier).Grants) →
        (∀ before after, batches = before ++ after → ∃ last,
          (ofDepth loader (depth + 1)).callInTurn waiting before state
            = .done last (state.supplied callee slots at_ before)
          ∧ (state.supplied callee slots at_ before).heap.Waits callee
              (Native.fill slots (before.flatMap Prod.fst)) at_ last)
        ∧ (ofDepth loader (depth + 1)).callInTurn waiting (batches ++ [(args, pos)]) state
          = Exec.locate pos (Exec.called "partial" pos ((ofDepth loader depth).call callee values at_))
              (state.supplied callee slots at_ batches)
        ∧ ∀ next, ((ofDepth loader (depth + 1)).callInTurn waiting (batches ++ [(args, pos)])
            state).state? = some next →
          (state.supplied callee slots at_ batches).heap.NativesLast next.heap)
      ∧ ∀ before batch after, batches ++ [(args, pos)] = before ++ batch :: after →
        (∀ earlier < before.length, (state.limiter.past earlier).Grants) →
          ¬ (state.limiter.past before.length).Grants →
            ∃ fault breach limiter, fault.cause = .limit breach
              ∧ (state.limiter.past before.length).Aged limiter
              ∧ (ofDepth loader (depth + 1)).callInTurn waiting (batches ++ [(args, pos)]) state
                = .fault fault { state.supplied callee slots at_ before with limiter } := by
  have split_few {before after : List (List Value × Position)} (split : batches = before ++ after) :
      (before.flatMap Prod.fst).length < Native.openSlots slots := by
    refine Nat.lt_of_le_of_lt ?_ few
    rw [split, List.flatMap_append, List.length_append]
    exact Nat.le_add_right _ _
  obtain ⟨values, filled, placed⟩ := Native.filled?_placed slots _ enough
  refine ⟨values, placed, fun grants => ?_, fun before batch after split grants shut => ?_⟩
  · obtain ⟨last, run, there⟩ := callInTurn_few loader depth waits grants few
    have final : (ofDepth loader (depth + 1)).callInTurn waiting (batches ++ [(args, pos)]) state
        = (ofDepth loader (depth + 1)).call last args pos (state.supplied callee slots at_ batches) := by
      rw [callInTurn_append, Exec.bind_eq, run]
      simp only
      exact callInTurn_single ..
    refine ⟨fun before after split => ?_, ?_, fun next left => ?_⟩
    · refine callInTurn_few loader depth waits (fun earlier inside => grants earlier ?_) (split_few split)
      rw [split, List.length_append]
      exact Nat.lt_add_right _ inside
    · rw [final, call_succ, callValue_partial there, callNative, Native.fill_fill]
      simp only [filled]
    · rw [final] at left
      exact fulfil_nativesLast loader (depth + 1) (.call last args pos) left
  · -- What comes before the refused batch is a part of the batches that leave a slot open.
    have short : before.length ≤ batches.length := by
      have sizes := congrArg List.length split
      simp only [List.length_append, List.length_cons, List.length_nil] at sizes
      omega
    have within := List.prefix_of_prefix_length_le ⟨batch :: after, split.symm⟩
      (List.prefix_append batches [(args, pos)]) short
    obtain ⟨later, same⟩ := within
    obtain ⟨last, run, there⟩ := callInTurn_few loader depth waits grants (split_few same.symm)
    obtain ⟨first, from_⟩ := batch
    obtain ⟨fault, breach, limiter, cause, aged, refused⟩ := callValue_refused there shut first from_
    refine ⟨fault, breach, limiter, cause, aged, ?_⟩
    rw [split, callInTurn_append, Exec.bind_eq, run]
    simp only
    rw [callInTurn, Exec.bind_eq, call_succ, refused]

end InTurn

/-- A partial call with two open slots around nil, called with nothing, with one argument and with
two: the callee is called with the first two arguments around nil. -/
theorem callInTurn_partial_around :
    let state := State.ofHeap { Heap.empty with natives :=
      #[.echo "f", .partialCall (.native 0) [none, some .nil, none] ⟨1, 1⟩] }
    (ofDepth none 2).callInTurn (.native 1)
        ([([], ⟨2, 1⟩), ([.bool true], ⟨3, 1⟩)] ++ [([.text "b", .text "c"], ⟨4, 1⟩)]) state
      = Exec.locate ⟨4, 1⟩ (Exec.called "partial" ⟨4, 1⟩
          ((ofDepth none 1).call (.native 0) [.bool true, .nil, .text "b"] ⟨1, 1⟩))
        (state.supplied (.native 0) [none, some .nil, none] ⟨1, 1⟩
          [([], ⟨2, 1⟩), ([.bool true], ⟨3, 1⟩)]) := by
  intro state
  have waits : state.heap.Waits (.native 0) [none, some .nil, none] ⟨1, 1⟩ (.native 1) := ⟨1, rfl, rfl⟩
  have grants : ∀ earlier < 2, (state.limiter.past earlier).Grants := by
    intro earlier inside _
    match earlier with
    | 0 => exact ⟨⟨rfl, by decide⟩, by decide⟩
    | 1 => exact ⟨⟨rfl, by decide⟩, by decide⟩
  obtain ⟨values, placed, granted, -⟩ :=
    @callInTurn_partial none 1 (.native 0) ⟨1, 1⟩ state (.native 1) [none, some .nil, none] waits
      [([], ⟨2, 1⟩), ([.bool true], ⟨3, 1⟩)] [.text "b", .text "c"] ⟨4, 1⟩ (by decide) (by decide)
  have values_eq : values = [.bool true, .nil, .text "b"] := by
    refine List.ext_getElem? fun place => ?_
    match place with
    | 0 => exact placed.open_ 0 rfl
    | 1 => exact placed.filled 1 .nil rfl
    | 2 => exact placed.open_ 2 rfl
    | place + 3 =>
        have beyond : values.length ≤ place + 3 := by
          rw [placed.length]
          exact Nat.le_add_left _ _
        rw [List.getElem?_eq_none beyond]
        rfl
  rw [values_eq] at granted
  exact (granted grants).2.1

end Engine

end Rill

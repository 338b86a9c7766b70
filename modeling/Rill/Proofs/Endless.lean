import Rill.Proofs.CallGate

/-!
# Recursion that the limiter does not see

A blueprint whose first field starts from a new instance of the same blueprint makes instances
without end. No instance gets as far as its constructor, so the limiter is never asked: whatever
the budgets are, such a call is not refused at any depth but outruns every engine.
-/

set_option autoImplicit false

namespace Rill

namespace Heap

variable {heap next : Heap} {base env : FrameId}

theorem nearest?_congr {frames others : Array Frame} (test : Frame → Bool) (env : FrameId)
    (same : ∀ older, older ≤ env → others[older]? = frames[older]?) :
    nearest? others test env = nearest? frames test env := by
  induction env using Nat.strongRecOn with
  | ind env ih =>
      rw [nearest?, nearest?.eq_def frames, same env (Nat.le_refl _)]
      cases frames[env]? with
      | none => rfl
      | some frame =>
          cases outer : frame.parent with
          | none => simp [outer]
          | some parent =>
              by_cases older : parent < env
              · have outward := ih parent older fun further bound =>
                  same further (Nat.le_trans bound (Nat.le_of_lt older))
                simp only [outer, dif_pos older, outward]
              · simp only [outer, dif_neg older]

theorem nearest?_le {frames : Array Frame} {test : Frame → Bool} {found : FrameId}
    (reached : nearest? frames test env = some found) : found ≤ env := by
  induction env using Nat.strongRecOn with
  | ind env ih =>
      rw [nearest?] at reached
      cases here : frames[env]? with
      | none => simp [here] at reached
      | some frame =>
          rw [here] at reached
          dsimp only at reached
          by_cases passed : test frame = true
          · rw [if_pos passed] at reached
            cases reached
            exact Nat.le_refl _
          · rw [if_neg passed] at reached
            cases outer : frame.parent with
            | none => simp [outer] at reached
            | some parent =>
                by_cases older : parent < env
                · simp only [outer, dif_pos older] at reached
                  exact Nat.le_trans (ih parent older reached) (Nat.le_of_lt older)
                · simp [outer, older] at reached

/-- Names are found where they were as long as old frames are left alone. -/
theorem Extends.get?_eq (extended : heap.Extends base next) (old : env < base) (name : String) :
    next.get? env name = heap.get? env name := by
  have outward : next.holder? env name = heap.holder? env name :=
    nearest?_congr _ env fun older bound => extended.frames older (Nat.lt_of_le_of_lt bound old)
  unfold Heap.get? lookup?
  rw [outward]
  cases reached : heap.holder? env name with
  | none => rfl
  | some found =>
      have bound := Nat.lt_of_le_of_lt (nearest?_le reached) old
      simp only [localVariable?, extended.frames found bound]

theorem get?_child (heap : Heap) (old : env < heap.frames.size) (name : String) :
    (Store.child env heap).2.get? heap.frames.size name = heap.get? env name := by
  have extended : heap.Extends heap.frames.size (Store.child env heap).2 :=
    .push heap _ (Nat.le_refl _)
  have outward : (Store.child env heap).2.holder? heap.frames.size name
      = (Store.child env heap).2.holder? env name := by
    rw [holder?, nearest?]
    simp [Store.child, old, Fields.contains, Fields.get?, Fields.empty, holder?]
  rw [← extended.get?_eq old]
  simp only [Heap.get?, lookup?, outward]

/-- A blueprint that begins every instance by making another one, under its own name. -/
structure Endless (heap : Heap) (id : BlueprintId) (blueprint : Blueprint) (name : String) :
    Prop where
  found : heap.blueprints[id]? = some blueprint
  old : blueprint.env < heap.frames.size
  named : heap.get? blueprint.env name = some (.blueprint id)
  again : ∃ field pos at_ rest,
    blueprint.fields.entries = (field, some (.call pos (.ident at_ name) [])) :: rest

theorem Endless.child {id : BlueprintId} {blueprint : Blueprint} {name : String}
    (endless : heap.Endless id blueprint name) (env : FrameId) :
    (Store.child env heap).2.Endless id blueprint name where
  found := endless.found
  old := by
    have grown : heap.frames.size ≤ (Store.child env heap).2.frames.size := by simp
    exact Nat.lt_of_lt_of_le endless.old grown
  named := by
    have extended : heap.Extends heap.frames.size (Store.child env heap).2 :=
      .push heap _ (Nat.le_refl _)
    rw [extended.get?_eq endless.old]
    exact endless.named
  again := endless.again

end Heap

namespace Engine

variable (loader : Option Loader) {state : State} {name : String}

theorem eval_ident (depth : Nat) (at_ : Position) {env : FrameId} {value : Value}
    (bound : state.heap.get? env name = some value) :
    (ofDepth loader (depth + 1)).eval (.ident at_ name) env state = .done value state := by
  have read : Store.get env name state.heap = (.ok value, state.heap) := by
    unfold Store.get
    rw [Store.bind_eq]
    simp only [Store.read, bound]
    rfl
  rw [Engine.eval, perform_succ]
  change Exec.locate at_ (liftM (Store.get env name)) state = _
  simp only [Exec.locate, Exec.store_eq, read]

/-- A call of what a name is bound to, without arguments, outruns an engine if every engine of less
depth is outrun by the call. -/
theorem evalCall_spent (depth : Nat) (pos at_ : Position) {env : FrameId} {value : Value}
    (bound : state.heap.get? env name = some value)
    (outrun : ∀ less, less < depth → (ofDepth loader less).call value [] pos state = .spent) :
    (ofDepth loader depth).eval (.call pos (.ident at_ name) []) env state = .spent := by
  cases depth with
  | zero => rfl
  | succ depth =>
      have called : (ofDepth loader depth).evalCall (.ident at_ name) [] env pos state
          = .spent := by
        simp only [evalCall, Exec.bind_eq]
        cases depth with
        | zero => rfl
        | succ depth =>
            rw [eval_ident loader depth at_ bound]
            exact outrun (depth + 1) (Nat.lt_succ_self _)
      rw [Engine.eval, perform_succ]
      change Exec.locate pos ((ofDepth loader depth).evalCall (.ident at_ name) [] env pos) state
        = _
      simp only [Exec.locate, called]

theorem furnish_spent (engine : Engine) {id : BlueprintId} {blueprint : Blueprint} {field : String}
    {start : Expr} {rest : List (String × Option Expr)}
    (first : blueprint.fields.entries = (field, some start) :: rest)
    (outrun : engine.eval start state.heap.frames.size
      { state with heap := (Store.child blueprint.env state.heap).2 } = .spent) :
    engine.furnish id blueprint state = .spent := by
  let entered : State := { state with heap := (Store.child blueprint.env state.heap).2 }
  have fields : engine.defineFields state.heap.frames.size blueprint.fields.entries entered
      = .spent := by
    rw [first]
    simp only [defineFields, evalOption, Exec.bind_eq, entered, outrun]
  unfold furnish
  rw [Exec.bind_eq]
  change (engine.defineFields state.heap.frames.size blueprint.fields.entries >>= _) entered = _
  rw [Exec.bind_eq, fields]

/-- However deep an engine is and whatever the limiter allows, an endless blueprint outruns it. -/
theorem instances_endless (depth : Nat) {id : BlueprintId} {blueprint : Blueprint}
    (args : List Value) (pos : Position) (endless : state.heap.Endless id blueprint name) :
    (ofDepth loader depth).call (.blueprint id) args pos state = .spent := by
  induction depth using Nat.strongRecOn generalizing state args pos with
  | ind depth ih =>
      cases depth with
      | zero => rfl
      | succ depth =>
          obtain ⟨field, inner, at_, rest, first⟩ := endless.again
          let entered : State := { state with heap := (Store.child blueprint.env state.heap).2 }
          have seen : entered.heap.get? state.heap.frames.size name = some (.blueprint id) := by
            rw [Heap.get?_child state.heap endless.old]
            exact endless.named
          have outrun : (ofDepth loader depth).eval (.call inner (.ident at_ name) [])
              state.heap.frames.size entered = .spent := by
            apply evalCall_spent loader depth inner at_ seen
            intro less bound
            exact ih less (Nat.lt_succ_of_lt bound) [] inner (endless.child blueprint.env)
          rw [Engine.call, perform_succ]
          change (ofDepth loader depth).instantiate id args pos state = _
          rw [instantiate_eq _ endless.found, Exec.bind_eq, furnish_spent _ first outrun]

/-- The heap after a class `A` with a field that starts from `A()`. -/
example :
    let again : Expr := .call .unknown (.ident .unknown "A") []
    let blueprint : Blueprint := ⟨"A", none, ⟨[("b", some again)]⟩, .empty, 0⟩
    let frame : Frame := ⟨⟨[("A", ⟨.blueprint 0, false⟩)]⟩, none, ".", none⟩
    { Heap.empty with frames := #[frame], blueprints := #[blueprint] }.Endless 0 blueprint "A" where
  found := rfl
  old := Nat.zero_lt_one
  named := by
    simp [Heap.get?, Heap.lookup?, Heap.holder?, Heap.nearest?, Fields.contains, Fields.get?,
      Heap.localVariable?]
  again := ⟨_, _, _, _, rfl⟩

end Engine

end Rill

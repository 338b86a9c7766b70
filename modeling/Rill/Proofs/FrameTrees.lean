import Rill.Proofs.Bindings
import Rill.Proofs.Outward

/-!
# Trees of frames

Frames come from a root by `child`, and what they bind from `set`, `setConst`, `define` and
`update`. A rule for every way in which such a step can end (`Heap.Does`) says which binding
changes, and when the step is refused and why, in terms of the bindings of single frames and of the
frames on the way outward. All steps on all trees follow the rules, and the rules leave no choice
(`frame_steps_exact`).
-/

set_option autoImplicit false

namespace Rill

/-- A step on a frame of a tree. -/
inductive FrameStep where
  | child (env : FrameId)
  | set (env : FrameId) (name : String) (value : Value)
  | setConst (env : FrameId) (name : String) (value : Value)
  | define (env : FrameId) (name : String) (value : Value)
  | update (env : FrameId) (name : String) (value : Value)

namespace FrameStep

def env : FrameStep → FrameId
  | child env | set env _ _ | setConst env _ _ | define env _ _ | update env _ _ => env

def run : FrameStep → Store Unit
  | child env => do let _ ← Store.child env
  | set env name value => Store.set env name value
  | setConst env name value => Store.setConst env name value
  | define env name value => Store.define env name value
  | update env name value => Store.update env name value

end FrameStep

namespace Heap

variable {heap next : Heap} {env : FrameId} {name : String}

/-! ## Ways outward -/

/-- The frames from a frame outward, itself first and a root last. -/
inductive Chain (heap : Heap) : FrameId → List FrameId → Prop where
  | root {env : FrameId} {frame : Frame} (found : heap.frames[env]? = some frame)
      (top : frame.parent = none) : Chain heap env [env]
  | outward {env parent : FrameId} {frame : Frame} {chain : List FrameId}
      (found : heap.frames[env]? = some frame) (around : frame.parent = some parent)
      (rest : Chain heap parent chain) : Chain heap env (env :: chain)

def Rooted (heap : Heap) : Prop :=
  ∀ (env : FrameId) (frame : Frame), heap.frames[env]? = some frame →
    ∀ parent, frame.parent = some parent → parent < env

namespace Chain

variable {chain : List FrameId}

theorem unique (way : heap.Chain env chain) :
    ∀ {other : List FrameId}, heap.Chain env other → other = chain := by
  induction way with
  | root found top =>
      intro other second
      cases second with
      | root => rfl
      | outward again around =>
          cases found.symm.trans again
          cases top.symm.trans around
  | outward found around rest ih =>
      intro other second
      cases second with
      | root again top =>
          cases found.symm.trans again
          cases top.symm.trans around
      | outward again outer more =>
          cases found.symm.trans again
          cases around.symm.trans outer
          rw [ih more]

theorem stays (stays : ∀ env, StaysAt env heap next) (way : heap.Chain env chain) :
    next.Chain env chain := by
  induction way with
  | root found top =>
      obtain ⟨later, there, alike⟩ := stays _ _ found
      exact .root there (alike.parent.trans top)
  | outward found around rest ih =>
      obtain ⟨later, there, alike⟩ := stays _ _ found
      exact .outward there (alike.parent.trans around) ih

theorem nearest?_eq (rooted : heap.Rooted) (test : Frame → Bool) (way : heap.Chain env chain) :
    nearest? heap.frames test env = chain.find? fun place => heap.frames[place]?.any test := by
  induction way with
  | @root env frame found top =>
      rw [nearest?, found]
      by_cases passes : test frame = true <;> simp [found, top, passes]
  | @outward env parent frame chain found around rest ih =>
      by_cases passes : test frame = true
      · rw [nearest?_here found passes]
        simp [found, passes]
      · rw [nearest?_outward found around (rooted env frame found parent around)
          (Bool.not_eq_true _ ▸ passes), ih]
        simp [found, passes]

theorem holder?_eq (rooted : heap.Rooted) (way : heap.Chain env chain) (name : String) :
    heap.holder? env name = chain.find? fun place => (heap.localVariable? place name).isSome := by
  rw [holder?, way.nearest?_eq rooted]
  congr 1
  funext place
  rw [localVariable?]
  cases heap.frames[place]? <;> rfl

end Chain

namespace Rooted

variable (rooted : heap.Rooted)
include rooted

theorem chain (old : env < heap.frames.size) : ∃ chain, heap.Chain env chain := by
  induction env using Nat.strongRecOn with
  | ind env ih =>
      have found := Array.getElem?_eq_getElem old
      cases around : heap.frames[env].parent with
      | none => exact ⟨[env], .root found around⟩
      | some parent =>
          have older := rooted env _ found parent around
          obtain ⟨chain, way⟩ := ih parent older (Nat.lt_trans older old)
          exact ⟨env :: chain, .outward found around way⟩

/-- The ways outward stay as long as all frames stay where they were. -/
theorem chain_iff (stays : ∀ env, StaysAt env heap next) (old : env < heap.frames.size)
    (chain : List FrameId) : next.Chain env chain ↔ heap.Chain env chain := by
  refine ⟨fun way => ?_, .stays stays⟩
  obtain ⟨other, before⟩ := rooted.chain old
  rwa [(before.stays stays).unique way]

end Rooted

/-- Of the frames on the way outward that bind a name, the nearest one and what the name stands for
there. -/
def Nearest (heap : Heap) (env : FrameId) (name : String) (holder : FrameId)
    (variable_ : Variable) : Prop :=
  ∃ inner outer, heap.Chain env (inner ++ holder :: outer) ∧
    (∀ place ∈ inner, heap.localVariable? place name = none) ∧
    heap.localVariable? holder name = some variable_

namespace Nearest

variable {holder other : FrameId} {variable_ found : Variable}

theorem bound {chain : List FrameId} (nearest : heap.Nearest env name holder variable_)
    (way : heap.Chain env chain) : ∃ place ∈ chain, heap.localVariable? place name ≠ none := by
  obtain ⟨inner, outer, outward, -, held⟩ := nearest
  rw [outward.unique way]
  exact ⟨holder, by simp, by simp [held]⟩

theorem holder?_eq (rooted : heap.Rooted) (nearest : heap.Nearest env name holder variable_) :
    heap.holder? env name = some holder := by
  obtain ⟨inner, outer, way, free, held⟩ := nearest
  rw [way.holder?_eq rooted, List.find?_eq_some_iff_append]
  exact ⟨by simp [held], inner, outer, rfl, fun place member => by simp [free place member]⟩

theorem of_holder? (rooted : heap.Rooted) {chain : List FrameId} (way : heap.Chain env chain)
    (found : heap.holder? env name = some holder) :
    ∃ variable_, heap.Nearest env name holder variable_ := by
  rw [way.holder?_eq rooted, List.find?_eq_some_iff_append] at found
  obtain ⟨bound, inner, outer, rfl, free⟩ := found
  obtain ⟨variable_, held⟩ := Option.isSome_iff_exists.mp bound
  exact ⟨variable_, inner, outer, way, by simpa using free, held⟩

theorem unique (rooted : heap.Rooted) (nearest : heap.Nearest env name holder variable_)
    (second : heap.Nearest env name other found) : found = variable_ := by
  have same := (nearest.holder?_eq rooted).symm.trans (second.holder?_eq rooted)
  cases Option.some.inj same
  obtain ⟨-, -, -, -, held⟩ := nearest
  obtain ⟨-, -, -, -, again⟩ := second
  exact Option.some.inj (again.symm.trans held)

end Nearest

theorem Rooted.get?_iff (rooted : heap.Rooted) (old : env < heap.frames.size) (name : String)
    (value : Value) : heap.get? env name = some value ↔
      ∃ holder constant, heap.Nearest env name holder ⟨value, constant⟩ := by
  rw [Heap.get?, lookup?]
  constructor
  · intro read
    obtain ⟨chain, way⟩ := rooted.chain old
    cases found : heap.holder? env name with
    | none => simp [found] at read
    | some holder =>
        obtain ⟨variable_, nearest⟩ := Nearest.of_holder? rooted way found
        obtain ⟨inner, outer, way, free, held⟩ := nearest
        rw [found] at read
        simp only [held, Option.map_some, Option.some.injEq] at read
        cases read
        exact ⟨holder, variable_.constant, inner, outer, way, free, held⟩
  · rintro ⟨holder, constant, nearest⟩
    rw [nearest.holder?_eq rooted]
    obtain ⟨-, -, -, -, held⟩ := nearest
    simp only [held, Option.map_some]

/-! ## What a step does -/

/-- One name comes to stand for something in one frame. -/
structure Binds (heap : Heap) (env : FrameId) (name : String) (variable_ : Variable)
    (next : Heap) : Prop where
  bindings (place : FrameId) (key : String) : next.localVariable? place key =
    if place = env ∧ key = name then some variable_ else heap.localVariable? place key
  chains (place : FrameId) (old : place < heap.frames.size) (chain : List FrameId) :
    next.Chain place chain ↔ heap.Chain place chain

/-- A frame without bindings comes to hang off another one. -/
structure Hangs (heap : Heap) (env : FrameId) (next : Heap) : Prop where
  bindings (place : FrameId) (key : String) :
    next.localVariable? place key = heap.localVariable? place key
  outward (chain : List FrameId) :
    next.Chain heap.frames.size (heap.frames.size :: chain) ↔ heap.Chain env chain
  chains (place : FrameId) (old : place < heap.frames.size) (chain : List FrameId) :
    next.Chain place chain ↔ heap.Chain place chain

/-- The ways in which steps end. -/
inductive Does (heap : Heap) : FrameStep → Except Cause Unit → Heap → Prop where
  | child {env : FrameId} {next : Heap} (made : heap.Hangs env next) :
      Does heap (.child env) (.ok ()) next
  | set {env : FrameId} {name : String} {value : Value} {next : Heap}
      (free : ∀ old, heap.localVariable? env name ≠ some ⟨old, true⟩)
      (bound : heap.Binds env name ⟨value, false⟩ next) :
      Does heap (.set env name value) (.ok ()) next
  | setRefused {env : FrameId} {name : String} {value old : Value}
      (held : heap.localVariable? env name = some ⟨old, true⟩) :
      Does heap (.set env name value) (.error (.declaredTwice name)) heap
  | setConst {env : FrameId} {name : String} {value : Value} {next : Heap}
      (free : heap.localVariable? env name = none)
      (bound : heap.Binds env name ⟨value, true⟩ next) :
      Does heap (.setConst env name value) (.ok ()) next
  | setConstRefused {env : FrameId} {name : String} {value : Value} {old : Variable}
      (held : heap.localVariable? env name = some old) :
      Does heap (.setConst env name value) (.error (.declaredTwice name)) heap
  | define {env : FrameId} {name : String} {value : Value} {next : Heap}
      (bound : heap.Binds env name ⟨value, false⟩ next) :
      Does heap (.define env name value) (.ok ()) next
  | update {env holder : FrameId} {name : String} {value old : Value} {next : Heap}
      (nearest : heap.Nearest env name holder ⟨old, false⟩)
      (bound : heap.Binds holder name ⟨value, false⟩ next) :
      Does heap (.update env name value) (.ok ()) next
  | updateRefused {env holder : FrameId} {name : String} {value old : Value}
      (nearest : heap.Nearest env name holder ⟨old, true⟩) :
      Does heap (.update env name value) (.error (.constant name)) heap
  | updateUndeclared {env : FrameId} {name : String} {value : Value} {chain : List FrameId}
      (way : heap.Chain env chain)
      (free : ∀ place ∈ chain, heap.localVariable? place name = none) :
      Does heap (.update env name value) (.error (.undeclared name)) heap

namespace Does

variable {step : FrameStep} {result other : Except Cause Unit} {last : Heap} {value : Value}

theorem unique (rooted : heap.Rooted) (does : heap.Does step result next)
    (second : heap.Does step other last) : other = result := by
  cases does with
  | child => cases second with | child => rfl
  | set free =>
      cases second with
      | set => rfl
      | setRefused held => exact absurd held (free _)
  | setRefused held =>
      cases second with
      | set free => exact absurd held (free _)
      | setRefused => rfl
  | setConst free =>
      cases second with
      | setConst => rfl
      | setConstRefused held => cases free.symm.trans held
  | setConstRefused held =>
      cases second with
      | setConst free => cases free.symm.trans held
      | setConstRefused => rfl
  | define => cases second with | define => rfl
  | update nearest =>
      cases second with
      | update => rfl
      | updateRefused again => cases nearest.unique rooted again
      | updateUndeclared way free =>
          obtain ⟨place, member, bound⟩ := nearest.bound way
          exact absurd (free place member) bound
  | updateRefused nearest =>
      cases second with
      | update again => cases nearest.unique rooted again
      | updateRefused => rfl
      | updateUndeclared way free =>
          obtain ⟨place, member, bound⟩ := nearest.bound way
          exact absurd (free place member) bound
  | updateUndeclared way free =>
      cases second with
      | update nearest | updateRefused nearest =>
          obtain ⟨place, member, bound⟩ := nearest.bound way
          exact absurd (free place member) bound
      | updateUndeclared => rfl

/-- No step but `define` in its own frame touches a constant. -/
theorem constant (does : heap.Does step result next)
    (held : heap.localVariable? env name = some ⟨value, true⟩)
    (kept : ∀ other, step ≠ .define env name other) :
    next.localVariable? env name = some ⟨value, true⟩ := by
  have elsewhere {place : FrameId} {key : String} {variable_ : Variable}
      (bound : heap.Binds place key variable_ next) (other : ¬ (env = place ∧ name = key)) :
      next.localVariable? env name = some ⟨value, true⟩ := by
    rw [bound.bindings, if_neg other, held]
  cases does with
  | child made => rw [made.bindings, held]
  | set free bound =>
      refine elsewhere bound ?_
      rintro ⟨rfl, rfl⟩
      exact free value held
  | setConst free bound =>
      refine elsewhere bound ?_
      rintro ⟨rfl, rfl⟩
      cases held.symm.trans free
  | define bound =>
      refine elsewhere bound ?_
      rintro ⟨rfl, rfl⟩
      exact kept _ rfl
  | update nearest bound =>
      refine elsewhere bound ?_
      rintro ⟨rfl, rfl⟩
      obtain ⟨-, -, -, -, there⟩ := nearest
      cases held.symm.trans there
  | setRefused | setConstRefused | updateRefused | updateUndeclared => exact held

end Does

/-! ## Steps follow the rules -/

namespace Rooted

variable (rooted : heap.Rooted)
include rooted

theorem binds (old : env < heap.frames.size) (name : String) (variable_ : Variable) :
    heap.Binds env name variable_ (heap.bind env name variable_) where
  bindings place key := by
    rw [localVariable?_bind]
    by_cases here : env = place
    · simp [here, Array.getElem?_eq_getElem (here ▸ old)]
    · simp [here, Ne.symm here]
  chains place old := rooted.chain_iff (fun _ => .bind heap env name variable_) old

theorem hangs (old : env < heap.frames.size) : heap.Hangs env (Store.child env heap).2 := by
  have stays (place : FrameId) : StaysAt place heap (Store.child env heap).2 := .push heap _
  have made : (Store.child env heap).2.frames[heap.frames.size]?
      = some ⟨.empty, some env, heap.dir env, none⟩ := by
    simp [Store.child]
  refine ⟨fun place key => ?_, fun chain => ⟨fun way => ?_, fun way => ?_⟩,
    fun place old => rooted.chain_iff stays old⟩
  · rcases Nat.lt_trichotomy place heap.frames.size with old | rfl | young
    · exact localVariable?_push _ old key
    · have before := Array.getElem?_eq_none (Nat.le_refl heap.frames.size)
      simp only [localVariable?, made, before]
      rfl
    · have beyond : (Store.child env heap).2.frames.size ≤ place := by
        rw [Store.size_child]
        exact young
      simp only [localVariable?, Array.getElem?_eq_none beyond,
        Array.getElem?_eq_none (Nat.le_of_lt young)]
  · cases way with
    | root found top =>
        cases made.symm.trans found
        cases top
    | outward found around rest =>
        cases made.symm.trans found
        cases around
        exact (rooted.chain_iff stays old chain).mp rest
  · exact .outward made rfl (way.stays stays)

theorem does (step : FrameStep) (old : step.env < heap.frames.size) :
    heap.Does step (step.run heap).1 (step.run heap).2 := by
  cases step with
  | child env => exact .child (rooted.hangs old)
  | set env name value =>
      rw [FrameStep.run, Store.set_eq]
      split
      · rename_i held
        exact .setRefused held
      · rename_i free
        exact .set free (rooted.binds old name _)
  | setConst env name value =>
      rw [FrameStep.run, Store.setConst_eq]
      split
      · rename_i held
        exact .setConstRefused held
      · rename_i free
        exact .setConst free (rooted.binds old name _)
  | define env name value => exact .define (rooted.binds old name _)
  | update env name value =>
      obtain ⟨chain, way⟩ : ∃ chain, heap.Chain env chain := rooted.chain old
      rw [FrameStep.run, Store.update_eq]
      split
      · rename_i unheld
        rw [way.holder?_eq rooted] at unheld
        exact .updateUndeclared way (by simpa using unheld)
      · rename_i holder found
        obtain ⟨⟨value, constant⟩, nearest⟩ := Nearest.of_holder? rooted way found
        obtain ⟨-, -, -, -, held⟩ := id nearest
        rw [held]
        cases constant with
        | true => exact .updateRefused nearest
        | false => exact .update nearest (rooted.binds (size_of_localVariable? held) name _)

theorem stays (stays : ∀ env, StaysAt env heap next)
    (fresh : ∀ (env : FrameId) (frame : Frame), heap.frames.size ≤ env →
      next.frames[env]? = some frame → ∀ parent, frame.parent = some parent → parent < env) :
    next.Rooted := by
  intro env frame found parent around
  by_cases old : env < heap.frames.size
  · obtain ⟨later, there, alike⟩ := stays env _ (Array.getElem?_eq_getElem old)
    cases there.symm.trans found
    exact rooted env _ (Array.getElem?_eq_getElem old) parent (alike.parent.symm.trans around)
  · exact fresh env frame (Nat.le_of_not_lt old) found parent around

theorem bind (env : FrameId) (name : String) (variable_ : Variable) :
    (heap.bind env name variable_).Rooted := by
  refine rooted.stays (fun _ => .bind heap env name variable_) fun place frame fresh found => ?_
  have old := (Array.getElem?_eq_some_iff.mp found).1
  rw [size_bind] at old
  exact absurd old (Nat.not_lt_of_le fresh)

theorem child (old : env < heap.frames.size) : (Store.child env heap).2.Rooted := by
  refine rooted.stays (fun _ => .push heap _) fun place frame fresh found parent around => ?_
  have bound := (Array.getElem?_eq_some_iff.mp found).1
  rw [Store.size_child] at bound
  cases Nat.le_antisymm (Nat.lt_succ_iff.mp bound) fresh
  simp only [Store.child, Array.getElem?_push_size, Option.some.injEq] at found
  cases found
  cases around
  exact old

theorem write {permits : Permits} {x : Store Unit} (op : Store.Write permits x) :
    (x heap).2.Rooted := by
  rcases op.heap_eq heap with same | ⟨env, name, variable_, -, bound⟩
  · rwa [same]
  · rw [bound]
    exact rooted.bind env name variable_

theorem run (step : FrameStep) (old : step.env < heap.frames.size) :
    (step.run heap).2.Rooted := by
  have write {x : Store Unit} (op : Store.Write (.anyCode True) x) := rooted.write op
  cases step with
  | child env => exact rooted.child old
  | set env name value => exact write (.set env name value trivial)
  | setConst env name value => exact write (.setConst env name value trivial)
  | define env name value => exact write (.define env name value trivial)
  | update env name value => exact write (.update env name value trivial)

end Rooted

/-! ## Sequences of steps -/

def root (dir : String) : Heap := (Store.newRoot dir .empty).2

/-- One heap becomes another by steps on frames that are there. -/
inductive Grows : Heap → List FrameStep → Heap → Prop where
  | done (heap : Heap) : Grows heap [] heap
  | step {heap last : Heap} {step : FrameStep} {steps : List FrameStep}
      (old : step.env < heap.frames.size) (rest : Grows (step.run heap).2 steps last) :
      Grows heap (step :: steps) last

namespace Grows

variable {last : Heap} {steps : List FrameStep}

theorem rooted (grows : heap.Grows steps last) (rooted : heap.Rooted) : last.Rooted := by
  induction grows with
  | done => exact rooted
  | step old rest ih => exact ih (rooted.run _ old)

theorem constant {value : Value} (grows : heap.Grows steps last) (rooted : heap.Rooted)
    (held : heap.localVariable? env name = some ⟨value, true⟩)
    (kept : ∀ other, .define env name other ∉ steps) :
    last.localVariable? env name = some ⟨value, true⟩ := by
  induction grows with
  | done => exact held
  | @step heap last step steps old rest ih =>
      have here : ∀ other, step ≠ .define env name other := fun other same =>
        kept other (same ▸ List.mem_cons_self)
      refine ih (rooted.run step old) ((rooted.does step old).constant held here) fun other member => ?_
      exact kept other (List.mem_cons_of_mem step member)

end Grows

theorem root_rooted (dir : String) : (root dir).Rooted := by
  intro env frame found parent around
  obtain ⟨bound, same⟩ := Array.getElem?_eq_some_iff.mp found
  simp only [root, Store.newRoot, Heap.empty, Array.size_push, Array.size_empty] at bound
  cases Nat.lt_one_iff.mp bound
  cases same
  cases around

/-- After any steps that start from a root, every frame has one chain outward, and a name that is
read in it has the value of the nearest binding on that chain. The next step, whatever it is and on
whichever frame, ends as a rule says and no other rule says otherwise: `set` is refused exactly when
its frame holds a constant of the name, `setConst` exactly when its frame holds the name, `update`
exactly when the nearest binding is a constant or there is none. A refused step changes nothing, and
any other changes one binding at most. A constant stays what it is through all steps but a `define`
of its name in its frame. -/
theorem frame_steps_exact {dir : String} {steps : List FrameStep} {heap : Heap}
    (grown : (root dir).Grows steps heap) :
    (∀ env < heap.frames.size,
      (∃ chain, heap.Chain env chain ∧ ∀ other, heap.Chain env other → other = chain) ∧
      ∀ name value, heap.get? env name = some value ↔
        ∃ holder constant, heap.Nearest env name holder ⟨value, constant⟩) ∧
    (∀ step : FrameStep, step.env < heap.frames.size →
      heap.Does step (step.run heap).1 (step.run heap).2 ∧
        ∀ result next, heap.Does step result next → (step.run heap).1 = result) ∧
    ∀ more last, heap.Grows more last → ∀ env name value,
      heap.localVariable? env name = some ⟨value, true⟩ →
      (∀ other, .define env name other ∉ more) →
        last.localVariable? env name = some ⟨value, true⟩ := by
  have rooted : heap.Rooted := grown.rooted (root_rooted dir)
  refine ⟨fun env old => ⟨?_, rooted.get?_iff old⟩, fun step old => ⟨rooted.does step old, ?_⟩,
    fun more last grows env name value held kept => grows.constant rooted held kept⟩
  · obtain ⟨chain, way⟩ := rooted.chain old
    exact ⟨chain, way, fun other second => way.unique second⟩
  · intro result next does
    exact does.unique rooted (rooted.does step old)

/-- A constant in a frame below the root, a variable of the same name in a frame below that one, and
one more frame at the end. -/
def shadowed : List FrameStep :=
  [.child 0, .setConst 1 "pi" (.text "three"), .child 1, .set 2 "pi" (.text "four"), .child 2]

/-- The last frame reads the variable, and the frame of the constant refuses another value, as it
does after any further steps that do not define the name there. -/
theorem frame_steps_exact_shadowed : ∃ heap, (root ".").Grows shadowed heap ∧
    heap.get? 3 "pi" = some (.text "four") ∧
    (Store.update 1 "pi" (.text "five") heap).1 = .error (.constant "pi") ∧
    ∀ more last, heap.Grows more last → (∀ other, .define 1 "pi" other ∉ more) →
      last.localVariable? 1 "pi" = some ⟨.text "three", true⟩ := by
  have grown : (root ".").Grows shadowed _ :=
    .step (by decide) (.step (by decide) (.step (by decide) (.step (by decide)
      (.step (by decide) (.done _)))))
  obtain ⟨reads, steps, constants⟩ := frame_steps_exact grown
  refine ⟨_, grown, ((reads 3 (by decide)).2 "pi" (.text "four")).mpr ?_, ?_, ?_⟩
  · refine ⟨2, false, [3], [1, 0], ?_, ?_, rfl⟩
    · exact .outward rfl rfl (.outward rfl rfl (.outward rfl rfl (.root rfl rfl)))
    · rintro place (_ | ⟨_, ⟨⟩⟩)
      rfl
  · apply (steps (.update 1 "pi" (.text "five")) (by decide)).2
    exact .updateRefused ⟨[], [0], .outward rfl rfl (.root rfl rfl), nofun, rfl⟩
  · exact fun more last grows kept => constants more last grows 1 "pi" (.text "three") rfl kept

end Heap

end Rill

import Rill.Proofs.Confined
import Rill.Proofs.Visit

/-!
# Runs keep heaps closed

Whatever a run does, it leaves a closed heap if it begins in one and with values that are known
there, and what it gives or throws is known in the heap that it leaves (`Engine.ofDepth_confined`).
A session begins with a closed heap (`Setup.heap_closed`), and a host that hands over nothing but
what it has been given finds a closed heap after every visit (`visit_closed`).
-/

set_option autoImplicit false

namespace Rill

namespace Requirement

def signal : Requirement Signal := fun heap signal => heap.Knows signal.value

def pass : Requirement (Option Signal) :=
  fun heap result => ∀ signal, result = some signal → heap.Knows signal.value

def slots : Requirement (List (Option Value)) :=
  fun heap slots => heap.KnowsAll (slots.filterMap id)

def attempt {α : Type} (required : Requirement α) : Requirement (Except Fault α)
  | heap, .ok a => required heap a
  | heap, .error fault => fault.cause.Known heap

end Requirement

/-- An end leaves a closed heap, and what is given or thrown at it is as required there. -/
def Outcome.Confined {α : Type} (heap : Heap) (required : Requirement α) : Outcome α → Prop
  | done a next => heap.GrownTo next.heap ∧ required next.heap a
  | fault problem next => heap.GrownTo next.heap ∧ problem.cause.Known next.heap
  | spent => True

/-- Every end of an execution that begins in a closed heap is confined. -/
def Exec.Confined {α : Type} (heap : Heap) (required : Requirement α) (x : Exec α) : Prop :=
  heap.Closed → ∀ state, state.heap = heap → (x state).Confined heap required

namespace Outcome.Confined

variable {α : Type} {heap next : Heap} {required : Requirement α} {outcome : Outcome α}

theorem later (grown : heap.GrownTo next) (confined : outcome.Confined next required) :
    outcome.Confined heap required := by
  cases outcome with
  | done | fault => exact ⟨grown.trans confined.1, confined.2⟩
  | spent => trivial

theorem mapState {f : State → State} (same : ∀ state, (f state).heap = state.heap)
    (confined : outcome.Confined heap required) : (outcome.mapState f).Confined heap required := by
  cases outcome with
  | done | fault => simpa only [Outcome.mapState, Outcome.Confined, same] using confined
  | spent => trivial

theorem mapFault {f : Fault → State → Fault}
    (same : ∀ fault state, (f fault state).cause = fault.cause)
    (confined : outcome.Confined heap required) : (outcome.mapFault f).Confined heap required := by
  cases outcome with
  | fault => simpa only [Outcome.mapFault, Outcome.Confined, same] using confined
  | done => exact confined
  | spent => trivial

end Outcome.Confined

namespace Exec.Confined

variable {α β : Type} {heap : Heap} {x : Exec α} {f : α → Exec β} {required other : Requirement α}
  {after : Requirement β}

theorem pure {a : α} (given : required heap a) : Confined heap required (pure a) := by
  rintro closed state rfl
  exact ⟨.refl closed, given⟩

theorem bind (first : Confined heap required x)
    (second : ∀ a next, heap.GrownTo next → required next a → Confined next after (f a)) :
    Confined heap after (x >>= f) := by
  intro closed state here
  have begun := first closed state here
  rw [bind_eq]
  cases ended : x state with
  | done a next =>
      rw [ended] at begun
      exact (second a next.heap begun.1 begun.2 begun.1.closed next rfl).later begun.1
  | fault fault next =>
      rw [ended] at begun
      exact begun
  | spent => trivial

theorem weaken (confined : Confined heap required x)
    (implies : ∀ next a, required next a → other next a) : Confined heap other x := by
  intro closed state here
  have ended := confined closed state here
  cases outcome : x state with
  | done a next =>
      rw [outcome] at ended
      exact ⟨ended.1, implies next.heap a ended.2⟩
  | fault fault next =>
      rw [outcome] at ended
      exact ended
  | spent => trivial

theorem throw {fault : Fault} (known : fault.cause.Known heap) :
    Confined heap required (throw fault) := by
  rintro closed state rfl
  exact ⟨.refl closed, known⟩

theorem raise {cause : Cause} (known : cause.Known heap) : Confined heap required (raise cause) :=
  throw known

theorem spent : Confined heap required spent := fun _ _ _ => trivial

theorem store {x : Store α} (confined : Store.Confined heap required x) :
    Confined heap required (liftM x) := by
  rintro closed state rfl
  have ended := confined closed
  rw [store_eq]
  cases outcome : x state.heap with
  | mk result next =>
      rw [outcome] at ended
      cases result with
      | ok | error => exact ended

theorem look {f : State → α} {g : α → Exec β}
    (inner : ∀ state, state.heap = heap → heap.Closed → Confined heap after (g (f state))) :
    Confined heap after (read f >>= g) :=
  fun closed state here => inner state here closed closed state here

theorem read {f : State → α} (given : ∀ state, state.heap = heap → required heap (f state)) :
    Confined heap required (read f) := by
  rintro closed state rfl
  exact ⟨.refl closed, given state rfl⟩

theorem print (text : String) : Confined heap .none (print text) := by
  rintro closed state rfl
  exact ⟨.refl closed, trivial⟩

theorem changeLimiter (f : Limiter → Limiter) : Confined heap .none (changeLimiter f) := by
  rintro closed state rfl
  exact ⟨.refl closed, trivial⟩

theorem keepModule (key : String) (env : FrameId) : Confined heap .none (keepModule key env) := by
  rintro closed state rfl
  exact ⟨.refl closed, trivial⟩

theorem tick (kind : BreachKind) (pos : Position) : Confined heap .none (tick kind pos) := by
  rintro closed state rfl
  unfold Exec.tick
  split
  · exact ⟨.refl closed, trivial⟩
  · exact ⟨.refl closed, trivial⟩

section Around

variable (inner : Confined heap required x)
include inner

theorem locate (pos : Position) : Confined heap required (locate pos x) := by
  intro closed state here
  rw [locate_eq]
  exact (inner closed state here).mapFault fun fault _ => fault.locate_cause pos

theorem traced : Confined heap required (traced x) := by
  intro closed state here
  rw [traced_eq]
  exact (inner closed state here).mapFault fun fault _ => fault.trace_cause _

theorem attempt : Confined heap (.attempt required) (attempt x) := by
  intro closed state here
  have ended := inner closed state here
  rw [attempt_eq]
  cases outcome : x state with
  | done | fault =>
      rw [outcome] at ended
      exact ended
  | spent => trivial

theorem called (name : String) (pos : Position) : Confined heap required (called name pos x) := by
  rintro closed state rfl
  rw [called_eq]
  split
  · exact ⟨.refl closed, trivial⟩
  · rename_i limiter _
    exact (inner closed { state with limiter } rfl).mapState fun _ => rfl

theorem loading (key : String) : Confined heap required (loading key x) := by
  rintro closed state rfl
  rw [loading_eq]
  exact (inner closed { state with loading := key :: state.loading } rfl).mapState fun _ => rfl

end Around

theorem settle {result : Except Fault α} (given : Requirement.attempt required heap result) :
    Confined heap required (settle result) := by
  cases result with
  | ok a => exact pure given
  | error fault => exact throw given

theorem asMethod {x : Exec Value} (env : FrameId) (method : MethodRef)
    (inner : ∀ next, heap.GrownTo next → Confined next Heap.Knows x) :
    Confined heap Heap.Knows (asMethod env method x) := by
  refine look fun state _ _ => ?_
  refine bind (store (.setMethod env (some method))) fun _ next grown _ => ?_
  refine bind (inner next grown).attempt fun result last _ ended => ?_
  refine bind (store (.setMethod env _)) fun _ final further _ => settle ?_
  cases result with
  | ok value => exact further.knows ended
  | error fault => exact further.known ended

theorem loop {pass : Nat → Exec (Option Signal)} (passes index : Nat) {last : Value}
    (known : heap.Knows last)
    (each : ∀ index next, heap.GrownTo next → Confined next .pass (pass index)) :
    Confined heap .signal (loop pass passes index last) := by
  induction passes generalizing heap index last with
  | zero => exact spent
  | succ passes ih =>
      intro closed
      refine bind (each index heap (.refl closed)) (fun result next grown ended => ?_) closed
      have others : ∀ index last, next.GrownTo last → Confined last .pass (pass index) :=
        fun index last further => each index last (grown.trans further)
      split
      · exact pure (grown.knows known)
      · exact ih (index + 1) (ended _ rfl) others
      · exact ih (index + 1) (grown.knows known) others
      · exact pure (grown.knows known)
      · exact pure (ended _ rfl)

end Exec.Confined

/-! ## Engines -/

/-- An engine whose jobs are confined, if the values that it is given are known. -/
structure Engine.Confined (engine : Engine) : Prop where
  eval (heap : Heap) (expr : Expr) (env : FrameId) :
    Exec.Confined heap Heap.Knows (engine.eval expr env)
  exec (heap : Heap) (stmt : Stmt) (env : FrameId) :
    Exec.Confined heap .signal (engine.exec stmt env)
  call {heap : Heap} {callee : Value} {args : List Value} (pos : Position)
    (known : heap.Knows callee) (all : heap.KnowsAll args) :
    Exec.Confined heap Heap.Knows (engine.call callee args pos)

namespace Engine.Confined

open Exec.Confined

variable {engine : Engine} {heap : Heap} {env : FrameId} (confined : engine.Confined)
include confined

/-! ### Expressions -/

theorem evalOption (expr : Option Expr) (env : FrameId) :
    Exec.Confined heap Heap.Knows (engine.evalOption expr env) := by
  cases expr with
  | none => exact pure trivial
  | some expr => exact confined.eval heap expr env

theorem evalTemplate (env : FrameId) (parts : List TemplatePart) (done : String) :
    Exec.Confined heap Heap.Knows (engine.evalTemplate env parts done) := by
  induction parts generalizing heap done with
  | nil => exact pure trivial
  | cons part rest ih =>
      cases part with
      | text text => exact ih _
      | hole expr =>
          exact bind (confined.eval heap expr env) fun value next _ _ =>
            bind (store (.display value)) fun shown _ _ _ => ih _

theorem evalItem (env : FrameId) (item : Expr) :
    Exec.Confined heap Heap.KnowsAll (engine.evalItem env item) := by
  cases item with
  | spread pos inner =>
      exact bind (confined.eval heap inner env) fun value next _ _ =>
        (store (.spreadItems value)).locate pos
  | _ =>
      exact bind (confined.eval heap _ env) fun value next _ known => pure (by simpa using known)

theorem evalItems (env : FrameId) (items : List Expr) {done : Array Value}
    (known : heap.KnowsAll done.toList) :
    Exec.Confined heap .items (engine.evalItems env items done) := by
  induction items generalizing heap done with
  | nil => exact pure known
  | cons item rest ih =>
      exact bind (confined.evalItem env item) fun values next grown more =>
        ih (by simpa using ⟨grown.knowsAll known, more⟩)

theorem evalArgs (args : List Expr) (env : FrameId) :
    Exec.Confined heap Heap.KnowsAll (engine.evalArgs args env) :=
  bind (confined.evalItems env args Heap.knowsAll_nil) fun _ _ _ known => pure known

theorem evalKey (env : FrameId) (key : Key) :
    Exec.Confined heap .none (engine.evalKey env key) := by
  cases key with
  | name text => exact pure trivial
  | computed expr =>
      exact bind (confined.eval heap expr env) fun value _ _ _ => store (.keyText value)

theorem evalEntries (env : FrameId) (entries : List Entry) {done : Fields Value}
    (known : heap.KnowsAll done.values) :
    Exec.Confined heap .fields (engine.evalEntries env entries done) := by
  induction entries generalizing heap done with
  | nil => exact pure known
  | cons entry rest ih =>
      cases entry with
      | field key value =>
          refine bind (confined.evalKey env key) fun name next grown _ => ?_
          refine bind (confined.eval next value env) fun value last further fresh => ih ?_
          exact (further.knowsAll (grown.knowsAll known)).insert fresh
      | spread source =>
          refine bind (confined.eval heap source env) fun value next grown _ => ?_
          refine bind ((store (.spreadFields value)).locate _) fun fields last further more => ih ?_
          exact (further.knowsAll (grown.knowsAll known)).insertAll more

theorem evalBinary (op : BinaryOp) (left right : Expr) (env : FrameId) :
    Exec.Confined heap Heap.Knows (engine.evalBinary op left right env) := by
  refine bind (confined.eval heap left env) fun first next _ known => ?_
  cases op with
  | and =>
      dsimp only
      split
      · exact confined.eval next right env
      · exact pure known
  | or =>
      dsimp only
      split
      · exact pure known
      · exact confined.eval next right env
  | coalesce =>
      dsimp only
      split
      · exact confined.eval next right env
      · exact pure known
  | pipe =>
      exact bind (confined.eval next right env) fun callee last grown given =>
        confined.call _ given (by simpa using grown.knows known)
  | _ =>
      exact bind (confined.eval next right env) fun second last grown given =>
        store (.binary _ (grown.knows known) given)

theorem evalSlots (env : FrameId) (items : List Expr) {done : List (Option Value)}
    (known : heap.KnowsAll (done.filterMap id)) :
    Exec.Confined heap .slots (engine.evalSlots env items done) := by
  induction items generalizing heap done with
  | nil => exact pure known
  | cons item rest ih =>
      unfold Engine.evalSlots
      split
      · exact ih (by simpa using known)
      · exact bind (confined.evalItem env item) fun values next grown more =>
          ih (by simpa [List.filterMap_map] using ⟨grown.knowsAll known, more⟩)

theorem apply {callee : Value} (known : heap.Knows callee) (args : List Expr) (env : FrameId)
    (pos : Position) : Exec.Confined heap Heap.Knows (engine.apply callee args env pos) := by
  unfold Engine.apply
  split
  · split
    · exact bind (confined.evalSlots env args Heap.knowsAll_nil) fun slots next grown filled =>
        store (.newNative (by simpa [Native.values] using ⟨grown.knows known, filled⟩))
    · exact (store (.mismatch _)).locate pos
  · exact bind (confined.evalArgs args env) fun values next grown all =>
      confined.call pos (grown.knows known) all

theorem evalMember (object : Expr) (name : String) (optional : Bool) (env : FrameId)
    {use : Store Value → Exec Value}
    (uses : ∀ value next, heap.GrownTo next → next.Knows value →
      Exec.Confined next Heap.Knows (use (Access.getMember value name))) :
    Exec.Confined heap Heap.Knows (engine.evalMember object name optional env use) := by
  refine bind (confined.eval heap object env) fun value next grown known => ?_
  split
  · exact pure trivial
  · exact uses value next grown known

/-! ### Statements one after another -/

theorem execAll (env : FrameId) (stmts : List Stmt) {last : Value} (known : heap.Knows last) :
    Exec.Confined heap .signal (engine.execAll env stmts last) := by
  induction stmts generalizing heap last with
  | nil => exact pure known
  | cons stmt rest ih =>
      refine bind (confined.exec heap stmt env) fun signal next _ given => ?_
      cases signal with
      | normal value => exact ih given
      | _ => exact pure given

theorem execBlock (block : Block) (env : FrameId) :
    Exec.Confined heap .signal (engine.execBlock block env) :=
  bind (store (.child env)) fun frame _ _ _ => confined.execAll frame block.stmts trivial

theorem execProgram (env : FrameId) (stmts : List Stmt) {last : Value} (known : heap.Knows last) :
    Exec.Confined heap Heap.Knows (engine.execProgram env stmts last) := by
  induction stmts generalizing heap last with
  | nil => exact pure known
  | cons stmt rest ih =>
      refine bind (confined.exec heap stmt env) fun signal next grown given => ?_
      cases signal with
      | normal value => exact ih given
      | return_ value => exact pure given
      | break_ | continue_ => exact ih (grown.knows known)

/-! ### Calls -/

theorem bindParams (env : FrameId) (params : List Binding) {args : List Value}
    (known : heap.KnowsAll args) :
    Exec.Confined heap .none (engine.bindParams env params args) := by
  induction params generalizing heap args with
  | nil => exact pure trivial
  | cons param rest ih =>
      cases args with
      | nil =>
          exact bind (confined.evalOption param.value env) fun value next _ given =>
            bind (store (.define given env param.name)) fun _ _ _ _ => ih Heap.knowsAll_nil
      | cons arg args =>
          rw [Heap.knowsAll_cons] at known
          exact bind (store (.define known.1 env param.name)) fun _ _ grown _ =>
            ih (grown.knowsAll known.2)

theorem invoke (fn : Function) (env : FrameId) {args : List Value} (known : heap.KnowsAll args)
    (pos : Position) : Exec.Confined heap Heap.Knows (engine.invoke fn env args pos) := by
  have body : ∀ next, Exec.Confined next Heap.Knows (engine.runBody fn.body env) := by
    intro next
    cases fn.body with
    | value expr => exact confined.eval next expr env
    | block block =>
        exact bind (confined.execAll env block.stmts trivial) fun _ _ _ given => pure given
  have runs := bind (confined.bindParams env fn.params known) fun _ next _ _ => body next
  exact ((runs.traced).called fn.label pos).locate pos

theorem callClosure (closure : Closure) {args : List Value} (known : heap.KnowsAll args)
    (pos : Position) : Exec.Confined heap Heap.Knows (engine.callClosure closure args pos) :=
  bind (store (.child closure.env)) fun frame _ grown _ =>
    bind (store (.setMethod frame closure.method)) fun _ _ further _ =>
      confined.invoke closure.fn frame (further.knowsAll (grown.knowsAll known)) pos

theorem defineFields (env : FrameId) (fields : List (String × Option Expr)) :
    Exec.Confined heap .none (engine.defineFields env fields) := by
  induction fields generalizing heap with
  | nil => exact pure trivial
  | cons entry rest ih =>
      exact bind (confined.evalOption entry.2 env) fun value next _ given =>
        bind (store (.define given env entry.1)) fun _ _ _ _ => ih

theorem instantiate (id : BlueprintId) {args : List Value} (known : heap.KnowsAll args)
    (pos : Position) : Exec.Confined heap Heap.Knows (engine.instantiate id args pos) := by
  refine look fun state _ _ => ?_
  split
  · exact pure trivial
  · refine bind (store (.child _)) fun frame start first there => ?_
    refine bind (confined.defineFields frame _) fun _ fields second _ => ?_
    refine bind (store (.defineMethods frame _)) fun _ methods third _ => ?_
    have here := Nat.lt_of_lt_of_le there (second.trans third).frames
    refine bind (store (.newObject here)) fun object made fourth own => ?_
    refine bind (store (.define own frame "self")) fun _ self fifth _ => ?_
    have still := fifth.knows own
    refine bind (store (.define still frame "this")) fun _ this sixth _ => ?_
    refine look fun state _ _ => ?_
    split
    · have grown := first.trans (second.trans (third.trans (fourth.trans (fifth.trans sixth))))
      exact bind (confined.callClosure _ (grown.knowsAll known) pos) fun _ _ last _ =>
        pure (last.knows (sixth.knows still))
    · exact pure (sixth.knows still)

theorem callSuper (name : Option String) {args : List Value} (known : heap.KnowsAll args)
    (env : FrameId) (pos : Position) :
    Exec.Confined heap Heap.Knows (engine.callSuper name args env pos) := by
  refine look fun state _ _ => ?_
  split
  · exact (raise (by trivial)).locate pos
  · exact asMethod _ _ fun next grown => confined.invoke _ _ (grown.knowsAll known) pos

/-! ### Native functions -/

theorem gather {σ : Type} (required : Requirement σ)
    (kept : ∀ {heap next : Heap} {done : σ}, heap.GrownTo next → required heap done →
      required next done)
    {step : σ → Value → Value → σ}
    (steps : ∀ (heap : Heap) (done : σ) (item result : Value), required heap done →
      heap.Knows item → heap.Knows result → required heap (step done item result))
    {fn : Value} (callable : heap.Knows fn) {items : List Value} (known : heap.KnowsAll items)
    (index : Nat) {done : σ} (given : required heap done) :
    Exec.Confined heap required (engine.gather fn step items index done) := by
  induction items generalizing heap index done with
  | nil => exact pure given
  | cons item rest ih =>
      rw [Heap.knowsAll_cons] at known
      have args : heap.KnowsAll [item, Native.count index] := by
        simpa [Native.count, Heap.Knows] using known.1
      refine bind (confined.call .unknown callable args) fun result next grown fresh => ?_
      exact ih (grown.knows callable) (grown.knowsAll known.2) (index + 1)
        (steps next done item result (kept grown given) (grown.knows known.1) fresh)

theorem reduce {fn : Value} (callable : heap.Knows fn) {items : List Value}
    (known : heap.KnowsAll items) {result : Value} (given : heap.Knows result) :
    Exec.Confined heap Heap.Knows (engine.reduce fn items result) := by
  induction items generalizing heap result with
  | nil => exact pure given
  | cons item rest ih =>
      rw [Heap.knowsAll_cons] at known
      exact bind (confined.call .unknown callable (by simpa using ⟨given, known.1⟩))
        fun next _ grown fresh => ih (grown.knows callable) (grown.knowsAll known.2) fresh

theorem find {fn : Value} (callable : heap.Knows fn) {items : List Value}
    (known : heap.KnowsAll items) :
    Exec.Confined heap Heap.Knows (engine.find fn items) := by
  induction items generalizing heap with
  | nil => exact pure trivial
  | cons item rest ih =>
      rw [Heap.knowsAll_cons] at known
      refine bind (confined.call .unknown callable (by simpa using known.1))
        fun answer next grown _ => ?_
      split
      · exact pure (grown.knows known.1)
      · exact ih (grown.knows callable) (grown.knowsAll known.2)

theorem callArray (method : ArrayMethod) (name : String) (id : Nat) {args : List Value}
    (known : heap.KnowsAll args) :
    Exec.Confined heap Heap.Knows (engine.callArray method name id args) := by
  have first : heap.Knows (Native.arg args 0) := known.getD 0
  have elements : ∀ heap : Heap, Exec.Confined heap .items (liftM (Store.array id)) :=
    fun heap => store (.read fun closed => closed.array id)
  -- The methods that take a function read the elements once they have it.
  have applied : ∀ use : Value → Array Value → Exec Value,
      (∀ fn items next, heap.GrownTo next → next.Knows fn → next.KnowsAll items.toList →
        Exec.Confined next Heap.Knows (use fn items)) →
      Exec.Confined heap Heap.Knows (do
        let fn ← Native.function name (Native.arg args 0)
        let items ← Store.array id
        use fn items) := by
    intro use uses
    refine bind (store (.function name first)) fun fn next grown callable => ?_
    refine bind (elements next) fun items last further all => ?_
    exact uses fn items last (grown.trans further) (further.knows callable) all
  cases method with
  | count => exact bind (elements heap) fun items _ _ _ => pure trivial
  | push =>
      refine bind (store (.change fun closed => closed.changeArray id fun items old => ?_))
        fun _ next _ _ => bind (elements next) fun items _ _ _ => pure trivial
      simpa using ⟨old, known⟩
  | pop =>
      refine bind (elements heap) fun items next grown all => ?_
      refine bind (store (.change fun closed => closed.changeArray id fun items old => ?_))
        fun _ last further _ => pure ?_
      · rw [Array.toList_pop]
        exact old.sub (List.dropLast_subset _)
      · cases found : items.back? with
        | none => trivial
        | some value =>
            exact further.knows (all value (Array.mem_toList_iff.mpr (Array.mem_of_back? found)))
  | map =>
      refine applied _ fun fn items next _ callable all => ?_
      have results : Exec.Confined next .items (engine.gather fn
          (fun done _ result => done.push result) items.toList 0 #[]) :=
        confined.gather .items (fun grown => grown.knowsAll)
          (fun _ _ _ _ old _ fresh => old.push fresh) callable all 0 Heap.knowsAll_nil
      exact bind results fun results _ _ given => store (.newArray given)
  | filter =>
      refine applied _ fun fn items next _ callable all => ?_
      have kept : Exec.Confined next .items (engine.gather fn
          (fun done item result => if result.isTruthy then done.push item else done)
          items.toList 0 #[]) := by
        refine confined.gather .items (fun grown => grown.knowsAll)
          (fun heap done item result old own _ => ?_) callable all 0 Heap.knowsAll_nil
        split
        · exact old.push own
        · exact old
      exact bind kept fun kept _ _ given => store (.newArray given)
  | each =>
      refine applied _ fun fn items next _ callable all => ?_
      exact bind (confined.gather .none (fun _ _ => trivial) (fun _ _ _ _ _ _ _ => trivial) callable
        all 0 trivial) fun _ _ _ _ => pure trivial
  | find => exact applied _ fun fn items next _ callable all => confined.find callable all
  | reduce =>
      refine applied _ fun fn items next grown callable all => ?_
      split
      · rename_i start given
        exact confined.reduce callable all
          (grown.knows (known _ (List.mem_of_getElem? given)))
      · rename_i start items _ split
        rw [split, Heap.knowsAll_cons] at all
        exact confined.reduce callable all.2 all.1
      · exact store (.mismatch _)
  | indexOf =>
      refine bind (elements heap) fun items _ _ _ => pure ?_
      unfold Native.indexOf
      split <;> trivial
  | contains => exact bind (elements heap) fun items _ _ _ => pure trivial
  | join =>
      have joined : ∀ next (separator : String), Exec.Confined next Heap.Knows (do
          let pieces ← Exec.read fun state =>
            (state.heap.array id).toList.map state.heap.display
          return .text (separator.intercalate pieces)) :=
        fun next separator => look fun _ _ _ => pure trivial
      simp only [Engine.callArray]
      split
      · exact bind (store (.text name _)) fun separator next _ _ => joined next separator
      · exact joined heap ","
  | reverse =>
      exact bind (elements heap) fun items next _ all => store (.newArray (by
        rw [Array.toList_reverse]
        exact all.sub fun _ => List.mem_reverse.mp))
  | slice =>
      refine bind (elements heap) fun items next _ all => ?_
      refine bind (store (.bound _ _ _)) fun start _ further _ => ?_
      refine bind (store (.bound _ _ _)) fun stop _ more _ => store (.newArray ?_)
      have part : (items.extract start stop).toList ⊆ items.toList := by
        rw [Array.toList_extract]
        exact List.Subset.trans (List.take_subset _ _) (List.drop_subset _ _)
      exact (more.knowsAll (further.knowsAll all)).sub part

theorem act {act : HostAct} {known : Value → Prop} (uses : act.Uses known)
    (here : ∀ value, known value → heap.Knows value) :
    Exec.Confined heap Heap.Knows (engine.act act) := by
  induction act generalizing heap known with
  | give value => exact pure (here value uses)
  | refuse message => exact store (.mismatch _)
  | change request next ih =>
      exact bind (changeLimiter _) fun _ _ grown _ =>
        ih uses fun value own => grown.knows (here value own)
  | look next ih => exact look fun state _ _ => ih state.limiter (uses state.limiter) here
  | print text next ih =>
      exact bind (print _) fun _ _ grown _ => ih uses fun value own => grown.knows (here value own)
  | array items next ih =>
      refine bind (store (.newArray fun item member => here item (uses.1 item member)))
        fun answer _ grown fresh => ih answer (uses.2 answer) ?_
      rintro value (own | rfl)
      · exact grown.knows (here value own)
      · exact fresh
  | call callee args pos next ih =>
      refine bind (confined.call pos (here callee uses.1) fun arg member => here arg (uses.2.1 arg member))
        fun answer _ grown fresh => ih answer (uses.2.2 answer) ?_
      rintro value (own | rfl)
      · exact grown.knows (here value own)
      · exact fresh

omit confined in
theorem ofBuiltin (fn : Builtin) (args : List Value) :
    Exec.Confined heap Heap.Knows (Native.ofBuiltin fn args) := by
  cases fn with
  | print => exact look fun _ _ _ => bind (print _) fun _ _ _ _ => pure trivial
  | len => exact store (.length args)
  | typeOf => exact pure trivial
  | str => exact bind (store (.display _)) fun shown _ _ _ => pure trivial
  | keys => exact store (.fieldNames args)
  | instanceOf => exact store (.isInstance args)

theorem callNative {native : Native} (own : heap.KnowsAll native.values) {args : List Value}
    (known : heap.KnowsAll args) :
    Exec.Confined heap Heap.Knows (engine.callNative native args) := by
  cases native with
  | builtin fn => exact ofBuiltin fn args
  | host fn =>
      refine confined.act (fn.closed args) fun value own => ?_
      rcases own with scalar | given
      · exact Heap.knows_of_isScalar scalar
      · exact known value given
  | ofArray method name id => exact confined.callArray method name id known
  | ofText method name receiver => exact store (.ofTextResult method name receiver args)
  | partialCall callee slots pos =>
      simp only [Native.values, Heap.knowsAll_cons] at own
      have filled : heap.KnowsAll ((Native.fill slots args).filterMap id) := own.2.fill known
      simp only [Engine.callNative]
      split
      · rename_i values complete
        exact confined.call pos own.1 (filled.sub (Native.filled?_subset complete))
      · exact store (.newNative (by simpa [Native.values] using ⟨own.1, filled⟩))
  | superCall name env pos => exact confined.callSuper name known env pos
  | echo name => exact store (.newArray known)

theorem callValue {callee : Value} (own : heap.Knows callee) {args : List Value}
    (known : heap.KnowsAll args) (pos : Position) :
    Exec.Confined heap Heap.Knows (engine.callValue callee args pos) := by
  cases callee with
  | native id =>
      refine look fun state here closed => ?_
      subst here
      split
      · rename_i native found
        exact ((confined.callNative (closed.natives id native found) known).called _ pos).locate pos
      · exact pure trivial
  | closure id =>
      refine look fun _ _ _ => ?_
      split
      · exact confined.callClosure _ known pos
      · exact pure trivial
  | blueprint id => exact confined.instantiate id known pos
  | _ => exact (raise (by trivial)).locate pos

/-! ### Forms of expressions -/

theorem evalCall (callee : Expr) (args : List Expr) (env : FrameId) (pos : Position) :
    Exec.Confined heap Heap.Knows (engine.evalCall callee args env pos) := by
  cases callee with
  | super_ at_ name =>
      exact bind (confined.evalArgs args env) fun values _ _ known =>
        confined.callSuper name known env pos
  | member at_ object name optional =>
      simp only [Engine.evalCall]
      refine confined.evalMember object name optional env fun value next _ known => ?_
      exact bind ((store (.getMember known name)).locate at_) fun member _ _ given =>
        confined.apply given args env pos
  | _ =>
      exact bind (confined.eval heap _ env) fun value _ _ known =>
        confined.apply known args env pos

theorem evalArms {value : Value} (known : heap.Knows value) (env : FrameId) (arms : List Arm) :
    Exec.Confined heap Heap.Knows (engine.evalArms value env arms) := by
  induction arms generalizing heap with
  | nil => exact look fun _ _ _ => raise trivial
  | cons arm rest ih =>
      refine bind (store (.child env)) fun frame next grown _ => ?_
      have still := grown.knows known
      refine bind (store (.matchBind frame arm.pattern still)) fun fitting last further _ => ?_
      split
      · split
        · exact confined.eval last arm.body frame
        · refine bind (confined.eval last _ frame) fun answer final more _ => ?_
          split
          · exact confined.eval final arm.body frame
          · exact ih (more.knows (further.knows still))
      · exact ih (further.knows still)

theorem comprehend {σ : Type} (required : Requirement σ)
    (kept : ∀ {heap next : Heap} {done : σ}, heap.GrownTo next → required heap done →
      required next done)
    {emit : FrameId → σ → Exec σ} (emits : ∀ (heap : Heap) (frame : FrameId) (done : σ),
      required heap done → Exec.Confined heap required (emit frame done))
    (pos : Position) (clauses : List Clause) (env : FrameId) {done : σ}
    (given : required heap done) :
    Exec.Confined heap required (engine.comprehend emit pos clauses env done) := by
  induction clauses generalizing heap env done with
  | nil => exact emits heap env done given
  | cons clause rest ih =>
      cases clause with
      | each name source =>
          refine bind (confined.eval heap source env) fun value start first _ => ?_
          refine bind (store (.elements value)) fun items next second known => ?_
          have begun := kept (first.trans second) given
          clear given first second
          induction items generalizing next done with
          | nil => exact pure begun
          | cons item items again =>
              rw [Heap.knowsAll_cons] at known
              rw [List.foldlM_cons]
              have pass : Exec.Confined next required (do
                  Exec.tick .forIn pos
                  let frame ← Store.child env
                  Store.define frame name item
                  engine.comprehend emit pos rest frame done) := by
                refine bind (tick .forIn pos) fun _ asked third _ => ?_
                refine bind (store (.child env)) fun frame made fourth _ => ?_
                have own := fourth.knows (third.knows known.1)
                refine bind (store (.define own frame name)) fun _ bound fifth _ => ?_
                exact ih frame (kept (third.trans (fourth.trans fifth)) begun)
              exact bind pass fun done last grown held =>
                again last (grown.knowsAll known.2) held
      | only cond =>
          refine bind (confined.eval heap cond env) fun answer next grown _ => ?_
          split
          · exact ih env (kept grown given)
          · exact pure (kept grown given)

theorem evalForm (expr : Expr) (env : FrameId) :
    Exec.Confined heap Heap.Knows (engine.evalForm expr env) := by
  cases expr with
  | literal pos literal =>
      cases literal with
      | number | text | bool | nil => exact pure trivial
  | template pos parts => exact confined.evalTemplate env parts ""
  | ident pos name => exact store (.get env name)
  | array pos items =>
      exact bind (confined.evalItems env items Heap.knowsAll_nil) fun values _ _ known =>
        store (.newArray known)
  | record pos entries =>
      exact bind (confined.evalEntries env entries Heap.knowsAll_nil) fun fields _ _ known =>
        store (.newRecord known)
  | binary pos op left right => exact confined.evalBinary op left right env
  | unary pos op operand =>
      exact bind (confined.eval heap operand env) fun value _ _ _ => store (.unary op value)
  | ternary pos cond yes no =>
      refine bind (confined.eval heap cond env) fun answer next _ _ => ?_
      split
      · exact confined.eval next yes env
      · exact confined.eval next no env
  | call pos callee args => exact confined.evalCall callee args env pos
  | member pos object name optional =>
      exact confined.evalMember object name optional env fun value _ _ known =>
        store (.getMember known name)
  | index pos object index =>
      exact bind (confined.eval heap object env) fun owner next _ known =>
        bind (confined.eval next index env) fun key _ grown _ =>
          store (.getIndex (grown.knows known))
  | function pos fn => exact store (.newClosure _)
  | spread pos inner => exact store (.mismatch _)
  | match_ pos subject arms =>
      exact bind (confined.eval heap subject env) fun value _ _ known =>
        confined.evalArms known env arms
  | arrayOf pos element clauses =>
      have emits : ∀ (heap : Heap) (frame : FrameId) (done : Array Value),
          Requirement.items heap done → Exec.Confined heap .items (do
            return done.push (← engine.eval element frame)) := by
        intro heap frame done known
        exact bind (confined.eval heap element frame) fun value _ grown fresh =>
          pure ((grown.knowsAll known).push fresh)
      exact bind (confined.comprehend .items (fun grown => grown.knowsAll) emits pos clauses env
        Heap.knowsAll_nil) fun items _ _ known => store (.newArray known)
  | recordOf pos key value clauses =>
      have emits : ∀ (heap : Heap) (frame : FrameId) (done : Fields Value),
          Requirement.fields heap done → Exec.Confined heap .fields (do
            let name ← engine.evalKey frame (.computed key)
            return done.insert name (← engine.eval value frame)) := by
        intro heap frame done known
        refine bind (confined.evalKey frame (.computed key)) fun name next grown _ => ?_
        exact bind (confined.eval next value frame) fun value _ further fresh =>
          pure ((further.knowsAll (grown.knowsAll known)).insert fresh)
      exact bind (confined.comprehend .fields (fun grown => grown.knowsAll) emits pos clauses env
        Heap.knowsAll_nil) fun fields _ _ known => store (.newRecord known)
  | super_ pos name => exact store (.newNative Heap.knowsAll_nil)

/-! ### Statements -/

theorem declare (constant : Bool) (env : FrameId) (bindings : List Binding) :
    Exec.Confined heap .none (engine.declare constant env bindings) := by
  induction bindings generalizing heap with
  | nil => exact pure trivial
  | cons binding rest ih =>
      exact bind (confined.evalOption binding.value env) fun value _ _ known =>
        bind (store (.declare known constant env binding.name)) fun _ _ _ _ => ih

theorem assigned (op : AssignOp) {current : Store Value}
    (reads : Store.Confined heap Heap.Knows current) (value : Expr) (env : FrameId) :
    Exec.Confined heap Heap.Knows (engine.assigned op current value env) := by
  unfold Engine.assigned
  split
  · exact confined.eval heap value env
  · exact bind (store reads) fun left next _ known =>
      bind (confined.eval next value env) fun right _ grown fresh =>
        store (.binary _ (grown.knows known) fresh)

theorem assign (target : Expr) (op : AssignOp) (value : Expr) (env : FrameId) :
    Exec.Confined heap Heap.Knows (engine.assign target op value env) := by
  cases target with
  | ident pos name =>
      refine bind (confined.assigned op (.get env name) value env) fun result next _ known => ?_
      exact bind (store (.update known env name)) fun _ _ grown _ => pure (grown.knows known)
  | member pos object name optional =>
      refine bind (confined.eval heap object env) fun owner next _ own => ?_
      refine bind (confined.assigned op (.getMember own name) value env)
        fun result last _ known => ?_
      exact bind (store (.setMember owner name known)) fun _ _ grown _ => pure (grown.knows known)
  | index pos object index =>
      refine bind (confined.eval heap object env) fun owner next _ own => ?_
      refine bind (confined.eval next index env) fun key start grown _ => ?_
      refine bind (confined.assigned op (.getIndex (grown.knows own)) value env)
        fun result last _ known => ?_
      exact bind (store (.setIndex owner key known)) fun _ _ further _ => pure (further.knows known)
  | _ => exact (store (.mismatch _)).locate _

theorem holds (cond : Option Expr) (env : FrameId) :
    Exec.Confined heap .none (engine.holds cond env) := by
  cases cond with
  | none => exact pure trivial
  | some cond => exact bind (confined.eval heap cond env) fun _ _ _ _ => pure trivial

omit confined in
theorem ran {body : Exec Signal} (runs : Exec.Confined heap .signal body) :
    Exec.Confined heap .pass (do return some (← body)) := by
  refine bind runs fun signal next _ known => pure fun other same => ?_
  cases same
  exact known

theorem pass (kind : BreachKind) (cond : Option Expr) (body : Block) (env : FrameId)
    (pos : Position) : Exec.Confined heap .pass (engine.pass kind cond body env pos) := by
  refine bind (confined.holds cond env) fun answer next _ _ => ?_
  split
  · exact bind (tick kind pos) fun _ _ _ _ => ran (confined.execBlock body env)
  · exact pure nofun

theorem execOption (stmt : Option Stmt) (env : FrameId) :
    Exec.Confined heap .none (engine.execOption stmt env) := by
  cases stmt with
  | none => exact pure trivial
  | some stmt => exact bind (confined.exec heap stmt env) fun _ _ _ _ => pure trivial

theorem execWhile (cond : Expr) (body : Block) (env : FrameId) (pos : Position) :
    Exec.Confined heap .signal (engine.execWhile cond body env pos) :=
  loop _ _ trivial fun _ _ _ => confined.pass .whileLoop (some cond) body env pos

theorem execFor (init : Option Stmt) (cond : Option Expr) (post : Option Stmt) (body : Block)
    (env : FrameId) (pos : Position) :
    Exec.Confined heap .signal (engine.execFor init cond post body env pos) := by
  refine bind (store (.child env)) fun frame made _ _ => ?_
  refine bind (confined.execOption init frame) fun _ start _ _ => ?_
  refine loop _ _ trivial fun index next _ => ?_
  split
  · exact bind (confined.execOption post frame) fun _ _ _ _ =>
      confined.pass .forLoop cond body frame pos
  · exact confined.pass .forLoop cond body frame pos

theorem passOver (name : String) {value : Value} (own : heap.Knows value)
    {entries : Array (Value × Value)} (known : ∀ pair ∈ entries, Requirement.pair heap pair)
    (body : Block) (env : FrameId) (pos : Position) (index : Nat) :
    Exec.Confined heap .pass (engine.passOver name value entries body env pos index) := by
  refine bind (store (.entryAt value known index)) fun found next zeroth given => ?_
  split
  · exact pure nofun
  · rename_i key item
    obtain ⟨knownKey, knownItem⟩ := given _ rfl
    refine bind (store (.child env)) fun frame made first _ => ?_
    refine bind (store (.define (first.knows knownKey) frame name)) fun _ named second _ => ?_
    have two := first.trans second
    refine bind (store (.define (two.knows knownKey) frame "$k")) fun _ keyed third _ => ?_
    have three := two.trans third
    refine bind (store (.define (three.knows knownItem) frame "$v")) fun _ valued fourth _ => ?_
    have four := zeroth.trans (three.trans fourth)
    refine bind (store (.define (four.knows own) frame "$c")) fun _ whole _ _ => ?_
    exact bind (tick .forIn pos) fun _ _ _ _ => ran (confined.execAll frame body.stmts trivial)

theorem execForIn (name : String) (source : Expr) (body : Block) (env : FrameId) (pos : Position) :
    Exec.Confined heap .signal (engine.execForIn name source body env pos) := by
  refine bind (confined.eval heap source env) fun value next _ own => ?_
  refine bind (store (.entries value)) fun entries start grown known => ?_
  refine loop _ _ trivial fun index last further => ?_
  exact confined.passOver name (further.knows (grown.knows own))
    (fun pair member => (known pair member).imp further.knows further.knows) body env pos index

theorem handle (handler : Handler) {fault : Fault} (known : fault.cause.Known heap)
    (env : FrameId) : Exec.Confined heap .signal (engine.handle handler fault env) := by
  refine bind (store (.child env)) fun frame next grown _ => ?_
  refine bind (store (.caught (grown.known known))) fun value last _ given => ?_
  exact bind (store (.define given frame handler.name)) fun _ _ _ _ =>
    confined.execAll frame handler.body.stmts trivial

theorem execGuarded (body : Block) (handler : Option Handler) (env : FrameId) :
    Exec.Confined heap .signal (engine.execGuarded body handler env) := by
  refine bind (confined.execBlock body env).attempt fun result next _ ended => ?_
  split
  · exact confined.handle _ ended env
  · exact settle ended

theorem execTry (body : Block) (handler : Option Handler) (cleanup : Option Block) (env : FrameId) :
    Exec.Confined heap .signal (engine.execTry body handler cleanup env) := by
  cases cleanup with
  | none => exact confined.execGuarded body handler env
  | some cleanup =>
      refine bind (confined.execGuarded body handler env).attempt fun result next _ ended => ?_
      refine bind (confined.execBlock cleanup env) fun signal last grown given => ?_
      split
      · refine settle ?_
        cases result with
        | ok signal => exact grown.knows ended
        | error fault => exact grown.known ended
      · exact pure given

/-! ### Modules -/

theorem runModule (found : Module) (env : FrameId) :
    Exec.Confined heap .none (engine.runModule found env) := by
  unfold Engine.runModule
  split
  · exact raise trivial
  · rename_i program _
    refine bind (store (.child env)) fun frame made _ _ => ?_
    refine bind (store (.setDir frame found.dir)) fun _ start _ _ => ?_
    have body : Exec.Confined start Heap.Knows (engine.execProgram frame program.body .nil) :=
      confined.execProgram frame program.body trivial
    exact bind (body.loading found.key) fun _ _ _ _ =>
      bind (keepModule found.key frame) fun _ _ _ _ => pure trivial

theorem openModule (found : Module) (env : FrameId) :
    Exec.Confined heap .none (engine.openModule found env) := by
  refine look fun _ _ _ => ?_
  split
  · exact raise trivial
  · refine look fun _ _ _ => ?_
    split
    · exact pure trivial
    · exact confined.runModule found env

theorem importModule (path : String) (name : Option String) (env : FrameId) :
    Exec.Confined heap .none (engine.importModule path name env) := by
  unfold Engine.importModule
  split
  · exact raise trivial
  · refine look fun _ _ _ => ?_
    split
    · exact raise trivial
    · refine bind (confined.openModule _ env) fun frame next _ _ => ?_
      refine look fun state here closed => ?_
      subst here
      have exports := closed.bindings frame
      split
      · exact bind (store (.newRecord (Heap.knowsAll_nil.insertAll exports)))
          fun record _ _ known => store (.set known env _)
      · exact store (.setAll env exports)

theorem execForm (stmt : Stmt) (env : FrameId) :
    Exec.Confined heap .signal (engine.execForm stmt env) := by
  cases stmt with
  | expr pos expr => exact bind (confined.eval heap expr env) fun value _ _ known => pure known
  | declare pos constant bindings =>
      exact bind (confined.declare constant env bindings) fun _ _ _ _ => pure trivial
  | destructure pos constant names value =>
      refine bind (confined.eval heap value env) fun value next _ known => ?_
      refine bind (store (.parts names value)) fun parts last _ given => ?_
      exact bind (store (.declareAll constant env given)) fun _ _ _ _ => pure trivial
  | assign pos target op value =>
      exact bind (confined.assign target op value env) fun value _ _ known => pure known
  | function pos fn =>
      exact bind (store (.newClosure _)) fun closure _ _ known =>
        bind (store (.set known env fn.label)) fun _ _ _ _ => pure trivial
  | class_ pos decl => exact bind (store (.declareClass decl env)) fun _ _ _ _ => pure trivial
  | if_ pos cond yes no =>
      refine bind (confined.eval heap cond env) fun answer next _ _ => ?_
      split
      · exact confined.execBlock yes env
      · split
        · exact confined.exec next _ env
        · exact pure trivial
  | while_ pos cond body => exact confined.execWhile cond body env pos
  | for_ pos init cond post body => exact confined.execFor init cond post body env pos
  | forIn pos name source body => exact confined.execForIn name source body env pos
  | block pos block => exact confined.execBlock block env
  | return_ pos value =>
      exact bind (confined.evalOption value env) fun value _ _ known => pure known
  | break_ pos => exact pure trivial
  | continue_ pos => exact pure trivial
  | try_ pos body handler cleanup => exact confined.execTry body handler cleanup env
  | throw_ pos value =>
      refine bind (confined.eval heap value env) fun value next _ known => ?_
      refine bind (store (.display value)) fun shown last grown _ => ?_
      have thrown : (Cause.thrown value shown).Known last := grown.knows known
      exact (raise thrown).traced.locate pos
  | import_ pos path name =>
      exact bind (confined.importModule path name env) fun _ _ _ _ => pure trivial

end Engine.Confined

theorem Engine.ofDepth_confined (loader : Option Loader) (depth : Nat) :
    (Engine.ofDepth loader depth).Confined := by
  induction depth with
  | zero => exact ⟨fun _ _ _ => .spent, fun _ _ _ => .spent, fun _ _ _ => .spent⟩
  | succ depth confined =>
      constructor
      · intro heap expr env
        rw [Engine.eval, Engine.perform_succ]
        exact (confined.evalForm expr env).locate expr.pos
      · intro heap stmt env
        rw [Engine.exec, Engine.perform_succ]
        exact (confined.execForm stmt env).locate stmt.pos
      · intro heap callee args pos known all
        rw [Engine.call, Engine.perform_succ]
        exact confined.callValue known all pos

/-! ## Visits of a host -/

theorem Store.Confined.install {heap : Heap} (env : FrameId) {natives : List Native}
    (free : ∀ native ∈ natives, native.values = []) :
    Store.Confined heap .none (Store.install env natives) := by
  induction natives generalizing heap with
  | nil => exact pure trivial
  | cons native rest ih =>
      simp only [List.mem_cons, forall_eq_or_imp] at free
      have held : heap.KnowsAll native.values := by
        rw [free.1]
        exact Heap.knowsAll_nil
      exact bind (newNative held) fun value next _ known =>
        bind (define known env native.label) fun _ _ _ _ => ih free.2

theorem Setup.heap_closed (setup : Setup) (free : ∀ native ∈ setup.natives, native.values = []) :
    setup.heap.Closed := by
  have root : (Store.newRoot setup.dir Heap.empty).2.Closed :=
    (Heap.closed_empty.pushFrame rfl).closed
  exact (Store.Confined.install globals free root).1.closed

/-- The values that a host hands over when it asks for something. -/
def Visit.given {α : Type} : Visit α → List Value
  | .callGlobal _ args _ => args
  | .callValue callee args _ => callee :: args
  | _ => []

namespace Engine.Confined

open Exec.Confined

variable {engine : Engine} {heap : Heap} (confined : engine.Confined)
include confined

theorem runProgram (program : Program) :
    Exec.Confined heap Heap.Knows (engine.runProgram program) :=
  bind (changeLimiter _) fun _ _ _ _ =>
    bind (store (.setDir globals program.baseDir)) fun _ _ _ _ =>
      confined.execProgram globals program.body trivial

theorem visit {α : Type} (visit : Visit α) (known : heap.KnowsAll visit.given) :
    Exec.Confined heap .none (engine.visit visit) := by
  cases visit with
  | run program => exact (confined.runProgram program).weaken fun _ _ _ => trivial
  | source text =>
      refine look fun _ _ _ => ?_
      split
      · exact pure trivial
      · exact bind (confined.runProgram _) fun _ _ _ _ => pure trivial
  | main =>
      refine look fun state here closed => ?_
      subst here
      split
      · rename_i main found
        split
        · exact bind (confined.call .unknown (closed.get? found) Heap.knowsAll_nil)
            fun _ _ _ _ => pure trivial
        · exact pure trivial
      · exact pure trivial
  | callGlobal name args pos =>
      refine look fun state here closed => ?_
      subst here
      have callee : state.heap.Knows ((state.heap.get? globals name).getD .nil) := by
        cases found : state.heap.get? globals name with
        | none => trivial
        | some value => exact closed.get? found
      exact (confined.call pos callee known).weaken fun _ _ _ => trivial
  | callValue callee args pos =>
      simp only [Visit.given, Heap.knowsAll_cons] at known
      exact (confined.call pos known.1 known.2).weaken fun _ _ _ => trivial

end Engine.Confined

theorem visit_closed (loader : Option Loader) (depth : Nat) {α : Type} (visit : Visit α)
    {state next : State} (closed : state.heap.Closed) (known : state.heap.KnowsAll visit.given)
    (left : ((Engine.ofDepth loader depth).visit visit state).state? = some next) :
    state.heap.GrownTo next.heap := by
  have ended := (Engine.ofDepth_confined loader depth).visit visit known closed state rfl
  cases outcome : (Engine.ofDepth loader depth).visit visit state with
  | done | fault =>
      rw [outcome] at ended left
      cases left
      exact ended.1
  | spent =>
      rw [outcome] at left
      cases left

end Rill

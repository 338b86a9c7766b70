import Rill.Proofs.Related

/-!
# Related calls

Calls of closures, blueprints, parents' methods and native functions are related when the bodies of
functions are. A function that is called was looked up in the heap, and so were the default values
of the fields of an instance.
-/

set_option autoImplicit false

namespace Rill

def InvokeRelated (permits : Permits) (R : Relation) (first second : Engine) : Prop :=
  ∀ fn, permits.function fn → ∀ env, permits.Scope env → ∀ args pos,
    R Value (first.invoke fn env args pos) (second.invoke fn env args pos)

/-- A relation passes through what is done while a parent's method is noted in a frame. -/
def DuringRelated (R : Relation) (env : FrameId) : Prop :=
  ∀ (method : MethodRef) {x y : Exec Value}, R Value x y →
    R Value (Exec.asMethod env method x) (Exec.asMethod env method y)

/-- A relation passes through the two ways in which a frame comes to know its method: a new frame
that is told at once, and an old one for as long as a parent's method runs in it. -/
structure MethodRelated (permits : Permits) (R : Relation) : Prop where
  fresh (env : FrameId) (method : Option MethodRef) {f g : FrameId → Exec Value}
    (inner : ∀ frame, permits.Fresh frame → R Value (f frame) (g frame)) :
    R Value
      (do
        let frame ← Store.child env
        Store.setMethod frame method
        f frame)
      (do
        let frame ← Store.child env
        Store.setMethod frame method
        g frame)
  during (env : FrameId) (held : permits.overwrites env) : DuringRelated R env

namespace Fields

variable {α : Type}

theorem mem_of_get? {fields : Fields α} {name : String} {value : α}
    (found : fields.get? name = some value) : ∃ entry ∈ fields.entries, entry.2 = value := by
  obtain ⟨before, after, split, -⟩ := List.lookup_eq_some_iff.mp found
  exact ⟨(name, value), by simp [split], rfl⟩

end Fields

namespace Heap.Holds

variable {permits : Permits} {heap : Heap}

theorem superMethod (holds : heap.Holds permits) {name : Option String}
    {called : String} {env frame : FrameId} {method : Method}
    (resolved : heap.superMethod name env = .ok (frame, called, method)) :
    permits.function method.fn := by
  simp only [Heap.superMethod] at resolved
  cases running : heap.methodFrame? env with
  | none => simp [running] at resolved
  | some context =>
      simp only [running] at resolved
      cases above : heap.blueprints[context.2.owner]?.bind Blueprint.parent with
      | none => simp [above] at resolved
      | some parent =>
          simp only [above] at resolved
          split at resolved
          · cases resolved
          · rename_i looked
            obtain ⟨blueprint, read, held⟩ := Option.bind_eq_some_iff.mp looked
            obtain ⟨entry, member, same⟩ := Fields.mem_of_get? held
            cases resolved
            rw [← same]
            exact holds.method _ blueprint read entry member

theorem constructor (holds : heap.Holds permits) {env : FrameId} {closure : Closure}
    (found : heap.constructor? env = some closure) : permits.function closure.fn := by
  simp only [Heap.constructor?] at found
  split at found
  · exact holds.closure _ closure found
  · cases found

end Heap.Holds

theorem MethodRelated.callClosure {permits : Permits} {R : Relation} {first second : Engine}
    (methods : MethodRelated permits R) (invokes : InvokeRelated permits R first second)
    (closure : Closure) (held : permits.function closure.fn) (args : List Value)
    (pos : Position) :
    R Value (first.callClosure closure args pos) (second.callClosure closure args pos) :=
  methods.fresh closure.env closure.method fun frame own =>
    invokes closure.fn held frame own.toScope args pos

def LookRelated (R : Relation) : Prop :=
  R Limiter (Exec.read fun state => state.limiter) (Exec.read fun state => state.limiter)

def ChangeRelated (R : Relation) (change : Limiter.Change) : Prop :=
  R Unit (Exec.changeLimiter change.apply) (Exec.changeLimiter change.apply)

theorem HostAct.only_of_all {kind : Limiter.Change → Prop} (all : ∀ change, kind change)
    (act : HostAct) : act.Only kind := by
  induction act with
  | give | refuse => trivial
  | change request next ih => exact ⟨all request, ih⟩
  | print text next ih => exact ih
  | look next ih | array items next ih | call callee args pos next ih => exact ih

namespace Compatible

variable {permits : Permits} {R : Relation} {first second : Engine}
variable (compatible : Compatible permits R)
include compatible

/-! ## Bodies of functions -/

theorem execAll {env : FrameId} (held : permits.frame env) (stmts : List Stmt) (last : Value)
    (inner : ∀ part ∈ stmts, ExecRelated permits R first second part) :
    R Signal (first.execAll env stmts last) (second.execAll env stmts last) := by
  induction stmts generalizing last with
  | nil => exact compatible.pure _
  | cons stmt rest ih =>
      simp only [List.mem_cons, forall_eq_or_imp] at inner
      refine compatible.bind (inner.1 env fun _ => held) fun signal => ?_
      cases signal with
      | normal value => exact ih value inner.2
      | _ => exact compatible.pure _

theorem execBlock (block : Block) (env : FrameId)
    (inner : ∀ part ∈ block.stmts, ExecRelated permits R first second part) :
    R Signal (first.execBlock block env) (second.execBlock block env) :=
  compatible.child env fun _ held => compatible.execAll held.frame block.stmts .nil inner

theorem execProgram {env : FrameId} (held : permits.frame env) (stmts : List Stmt) (last : Value)
    (inner : ∀ part ∈ stmts, ExecRelated permits R first second part) :
    R Value (first.execProgram env stmts last) (second.execProgram env stmts last) := by
  induction stmts generalizing last with
  | nil => exact compatible.pure last
  | cons stmt rest ih =>
      simp only [List.mem_cons, forall_eq_or_imp] at inner
      refine compatible.bind (inner.1 env fun _ => held) fun signal => ?_
      cases signal with
      | normal value => exact ih value inner.2
      | return_ value => exact compatible.pure value
      | break_ | continue_ => exact ih last inner.2

theorem bindParams {env : FrameId} (held : permits.overwrites env) (params : List Binding)
    (args : List Value)
    (inner : ∀ part ∈ params.filterMap Binding.value, EvalRelated R first second part) :
    R Unit (first.bindParams env params args) (second.bindParams env params args) := by
  induction params generalizing args with
  | nil => exact compatible.pure ()
  | cons param rest ih =>
      have others : ∀ part ∈ rest.filterMap Binding.value, EvalRelated R first second part := by
        intro part member
        obtain ⟨binding, place, given⟩ := List.mem_filterMap.mp member
        exact inner part (List.mem_filterMap.mpr ⟨binding, List.mem_cons_of_mem _ place, given⟩)
      cases args with
      | cons arg args =>
          exact compatible.bind (compatible.store (.define held param.name arg)) fun _ =>
            ih args others
      | nil =>
          have default : ∀ part ∈ param.value.toList, EvalRelated R first second part := by
            intro part member
            rw [Option.mem_toList] at member
            exact inner part (List.mem_filterMap.mpr ⟨param, by simp, member⟩)
          exact compatible.bind (compatible.evalOption param.value env default) fun value =>
            compatible.bind (compatible.store (.define held param.name value)) fun _ =>
              ih [] others

theorem runBody {env : FrameId} (held : permits.frame env) (body : Body)
    (exprs : ∀ expr, body = .value expr → EvalRelated R first second expr)
    (stmts : ∀ block, body = .block block →
      ∀ part ∈ block.stmts, ExecRelated permits R first second part) :
    R Value (first.runBody body env) (second.runBody body env) := by
  cases body with
  | value expr => exact exprs expr rfl env
  | block block =>
      exact compatible.bind (compatible.execAll held block.stmts .nil (stmts block rfl))
        fun _ => compatible.pure _

theorem enter (fn : Function) {env : FrameId} (held : permits.Scope env) (args : List Value)
    (exprs : ∀ part ∈ fn.exprs, EvalRelated R first second part)
    (stmts : ∀ part ∈ fn.stmts, ExecRelated permits R first second part) :
    R Value
      (do
        first.bindParams env fn.params args
        first.runBody fn.body env)
      (do
        second.bindParams env fn.params args
        second.runBody fn.body env) := by
  simp only [Function.exprs, List.mem_append] at exprs
  refine compatible.bind (compatible.bindParams held.overwrites fn.params args
    fun part member => exprs part (Or.inl member)) fun _ => ?_
  refine compatible.runBody held.frame fn.body (fun expr same => ?_) fun block same => ?_
  · exact exprs expr (Or.inr (by simp [same]))
  · simpa only [Function.stmts, same] using stmts

/-! ## Instances and methods -/

theorem defineFields {env : FrameId} (held : permits.overwrites env)
    (fields : List (String × Option Expr))
    (inner : ∀ entry ∈ fields, ∀ part ∈ entry.2.toList, EvalRelated R first second part) :
    R Unit (first.defineFields env fields) (second.defineFields env fields) := by
  induction fields with
  | nil => exact compatible.pure ()
  | cons entry rest ih =>
      simp only [List.mem_cons, forall_eq_or_imp] at inner
      exact compatible.bind (compatible.evalOption entry.2 env inner.1) fun value =>
        compatible.bind (compatible.store (.define held entry.1 value)) fun _ => ih inner.2

theorem instantiate (methods : MethodRelated permits R)
    (invokes : InvokeRelated permits R first second)
    (defaults : ∀ expr, permits.default expr → EvalRelated R first second expr)
    (id : BlueprintId) (args : List Value) (pos : Position) :
    R Value (first.instantiate id args pos) (second.instantiate id args pos) := by
  refine compatible.lookUp (fun heap => heap.blueprints[id]?) fun heap holds => ?_
  cases found : heap.blueprints[id]? with
  | none => exact compatible.pure _
  | some blueprint =>
      have fields : ∀ entry ∈ blueprint.fields.entries, ∀ part ∈ entry.2.toList,
          EvalRelated R first second part := by
        intro entry member part given
        rw [Option.mem_toList] at given
        exact defaults part (holds.field id blueprint found entry member part given)
      refine compatible.child _ fun frame held => ?_
      refine compatible.bind (compatible.defineFields held.overwrites _ fields) fun _ => ?_
      refine compatible.bind (compatible.store
        (.defineMethods held.overwrites _ (holds.method id blueprint found))) fun _ => ?_
      refine compatible.bind (compatible.store (.newObject _ held.moves)) fun object => ?_
      refine compatible.bind (compatible.store (.define held.overwrites "self" object)) fun _ => ?_
      refine compatible.bind (compatible.store (.define held.overwrites "this" object)) fun _ => ?_
      refine compatible.lookUp (fun heap => heap.constructor? frame) fun later holds => ?_
      cases made : later.constructor? frame with
      | none => exact compatible.pure object
      | some constructor =>
          exact compatible.bind (methods.callClosure invokes constructor
            (holds.constructor made) args pos) fun _ => compatible.pure object

theorem callSuper (during : ∀ env, DuringRelated R env)
    (invokes : ∀ fn, permits.function fn → ∀ env args pos,
      R Value (first.invoke fn env args pos) (second.invoke fn env args pos)) :
    SuperRelated R first second := by
  intro name args env pos
  refine compatible.lookUp (fun heap => heap.superMethod name env) fun heap holds => ?_
  cases resolved : heap.superMethod name env with
  | error problem => exact compatible.locate pos (compatible.raise _ rfl)
  | ok found =>
      obtain ⟨frame, called, method⟩ := found
      exact during frame _
        (invokes method.fn (holds.superMethod resolved) frame args pos)

/-! ## Native functions -/

theorem gather {σ : Type} (fn : Value) (step : σ → Value → Value → σ) (items : List Value)
    (index : Nat) (done : σ) (calls : CallRelated R first second) :
    R σ (first.gather fn step items index done) (second.gather fn step items index done) := by
  induction items generalizing index done with
  | nil => exact compatible.pure done
  | cons item rest ih =>
      exact compatible.bind (calls fn _ .unknown) fun result => ih (index + 1) _

theorem reduce (fn : Value) (items : List Value) (result : Value)
    (calls : CallRelated R first second) :
    R Value (first.reduce fn items result) (second.reduce fn items result) := by
  induction items generalizing result with
  | nil => exact compatible.pure result
  | cons item rest ih => exact compatible.bind (calls fn _ .unknown) fun next => ih next

theorem find (fn : Value) (items : List Value) (calls : CallRelated R first second) :
    R Value (first.find fn items) (second.find fn items) := by
  induction items with
  | nil => exact compatible.pure _
  | cons item rest ih =>
      refine compatible.bind (calls fn _ .unknown) fun answer => ?_
      split
      · exact compatible.pure item
      · exact ih

theorem callArray (method : ArrayMethod) (name : String) (id : Nat) (args : List Value)
    (effects : permits.effects) (calls : CallRelated R first second) :
    R Value (first.callArray method name id args) (second.callArray method name id args) := by
  have elements : R (Array Value) (liftM (Store.array id)) (liftM (Store.array id)) :=
    compatible.store (.read _)
  have function : R Value (liftM (Native.function name (Native.arg args 0)))
      (liftM (Native.function name (Native.arg args 0))) := compatible.store (.function name _)
  cases method with
  | count | indexOf | contains =>
      exact compatible.bind elements fun items => compatible.pure _
  | push =>
      exact compatible.bind (compatible.store (.changeArray id _ effects)) fun _ =>
        compatible.bind elements fun items => compatible.pure _
  | pop =>
      exact compatible.bind elements fun items =>
        compatible.bind (compatible.store (.changeArray id _ effects)) fun _ => compatible.pure _
  | map | filter =>
      exact compatible.bind function fun fn => compatible.bind elements fun items =>
        compatible.bind (compatible.gather fn _ _ 0 #[] calls) fun results =>
          compatible.store (.newArray results)
  | each =>
      exact compatible.bind function fun fn => compatible.bind elements fun items =>
        compatible.bind (compatible.gather fn _ _ 0 () calls) fun _ => compatible.pure _
  | find =>
      exact compatible.bind function fun fn => compatible.bind elements fun items =>
        compatible.find fn _ calls
  | reduce =>
      refine compatible.bind function fun fn => compatible.bind elements fun items => ?_
      split
      · exact compatible.reduce fn _ _ calls
      · exact compatible.reduce fn _ _ calls
      · exact compatible.store (.mismatch _)
  | join =>
      have pieces : ∀ separator : String, R Value
          (do
            let pieces ← Exec.read fun state =>
              (state.heap.array id).toList.map state.heap.display
            return .text (separator.intercalate pieces))
          (do
            let pieces ← Exec.read fun state =>
              (state.heap.array id).toList.map state.heap.display
            return .text (separator.intercalate pieces)) := by
        intro separator
        exact compatible.lookUp (fun heap => (heap.array id).toList.map heap.display)
          fun heap _ => compatible.pure _
      simp only [Engine.callArray]
      split
      · exact compatible.bind (compatible.store (.text name _)) fun separator =>
          pieces separator
      · exact pieces ","
  | reverse => exact compatible.bind elements fun items => compatible.store (.newArray _)
  | slice =>
      exact compatible.bind elements fun items =>
        compatible.bind (compatible.store (.bound _ _ _)) fun start =>
          compatible.bind (compatible.store (.bound _ _ _)) fun stop =>
            compatible.store (.newArray _)

theorem ofBuiltin (fn : Builtin) (args : List Value) (effects : permits.effects) :
    R Value (Native.ofBuiltin fn args) (Native.ofBuiltin fn args) := by
  cases fn with
  | print =>
      exact compatible.lookUp (fun heap => args.map heap.display) fun heap _ =>
        compatible.bind (compatible.print effects _) fun _ => compatible.pure _
  | len => exact compatible.store (.length args)
  | typeOf => exact compatible.pure _
  | str => exact compatible.bind (compatible.store (.display _)) fun shown => compatible.pure _
  | keys => exact compatible.store (.fieldNames args)
  | instanceOf => exact compatible.store (.isInstance args)

/-- What a function of the host does is related when it looks at the limiter and changes it in related
ways. -/
theorem act {kind : Limiter.Change → Prop} (effects : permits.effects)
    (calls : CallRelated R first second) (looks : LookRelated R)
    (changes : ∀ change, kind change → ChangeRelated R change) (act : HostAct) (only : act.Only kind) :
    R Value (first.act act) (second.act act) := by
  induction act with
  | give value => exact compatible.pure value
  | refuse message => exact compatible.store (.mismatch _)
  | change request next ih =>
      exact compatible.bind (changes request only.1) fun _ => ih only.2
  | look next ih => exact compatible.bind looks fun limiter => ih limiter (only limiter)
  | print text next ih => exact compatible.bind (compatible.print effects text) fun _ => ih only
  | array items next ih =>
      exact compatible.bind (compatible.store (.newArray _)) fun answer => ih answer (only answer)
  | call callee args pos next ih =>
      exact compatible.bind (calls callee args pos) fun answer => ih answer (only answer)

theorem callNative (native : Native) (args : List Value) (effects : permits.effects)
    (calls : CallRelated R first second)
    (supers : ∀ name env pos, native = .superCall name env pos →
      R Value (first.callSuper name args env pos) (second.callSuper name args env pos))
    (hosts : ∀ fn, native = .host fn →
      R Value (first.act (fn.body args)) (second.act (fn.body args))) :
    R Value (first.callNative native args) (second.callNative native args) := by
  cases native with
  | builtin fn => exact compatible.ofBuiltin fn args effects
  | host fn => exact hosts fn rfl
  | ofArray method name id => exact compatible.callArray method name id args effects calls
  | ofText method name receiver => exact compatible.store (.ofTextResult method name receiver args)
  | partialCall callee slots pos =>
      simp only [Engine.callNative]
      split
      · exact calls callee _ pos
      · exact compatible.store (.newNative _ (by intro host; cases host) nofun)
  | superCall name env pos => exact supers name env pos rfl
  | echo name => exact compatible.store (.newArray _)

theorem callValue (methods : MethodRelated permits R)
    (invokes : InvokeRelated permits R first second)
    (defaults : ∀ expr, permits.default expr → EvalRelated R first second expr)
    (callee : Value) (args : List Value) (pos : Position)
    (natives : ∀ id native, callee = .native id → permits.Native native → R Value
      (Exec.called native.label pos (first.callNative native args))
      (Exec.called native.label pos (second.callNative native args))) :
    R Value (first.callValue callee args pos) (second.callValue callee args pos) := by
  cases callee with
  | native id =>
      refine compatible.lookUp (fun heap => heap.natives[id]?) fun heap holds => ?_
      cases found : heap.natives[id]? with
      | none => exact compatible.pure _
      | some native =>
          exact compatible.locate pos (natives id native rfl (holds.native id native found))
  | closure id =>
      refine compatible.lookUp (fun heap => heap.closures[id]?) fun heap holds => ?_
      cases found : heap.closures[id]? with
      | none => exact compatible.pure _
      | some closure =>
          exact methods.callClosure invokes closure (holds.closure id closure found) args pos
  | blueprint id => exact compatible.instantiate methods invokes defaults id args pos
  | _ => exact compatible.locate pos (compatible.raise _ rfl)

end Compatible

end Rill

import Rill.Proofs.Ordinary
import Rill.Proofs.Parts

/-!
# Related evaluations

A relation between executions is compatible when it passes from the parts of an execution to the
whole. Two engines that perform jobs in related ways then evaluate in related ways. This is shown
here for every form of expression and statement, for calls and for imports, so that a property of
all evaluations is a property of the few ways in which executions are put together.

A form asks only for the parts it comes to and, if it is a call, for calls. A property of one
engine is a relation that looks at one side only.
-/

set_option autoImplicit false

namespace Rill

abbrev Relation := (α : Type) → Exec α → Exec α → Prop

/-- A relation that passes from the parts of an execution to the whole, as long as the heap holds
what it may. Names may be bound in new frames. -/
structure Compatible (permits : Permits) (R : Relation) : Prop where
  pure {α : Type} (a : α) : R α (pure a) (pure a)
  bind {α β : Type} {x y : Exec α} {f g : α → Exec β} (first : R α x y)
    (second : ∀ a, R β (f a) (g a)) : R β (x >>= f) (y >>= g)
  raise {α : Type} (cause : Cause) (own : cause.isLimit = false) :
    R α (Exec.raise cause) (Exec.raise cause)
  locate {α : Type} (pos : Position) {x y : Exec α} (inner : R α x y) :
    R α (Exec.locate pos x) (Exec.locate pos y)
  child {α : Type} (env : FrameId) {f g : FrameId → Exec α}
    (inner : ∀ frame, permits.Fresh frame → R α (f frame) (g frame)) :
    R α (liftM (Store.child env) >>= f) (liftM (Store.child env) >>= g)
  store {α : Type} {x : Store α} (ordinary : Store.Ordinary permits x) : R α (liftM x) (liftM x)
  lookUp {α β : Type} (f : Heap → α) {g h : α → Exec β}
    (found : ∀ heap : Heap, heap.Holds permits → R β (g (f heap)) (h (f heap))) :
    R β (Exec.read (fun state => f state.heap) >>= g)
      (Exec.read (fun state => f state.heap) >>= h)
  print (effects : permits.effects) (text : String) :
    R Unit (Exec.print text) (Exec.print text)

def EvalRelated (R : Relation) (first second : Engine) (expr : Expr) : Prop :=
  ∀ env, R Value (first.eval expr env) (second.eval expr env)

/-- Two engines run a statement in related ways, in frames in which names may be bound if it
declares some. -/
def ExecRelated (permits : Permits) (R : Relation) (first second : Engine) (stmt : Stmt) : Prop :=
  ∀ env, (stmt.declares = true → permits.frame env) →
    R Signal (first.exec stmt env) (second.exec stmt env)

def CallRelated (R : Relation) (first second : Engine) : Prop :=
  ∀ callee args pos, R Value (first.call callee args pos) (second.call callee args pos)

def SuperRelated (R : Relation) (first second : Engine) : Prop :=
  ∀ name args env pos, R Value (first.callSuper name args env pos)
    (second.callSuper name args env pos)

def TickRelated (R : Relation) : Prop :=
  ∀ kind pos, R Unit (Exec.tick kind pos) (Exec.tick kind pos)

/-- Passes of loops are related when their bodies are. The limiter is asked right before a body. -/
def PassRelated (R : Relation) : Prop :=
  ∀ (kind : BreachKind) (pos : Position) {α : Type} {x y : Exec α}, R α x y →
    R α (Exec.tick kind pos >>= fun _ => x) (Exec.tick kind pos >>= fun _ => y)

namespace Compatible

variable {permits : Permits} {R : Relation} {first second : Engine}

/-! ## Expressions -/

section Expressions

variable (compatible : Compatible permits R)
include compatible

theorem passRelated (ticks : TickRelated R) : PassRelated R :=
  fun kind pos _ _ _ inner => compatible.bind (ticks kind pos) fun _ => inner

theorem evalOption (expr : Option Expr) (env : FrameId)
    (inner : ∀ part ∈ expr.toList, EvalRelated R first second part) :
    R Value (first.evalOption expr env) (second.evalOption expr env) := by
  cases expr with
  | none => exact compatible.pure _
  | some expr => exact inner expr (by simp) env

theorem evalTemplate (env : FrameId) (parts : List TemplatePart) (done : String)
    (inner : ∀ part ∈ parts.flatMap TemplatePart.exprs, EvalRelated R first second part) :
    R Value (first.evalTemplate env parts done) (second.evalTemplate env parts done) := by
  induction parts generalizing done with
  | nil => exact compatible.pure _
  | cons part rest ih =>
      simp only [List.flatMap_cons, List.mem_append] at inner
      have others := fun done => ih done fun part member => inner part (Or.inr member)
      cases part with
      | text text => exact others _
      | hole expr =>
          exact compatible.bind (inner expr (Or.inl (by simp [TemplatePart.exprs])) env)
            fun value => compatible.bind (compatible.store (.display value)) fun shown => others _

theorem evalItem (env : FrameId) (item : Expr) (inner : EvalRelated R first second item.bare) :
    R (List Value) (first.evalItem env item) (second.evalItem env item) := by
  cases item with
  | spread pos expr =>
      exact compatible.bind (inner env) fun value =>
        compatible.locate pos (compatible.store (.spreadItems value))
  | _ => exact compatible.bind (inner env) fun value => compatible.pure _

theorem evalItems (env : FrameId) (items : List Expr) (done : Array Value)
    (inner : ∀ part ∈ items.map Expr.bare, EvalRelated R first second part) :
    R (Array Value) (first.evalItems env items done) (second.evalItems env items done) := by
  induction items generalizing done with
  | nil => exact compatible.pure done
  | cons item rest ih =>
      simp only [List.map_cons, List.mem_cons, forall_eq_or_imp] at inner
      exact compatible.bind (compatible.evalItem env item inner.1) fun values => ih _ inner.2

theorem evalArgs (args : List Expr) (env : FrameId)
    (inner : ∀ part ∈ args.map Expr.bare, EvalRelated R first second part) :
    R (List Value) (first.evalArgs args env) (second.evalArgs args env) :=
  compatible.bind (compatible.evalItems env args #[] inner) fun _ => compatible.pure _

theorem evalKey (env : FrameId) (key : Key)
    (inner : ∀ part ∈ key.exprs, EvalRelated R first second part) :
    R String (first.evalKey env key) (second.evalKey env key) := by
  cases key with
  | name text => exact compatible.pure text
  | computed expr =>
      exact compatible.bind (inner expr (by simp [Key.exprs]) env) fun value =>
        compatible.store (.keyText value)

theorem evalEntries (env : FrameId) (entries : List Entry) (done : Fields Value)
    (inner : ∀ part ∈ entries.flatMap Entry.exprs, EvalRelated R first second part) :
    R (Fields Value) (first.evalEntries env entries done)
      (second.evalEntries env entries done) := by
  induction entries generalizing done with
  | nil => exact compatible.pure done
  | cons entry rest ih =>
      simp only [List.flatMap_cons, List.mem_append] at inner
      have others := fun done => ih done fun part member => inner part (Or.inr member)
      cases entry with
      | field key value =>
          have keyInner : ∀ part ∈ key.exprs, EvalRelated R first second part := by
            intro part member
            exact inner part (Or.inl (by simp [Entry.exprs, member]))
          exact compatible.bind (compatible.evalKey env key keyInner) fun name =>
            compatible.bind (inner value (Or.inl (by simp [Entry.exprs])) env) fun value =>
              others _
      | spread source =>
          exact compatible.bind (inner source (Or.inl (by simp [Entry.exprs])) env) fun value =>
            compatible.bind (compatible.locate _ (compatible.store (.spreadFields value)))
              fun fields => others _

theorem evalBinary (op : BinaryOp) (left right : Expr) (env : FrameId)
    (leftRelated : EvalRelated R first second left)
    (rightRelated : EvalRelated R first second right)
    (calls : op = .pipe → CallRelated R first second) :
    R Value (first.evalBinary op left right env) (second.evalBinary op left right env) := by
  refine compatible.bind (leftRelated env) fun value => ?_
  cases op with
  | and | or =>
      dsimp only
      split
      · first
          | exact rightRelated env
          | exact compatible.pure value
      · first
          | exact rightRelated env
          | exact compatible.pure value
  | coalesce =>
      dsimp only
      split
      · exact rightRelated env
      · exact compatible.pure value
  | pipe =>
      exact compatible.bind (rightRelated env) fun callee => calls rfl callee [value] right.pos
  | _ =>
      exact compatible.bind (rightRelated env) fun other =>
        compatible.store (.binary _ value other)

theorem evalSlots (env : FrameId) (items : List Expr) (done : List (Option Value))
    (inner : ∀ part ∈ items.map Expr.bare, EvalRelated R first second part) :
    R (List (Option Value)) (first.evalSlots env items done)
      (second.evalSlots env items done) := by
  induction items generalizing done with
  | nil => exact compatible.pure done
  | cons item rest ih =>
      simp only [List.map_cons, List.mem_cons, forall_eq_or_imp] at inner
      unfold Engine.evalSlots
      split
      · exact ih _ inner.2
      · exact compatible.bind (compatible.evalItem env item inner.1) fun values => ih _ inner.2

theorem apply (callee : Value) (args : List Expr) (env : FrameId) (pos : Position)
    (inner : ∀ part ∈ args.map Expr.bare, EvalRelated R first second part)
    (calls : CallRelated R first second) :
    R Value (first.apply callee args env pos) (second.apply callee args env pos) := by
  unfold Engine.apply
  split
  · split
    · exact compatible.bind (compatible.evalSlots env args [] inner) fun slots =>
        compatible.store (.newNative _ (by intro host; cases host) nofun)
    · exact compatible.locate pos (compatible.store (.mismatch _))
  · exact compatible.bind (compatible.evalArgs args env inner) fun values =>
      calls callee values pos

theorem evalMember (object : Expr) (name : String) (optional : Bool) (env : FrameId)
    {use other : Store Value → Exec Value} (objectRelated : EvalRelated R first second object)
    (uses : ∀ value, R Value (use (Access.getMember value name))
      (other (Access.getMember value name))) :
    R Value (first.evalMember object name optional env use)
      (second.evalMember object name optional env other) := by
  refine compatible.bind (objectRelated env) fun value => ?_
  split
  · exact compatible.pure _
  · exact uses value

theorem evalCall (callee : Expr) (args : List Expr) (env : FrameId) (pos : Position)
    (calleeInner : ∀ part ∈ callee.calleeNeeds, EvalRelated R first second part)
    (inner : ∀ part ∈ args.map Expr.bare, EvalRelated R first second part)
    (calls : CallRelated R first second)
    (supers : callee.isSuper = true → SuperRelated R first second) :
    R Value (first.evalCall callee args env pos) (second.evalCall callee args env pos) := by
  cases callee with
  | super_ at_ name =>
      exact compatible.bind (compatible.evalArgs args env inner) fun values =>
        supers rfl name values env pos
  | member at_ object name optional =>
      simp only [Engine.evalCall]
      refine compatible.evalMember object name optional env
        (calleeInner object (by simp [Expr.calleeNeeds])) fun value => ?_
      exact compatible.bind (compatible.locate at_ (compatible.store (.getMember value name)))
        fun member => compatible.apply member args env pos inner calls
  | _ =>
      exact compatible.bind (calleeInner _ (by simp [Expr.calleeNeeds]) env) fun value =>
        compatible.apply value args env pos inner calls

theorem evalArms (value : Value) (env : FrameId) (arms : List Arm)
    (inner : ∀ part ∈ arms.flatMap Arm.exprs, EvalRelated R first second part) :
    R Value (first.evalArms value env arms) (second.evalArms value env arms) := by
  induction arms with
  | nil =>
      exact compatible.lookUp (fun heap => heap.inspect value) fun heap _ =>
        compatible.raise _ rfl
  | cons arm rest ih =>
      simp only [List.flatMap_cons, List.mem_append] at inner
      have others := ih fun part member => inner part (Or.inr member)
      have body := inner arm.body (Or.inl (by simp [Arm.exprs]))
      refine compatible.child env fun frame held => ?_
      refine compatible.bind (compatible.store (.matchBind held.overwrites arm.pattern value))
        fun fitting => ?_
      split
      · split
        · exact body frame
        · rename_i guard given
          have guarded := inner guard (Or.inl (by simp [Arm.exprs, given]))
          refine compatible.bind (guarded frame) fun answer => ?_
          split
          · exact body frame
          · exact others
      · exact others

theorem foldlM {α σ : Type} {f g : σ → α → Exec σ} (items : List α) (done : σ)
    (steps : ∀ done item, R σ (f done item) (g done item)) :
    R σ (items.foldlM f done) (items.foldlM g done) := by
  induction items generalizing done with
  | nil => exact compatible.pure done
  | cons item rest ih =>
      simp only [List.foldlM_cons]
      exact compatible.bind (steps done item) fun next => ih next

theorem comprehend {σ : Type} {emit other : FrameId → σ → Exec σ} (pos : Position)
    (clauses : List Clause) (env : FrameId) (done : σ)
    (inner : ∀ part ∈ clauses.map Clause.expr, EvalRelated R first second part)
    (emits : ∀ frame done, R σ (emit frame done) (other frame done)) (passes : PassRelated R) :
    R σ (first.comprehend emit pos clauses env done)
      (second.comprehend other pos clauses env done) := by
  induction clauses generalizing env done with
  | nil => exact emits env done
  | cons clause rest ih =>
      simp only [List.map_cons, List.mem_cons, forall_eq_or_imp] at inner
      cases clause with
      | each name source =>
          refine compatible.bind (inner.1 env) fun value => ?_
          refine compatible.bind (compatible.store (.elements value)) fun items => ?_
          refine compatible.foldlM items done fun done item => ?_
          exact passes .forIn pos <|
            compatible.child env fun frame held =>
              compatible.bind (compatible.store (.define held.overwrites name item)) fun _ =>
                ih frame done inner.2
      | only cond =>
          refine compatible.bind (inner.1 env) fun answer => ?_
          split
          · exact ih env done inner.2
          · exact compatible.pure done

theorem evalForm (expr : Expr) (env : FrameId)
    (needs : ∀ part ∈ expr.needs, EvalRelated R first second part)
    (functions : ∀ fn ∈ expr.functions, permits.function fn)
    (calls : expr.isCall = true → CallRelated R first second)
    (supers : expr.isSuperCall = true → SuperRelated R first second)
    (parent : expr.isSuper = true → permits.default expr)
    (passes : PassRelated R) : R Value (first.evalForm expr env) (second.evalForm expr env) := by
  cases expr with
  | literal pos literal => exact compatible.pure _
  | template pos parts => exact compatible.evalTemplate env parts "" needs
  | ident pos name => exact compatible.store (.get env name)
  | array pos items =>
      exact compatible.bind (compatible.evalItems env items #[] needs) fun values =>
        compatible.store (.newArray values)
  | record pos entries =>
      exact compatible.bind (compatible.evalEntries env entries .empty needs) fun fields =>
        compatible.store (.newRecord fields)
  | binary pos op left right =>
      simp only [Expr.needs, List.mem_cons, List.not_mem_nil, or_false, forall_eq_or_imp,
        forall_eq] at needs
      exact compatible.evalBinary op left right env needs.1 needs.2 fun pipe =>
        calls (by simp [Expr.isCall, pipe])
  | unary pos op operand =>
      simp only [Expr.needs, List.mem_singleton, forall_eq] at needs
      exact compatible.bind (needs env) fun value => compatible.store (.unary op value)
  | ternary pos cond yes no =>
      simp only [Expr.needs, List.mem_cons, List.not_mem_nil, or_false, forall_eq_or_imp,
        forall_eq] at needs
      refine compatible.bind (needs.1 env) fun answer => ?_
      split
      · exact needs.2.1 env
      · exact needs.2.2 env
  | call pos callee args =>
      simp only [Expr.needs, List.mem_append] at needs
      exact compatible.evalCall callee args env pos
        (fun part member => needs part (Or.inl member))
        (fun part member => needs part (Or.inr member)) (calls rfl) supers
  | member pos object name optional =>
      simp only [Expr.needs, List.mem_singleton, forall_eq] at needs
      exact compatible.evalMember object name optional env needs fun value =>
        compatible.store (.getMember value name)
  | index pos object place =>
      simp only [Expr.needs, List.mem_cons, List.not_mem_nil, or_false, forall_eq_or_imp,
        forall_eq] at needs
      exact compatible.bind (needs.1 env) fun owner =>
        compatible.bind (needs.2 env) fun key => compatible.store (.getIndex owner key)
  | function pos fn =>
      exact compatible.store (.newClosure _ (functions fn (by simp [Expr.functions])))
  | spread pos inner => exact compatible.store (.mismatch _)
  | match_ pos subject arms =>
      simp only [Expr.needs, List.mem_cons, forall_eq_or_imp] at needs
      exact compatible.bind (needs.1 env) fun value =>
        compatible.evalArms value env arms needs.2
  | arrayOf pos element clauses =>
      simp only [Expr.needs, List.mem_cons, forall_eq_or_imp] at needs
      refine compatible.bind (compatible.comprehend pos clauses env #[] needs.2
        (fun frame done => ?_) passes) fun items => compatible.store (.newArray items)
      exact compatible.bind (needs.1 frame) fun _ => compatible.pure _
  | recordOf pos key value clauses =>
      simp only [Expr.needs, List.mem_cons, forall_eq_or_imp] at needs
      refine compatible.bind (compatible.comprehend pos clauses env Fields.empty needs.2.2
        (fun frame done => ?_) passes) fun fields => compatible.store (.newRecord fields)
      have keyRelated := compatible.evalKey frame (.computed key)
        (by simpa [Key.exprs] using needs.1)
      exact compatible.bind keyRelated fun _ =>
        compatible.bind (needs.2.1 frame) fun _ => compatible.pure _
  | super_ pos name =>
      refine compatible.store (.newNative _ (by intro host; cases host) fun expr held => ?_)
      cases held
      exact parent rfl

end Expressions

end Compatible

end Rill

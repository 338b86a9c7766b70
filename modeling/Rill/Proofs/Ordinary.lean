import Rill.Eval.Statement

/-!
# Ordinary operations on the heap

Evaluation touches the heap only through operations that are built from a few steps: new cells,
writes of variables, elements and fields, and look-ups. `Ordinary` names them. What the steps keep,
every operation of the evaluator keeps, and a property of all of them is one induction.

The one step that is left out notes which method runs in a frame: calls take care of that
themselves.
-/

set_option autoImplicit false

namespace Rill

namespace Cause

def isLimit : Cause → Bool
  | limit _ => true
  | _ => false

end Cause

namespace Native

def isHost : Native → Bool
  | host _ => true
  | _ => false

def super? : Native → Option Expr
  | superCall name _ pos => some (.super_ pos name)
  | _ => none

end Native

/-- What evaluation may do to a heap: the functions of closures and methods, and the default values
of fields and the `super` of native functions, that it may put there, whether functions of the host may be among the native ones, the
frames in which it may declare names, those in which it may bind names whatever they stood for,
those that it may give to an instance or a directory, and whether it may have other effects: on what
cells hold, and on what is printed. -/
structure Permits where
  function : Function → Prop
  default : Expr → Prop
  hosts : Prop
  frame : FrameId → Prop
  overwrites : FrameId → Prop
  moves : FrameId → Prop
  effects : Prop

namespace Permits

variable (permits : Permits)

def Native (native : Rill.Native) : Prop := native.isHost = true → permits.hosts

def Default (value : Option Expr) : Prop := ∀ expr, value = some expr → permits.default expr

def Class (decl : ClassDecl) : Prop :=
  (∀ field ∈ decl.fields, permits.Default field.value) ∧
    ∀ fn ∈ decl.methods, permits.function fn

/-- A frame in which a function may run. -/
structure Scope (env : FrameId) : Prop where
  frame : permits.frame env
  overwrites : permits.overwrites env

/-- A frame that nothing else knows yet. -/
structure Fresh (env : FrameId) : Prop extends permits.Scope env where
  moves : permits.moves env

def anyCode (hosts : Prop) : Permits :=
  ⟨fun _ => True, fun _ => True, hosts, fun _ => True, fun _ => True, fun _ => True, True⟩

end Permits

namespace Store

variable {permits : Permits}

/-- Operations that bind a name. All but the first respect what the name stood for or write into an
instance. -/
inductive Write (permits : Permits) : Store Unit → Prop where
  | define (env : FrameId) (name : String) (value : Value) (held : permits.overwrites env) :
      Write permits (define env name value)
  | set (env : FrameId) (name : String) (value : Value) (held : permits.frame env) :
      Write permits (set env name value)
  | setConst (env : FrameId) (name : String) (value : Value) (held : permits.frame env) :
      Write permits (setConst env name value)
  | update (env : FrameId) (name : String) (value : Value) (held : permits.effects) :
      Write permits (update env name value)
  | setField (id : Nat) (name : String) (value : Value) (held : permits.effects) :
      Write permits (Access.setMember (.object id) name value)

/-- Operations that are built from new cells, writes and look-ups. -/
inductive Ordinary (permits : Permits) : {α : Type} → Store α → Prop where
  | pure {α : Type} (a : α) : Ordinary permits (pure a : Store α)
  | bind {α β : Type} {x : Store α} {f : α → Store β} (first : Ordinary permits x)
      (second : ∀ a, Ordinary permits (f a)) : Ordinary permits (x >>= f)
  | fail {α : Type} (cause : Cause) (own : cause.isLimit = false) :
      Ordinary permits (fail cause : Store α)
  | read {α : Type} (f : Heap → α) : Ordinary permits (read f)
  | newArray (items : Array Value) : Ordinary permits (newArray items)
  | newRecord (fields : Fields Value) : Ordinary permits (newRecord fields)
  | newNative (native : Native) (held : permits.Native native)
      (parent : permits.Default native.super?) : Ordinary permits (newNative native)
  | newClosure (closure : Closure) (held : permits.function closure.fn) :
      Ordinary permits (newClosure closure)
  | newObject (object : Object) (held : permits.moves object.frame) :
      Ordinary permits (newObject object)
  | newBlueprint (decl : ClassDecl) (parent : Option BlueprintId) (env : FrameId)
      (held : permits.Class decl) : Ordinary permits (newBlueprint decl parent env)
  | child (env : FrameId) : Ordinary permits (child env)
  | write {x : Store Unit} (op : Write permits x) : Ordinary permits x
  | setDir (env : FrameId) (dir : String) (held : permits.moves env) :
      Ordinary permits (setDir env dir)
  | changeArray (id : Nat) (f : Array Value → Array Value) (held : permits.effects) :
      Ordinary permits (changeArray id f)
  | changeRecord (id : Nat) (f : Fields Value → Fields Value) (held : permits.effects) :
      Ordinary permits (changeRecord id f)

namespace Ordinary

/-! ## Frames -/

theorem mismatch {α : Type} (m : Mismatch) : Ordinary permits (Store.mismatch m : Store α) :=
  .fail _ rfl

theorem define {env : FrameId} (held : permits.overwrites env) (name : String) (value : Value) :
    Ordinary permits (Store.define env name value) := .write (.define env name value held)

theorem set {env : FrameId} (held : permits.frame env) (name : String) (value : Value) :
    Ordinary permits (Store.set env name value) := .write (.set env name value held)

section Frames

variable {env : FrameId} (held : permits.frame env)
include held

theorem declare (constant : Bool) (name : String) (value : Value) :
    Ordinary permits (Store.declare constant env name value) := by
  cases constant with
  | true => exact .write (.setConst env name value held)
  | false => exact set held name value

theorem setAll (entries : List (String × Value)) :
    Ordinary permits (Store.setAll env entries) := by
  induction entries with
  | nil => exact .pure ()
  | cons entry rest ih => exact .bind (set held entry.1 entry.2) fun _ => ih

theorem declareAll (constant : Bool) (entries : List (String × Value)) :
    Ordinary permits (Store.declareAll constant env entries) := by
  induction entries with
  | nil => exact .pure ()
  | cons entry rest ih => exact .bind (declare held constant entry.1 entry.2) fun _ => ih

end Frames

theorem defineMethods {env : FrameId} (held : permits.overwrites env)
    (methods : List (String × Method))
    (functions : ∀ entry ∈ methods, permits.function entry.2.fn) :
    Ordinary permits (Store.defineMethods env methods) := by
  induction methods with
  | nil => exact .pure ()
  | cons entry rest ih =>
      have first : permits.function entry.2.fn := functions entry (by simp)
      have others : ∀ other ∈ rest, permits.function other.2.fn := by
        intro other member
        exact functions other (by simp [member])
      exact .bind (.newClosure _ first) fun closure =>
        .bind (define held entry.1 closure) fun _ => ih others

theorem update (effects : permits.effects) (env : FrameId) (name : String) (value : Value) :
    Ordinary permits (Store.update env name value) := .write (.update env name value effects)

theorem get (env : FrameId) (name : String) : Ordinary permits (Store.get env name) := by
  refine .bind (.read _) fun found => ?_
  cases found with
  | some value => exact .pure value
  | none => exact .fail _ rfl

theorem display (value : Value) : Ordinary permits (Store.display value) := .read _

/-! ## Members and indices -/

theorem getMember (owner : Value) (name : String) :
    Ordinary permits (Access.getMember owner name) := by
  cases owner with
  | record id =>
      refine .bind (.read _) fun fields => ?_
      split
      · exact .pure _
      · exact .fail _ rfl
  | object id =>
      refine .bind (.read _) fun found => ?_
      cases found with
      | some value => exact .pure value
      | none => exact .bind (.read _) fun blueprint => .fail _ rfl
  | array id =>
      simp only [Access.getMember]
      split
      · exact .newNative _ (by intro host; cases host) nofun
      · exact .fail _ rfl
  | text text =>
      simp only [Access.getMember]
      split
      · exact .newNative _ (by intro host; cases host) nofun
      · exact .fail _ rfl
  | _ => exact mismatch _

theorem setMember (effects : permits.effects) (owner : Value) (name : String) (value : Value) :
    Ordinary permits (Access.setMember owner name value) := by
  cases owner with
  | record id => exact .changeRecord id _ effects
  | object id => exact .write (.setField id name value effects)
  | _ => exact mismatch _

theorem place_isLimit {n : Float} {length : Nat} {cause : Cause}
    (failed : Access.place n length = .error cause) : cause.isLimit = false := by
  unfold Access.place at failed
  grind [Cause.isLimit]

theorem getIndex (owner key : Value) : Ordinary permits (Access.getIndex owner key) := by
  unfold Access.getIndex
  split
  · refine .bind (.read _) fun items => ?_
    split
    · exact .pure _
    · rename_i failed
      exact .fail _ (place_isLimit failed)
  · dsimp only
    split
    · exact .pure _
    · rename_i failed
      exact .fail _ (place_isLimit failed)
  · exact getMember _ _
  · exact getMember _ _
  · exact mismatch _

theorem setIndex (effects : permits.effects) (owner key value : Value) :
    Ordinary permits (Access.setIndex owner key value) := by
  unfold Access.setIndex
  split
  · refine .bind (.read _) fun size => ?_
    split
    · exact .changeArray _ _ effects
    · rename_i failed
      exact .fail _ (place_isLimit failed)
  · exact setMember effects _ _ _
  · exact setMember effects _ _ _
  · exact mismatch _

theorem keyText (key : Value) : Ordinary permits (Access.keyText key) := by
  cases key with
  | text text => exact .pure text
  | number n => exact display _
  | bool b => exact display _
  | _ => exact mismatch _

theorem spreadItems (value : Value) : Ordinary permits (Access.spreadItems value) := by
  cases value with
  | array id => exact .bind (.read _) fun items => .pure _
  | text text => exact .pure _
  | _ => exact mismatch _

theorem spreadFields (value : Value) : Ordinary permits (Access.spreadFields value) := by
  cases value with
  | record id => exact .bind (.read _) fun fields => .pure _
  | nil => exact .pure _
  | _ => exact mismatch _

theorem elements (value : Value) : Ordinary permits (Access.elements value) := by
  cases value with
  | array id => exact .bind (.read _) fun items => .pure _
  | record id => exact .bind (.read _) fun fields => .pure _
  | text text => exact .pure _
  | _ => exact mismatch _

/-! ## Patterns -/

mutual

theorem matchBind {env : FrameId} (held : permits.overwrites env) (pattern : Pattern)
    (value : Value) : Ordinary permits (Matching.bind env pattern value) := by
  cases pattern with
  | wildcard =>
      rw [Matching.bind]
      exact .pure true
  | binding name =>
      rw [Matching.bind]
      exact .bind (define held name value) fun _ => .pure true
  | literal literal =>
      rw [Matching.bind]
      exact .pure _
  | array elements rest =>
      cases value with
      | array id =>
          rw [Matching.bind]
          refine .bind (.read _) fun items => ?_
          cases rest with
          | none =>
              dsimp only
              split
              · exact .pure false
              · refine .bind (matchAll held elements items.toList) fun fitting => ?_
                split
                · exact .pure false
                · exact .pure true
          | some name =>
              dsimp only
              split
              · exact .pure false
              · refine .bind (matchAll held elements items.toList) fun fitting => ?_
                split
                · exact .pure false
                · exact .bind (.newArray _) fun others =>
                    .bind (define held name others) fun _ => .pure true
      | _ =>
          rw [Matching.bind]
          · exact .pure false
          · simp
  | record fields =>
      rw [Matching.bind]
      exact matchFields held fields value

theorem matchAll {env : FrameId} (held : permits.overwrites env) (patterns : List Pattern)
    (values : List Value) :
    Ordinary permits (Matching.bindAll env patterns values) := by
  cases patterns with
  | nil =>
      rw [Matching.bindAll]
      · exact .pure true
      · simp
  | cons pattern patterns =>
      cases values with
      | nil =>
          rw [Matching.bindAll]
          · exact .pure true
          · simp
      | cons value values =>
          rw [Matching.bindAll]
          refine .bind (matchBind held pattern value) fun fitting => ?_
          split
          · exact matchAll held patterns values
          · exact .pure false

theorem matchFields {env : FrameId} (held : permits.overwrites env)
    (fields : List (String × Pattern)) (value : Value) :
    Ordinary permits (Matching.bindFields env fields value) := by
  cases fields with
  | nil =>
      rw [Matching.bindFields]
      exact .pure true
  | cons field rest =>
      obtain ⟨key, pattern⟩ := field
      rw [Matching.bindFields]
      refine .bind (.read _) fun found => ?_
      cases found with
      | none => exact .pure false
      | some part =>
          refine .bind (matchBind held pattern part) fun fitting => ?_
          split
          · exact matchFields held rest value
          · exact .pure false

end

theorem parts (names : Destructure) (value : Value) :
    Ordinary permits (Matching.parts names value) := by
  unfold Matching.parts
  split
  · exact .bind (.read _) fun items => .pure _
  · exact .read _
  · exact .read _
  · exact mismatch _
  · exact mismatch _

/-! ## Operators -/

theorem binary (op : BinaryOp) (left right : Value) :
    Ordinary permits (Operation.binary op left right) := by
  have onNumbers : ∀ f : Float → Float → Store Value, (∀ a b, Ordinary permits (f a b)) →
      Ordinary permits (Operation.onNumbers op left right f) := by
    intro f ordinary
    unfold Operation.onNumbers
    split
    · exact ordinary _ _
    · exact mismatch _
  have arithmetic : ∀ a b, Ordinary permits (Operation.arithmetic op a b) := by
    intro a b
    unfold Operation.arithmetic
    split
    · exact .pure _
    · exact .pure _
    · split
      · exact .fail _ rfl
      · exact .pure _
    · split
      · exact .fail _ rfl
      · exact .pure _
  have comparison : Ordinary permits (Operation.comparison op left right) := by
    unfold Operation.comparison
    split
    · exact .pure _
    · exact .pure _
    · exact mismatch _
  cases op with
  | add =>
      show Ordinary permits (Operation.add left right)
      unfold Operation.add
      split
      · exact .pure _
      · exact .bind (display _) fun shown => .pure _
      · exact .bind (display _) fun shown => .pure _
      · exact .bind (.read _) fun a => .bind (.read _) fun b => .newArray _
      · exact .bind (.read _) fun a => .newArray _
      · exact mismatch _
  | sub | mul | div | mod => exact onNumbers _ arithmetic
  | eq | notEq | and | or | coalesce => exact .pure _
  | less | lessEq | greater | greaterEq => exact comparison
  | bitAnd | bitOr | bitXor | shiftLeft | shiftRight => exact onNumbers _ fun _ _ => .pure _
  | pipe => exact mismatch _

theorem unary (op : UnaryOp) (value : Value) : Ordinary permits (Operation.unary op value) := by
  unfold Operation.unary
  split
  · exact .pure _
  · exact .pure _
  · exact .pure _
  · exact .pure _
  · exact mismatch _

/-! ## Classes, loops and handlers -/

theorem parentOf (decl : ClassDecl) (env : FrameId) :
    Ordinary permits (Store.parentOf decl env) := by
  unfold Store.parentOf
  split
  · exact .pure none
  · refine .bind (get env _) fun found => ?_
    split
    · exact .pure _
    · exact mismatch _

theorem declareClass {env : FrameId} (held : permits.frame env) (decl : ClassDecl)
    (members : permits.Class decl) : Ordinary permits (Store.declareClass decl env) :=
  .bind (parentOf decl env) fun parent =>
    .bind (.newBlueprint decl parent env members) fun blueprint => set held decl.name blueprint

theorem entries (value : Value) : Ordinary permits (Store.entries value) := by
  unfold Store.entries
  split
  · exact .pure _
  · exact .bind (.read _) fun fields => .pure _
  · exact .pure _
  · exact mismatch _

theorem entryAt (value : Value) (entries : Array (Value × Value)) (index : Nat) :
    Ordinary permits (Store.entryAt value entries index) := by
  unfold Store.entryAt
  split
  · exact .bind (.read _) fun items => .pure _
  · exact .pure _

theorem caught (fault : Fault) : Ordinary permits fault.caught := by
  unfold Fault.caught
  split
  · exact .pure _
  · dsimp only
    split
    · exact .newRecord _
    · exact .newRecord _

/-! ## Native functions -/

theorem function (name : String) (value : Value) :
    Ordinary permits (Native.function name value) := by
  unfold Native.function
  split
  · exact .pure _
  · exact mismatch _

theorem text (name : String) (value : Value) : Ordinary permits (Native.text name value) := by
  unfold Native.text
  split
  · exact .pure _
  · exact mismatch _

theorem bound (value : Value) (length default : Nat) :
    Ordinary permits (Native.bound value length default) := by
  unfold Native.bound
  split
  · exact .pure _
  · exact .pure _
  · exact mismatch _

theorem ofTextResult (method : TextMethod) (name receiver : String) (args : List Value) :
    Ordinary permits (Native.ofTextResult method name receiver args) := by
  cases method with
  | count | upper | lower | trim => exact .pure _
  | split =>
      simp only [Native.ofTextResult]
      split
      · exact .newArray _
      · exact .bind (text name _) fun separator => .newArray _
  | contains | startsWith | endsWith => exact .bind (text name _) fun piece => .pure _

theorem length (args : List Value) : Ordinary permits (Native.length args) := by
  unfold Native.length
  split
  · exact .pure _
  · exact .bind (.read _) fun items => .pure _
  · exact .bind (.read _) fun fields => .pure _
  · exact mismatch _

theorem fieldNames (args : List Value) : Ordinary permits (Native.fieldNames args) := by
  unfold Native.fieldNames
  split
  · exact .bind (.read _) fun fields => .newArray _
  · exact .bind (.read _) fun names => .newArray _
  · exact mismatch _

theorem isInstance (args : List Value) : Ordinary permits (Native.isInstance args) := by
  unfold Native.isInstance
  split
  · exact .read _
  · exact .pure _
  · exact mismatch _

end Ordinary

end Store

/-! ## What a heap holds -/

namespace Fields

variable {α : Type}

theorem mem_put {name : String} {value : α} {entries : List (String × α)} {entry : String × α}
    (member : entry ∈ put name value entries) : entry.2 = value ∨ entry ∈ entries := by
  induction entries with
  | nil =>
      simp only [put, List.mem_singleton] at member
      exact Or.inl (by rw [member])
  | cons first rest ih =>
      obtain ⟨key, old⟩ := first
      by_cases here : key = name
      · simp only [put, if_pos here, List.mem_cons] at member
        rcases member with written | member
        · exact Or.inl (by rw [written])
        · exact Or.inr (List.mem_cons_of_mem _ member)
      · simp only [put, if_neg here, List.mem_cons] at member
        rcases member with kept | member
        · exact Or.inr (by simp [kept])
        · rcases ih member with written | member
          · exact Or.inl written
          · exact Or.inr (List.mem_cons_of_mem _ member)

theorem mem_insertAll {fields : Fields α} {written : List (String × α)} {entry : String × α}
    (member : entry ∈ (fields.insertAll written).entries) :
    entry ∈ fields.entries ∨ ∃ source ∈ written, entry.2 = source.2 := by
  induction written generalizing fields with
  | nil => exact Or.inl member
  | cons first rest ih =>
      have split : entry ∈ (fields.insert first.1 first.2).entries ∨
          ∃ source ∈ rest, entry.2 = source.2 := ih member
      rcases split with old | ⟨source, place, same⟩
      · rcases mem_put old with now | old
        · exact Or.inr ⟨first, by simp, now⟩
        · exact Or.inl old
      · exact Or.inr ⟨source, List.mem_cons_of_mem _ place, same⟩

end Fields

section Size

variable (heap : Heap) (env : FrameId)

@[simp] theorem Heap.size_changeFrame (f : Frame → Frame) :
    (heap.changeFrame env f).frames.size = heap.frames.size := Array.size_modify

@[simp] theorem Heap.size_bind (name : String) (variable_ : Variable) :
    (heap.bind env name variable_).frames.size = heap.frames.size := Array.size_modify

@[simp] theorem Store.size_setMethod (method : Option MethodRef) :
    (Store.setMethod env method heap).2.frames.size = heap.frames.size := Array.size_modify

@[simp] theorem Store.size_child :
    (Store.child env heap).2.frames.size = heap.frames.size + 1 := Array.size_push _

end Size

/-- Every function, default value and native function of a heap is one it may hold. -/
structure Heap.Holds (permits : Permits) (heap : Heap) : Prop where
  closure : ∀ (id : Nat) (closure : Closure), heap.closures[id]? = some closure →
    permits.function closure.fn
  method : ∀ (id : Nat) (blueprint : Blueprint), heap.blueprints[id]? = some blueprint →
    ∀ entry ∈ blueprint.methods.entries, permits.function entry.2.fn
  field : ∀ (id : Nat) (blueprint : Blueprint), heap.blueprints[id]? = some blueprint →
    ∀ entry ∈ blueprint.fields.entries, permits.Default entry.2
  native : ∀ (id : Nat) (native : Native), heap.natives[id]? = some native →
    permits.Native native

theorem Heap.Holds.setMethod {permits : Permits} {heap : Heap} (holds : heap.Holds permits)
    (env : FrameId) (method : Option MethodRef) :
    (Store.setMethod env method heap).2.Holds permits :=
  ⟨holds.closure, holds.method, holds.field, holds.native⟩

namespace Store

variable {permits : Permits}

theorem bind_eq {α β : Type} (x : Store α) (f : α → Store β) (heap : Heap) :
    (x >>= f) heap = match x heap with
      | (.ok a, next) => f a next
      | (.error cause, next) => (.error cause, next) := rfl

theorem bind_leaves {α β : Type} {x : Store α} {f : α → Store β} {heap : Heap} {P : Heap → Prop}
    (first : P (x heap).2) (second : ∀ a, P (f a (x heap).2).2) : P ((x >>= f) heap).2 := by
  rw [bind_eq]
  cases outcome : x heap with
  | mk result next =>
      rw [outcome] at first second
      cases result with
      | ok a => exact second a
      | error cause => exact first

theorem mem_inherited {β : Type} (members : Blueprint → Fields β) (heap : Heap)
    (parent : Option BlueprintId) (entry : String × β)
    (member : entry ∈
      (((parent.bind fun parent => heap.blueprints[parent]?).map members).getD .empty).entries) :
    ∃ (id : Nat) (above : Blueprint),
      heap.blueprints[id]? = some above ∧ entry ∈ (members above).entries := by
  cases origin : parent.bind fun parent => heap.blueprints[parent]? with
  | none => simp [origin, Fields.empty] at member
  | some above =>
      obtain ⟨id, -, read⟩ := Option.bind_eq_some_iff.mp origin
      simp only [origin, Option.map_some, Option.getD_some] at member
      exact ⟨id, above, read, member⟩

theorem newNative_holds {native : Native} (held : permits.Native native) (heap : Heap)
    (before : heap.Holds permits) : (newNative native heap).2.Holds permits := by
  refine ⟨before.closure, before.method, before.field, ?_⟩
  intro id found read
  simp only [Store.newNative, Array.getElem?_push] at read
  split at read
  · cases Option.some.inj read
    exact held
  · exact before.native id found read

theorem newBlueprint_holds (decl : ClassDecl) (parent : Option BlueprintId) (env : FrameId)
    (held : permits.Class decl) (heap : Heap) (before : heap.Holds permits) :
    (newBlueprint decl parent env heap).2.Holds permits := by
  refine ⟨before.closure, ?_, ?_, before.native⟩
  · intro id blueprint found entry member
    simp only [newBlueprint, Array.getElem?_push] at found
    split at found
    · cases Option.some.inj found
      rcases Fields.mem_insertAll member with inherited | ⟨source, declared, same⟩
      · obtain ⟨place, above, read, member⟩ := mem_inherited _ heap parent entry inherited
        exact before.method place above read entry member
      · obtain ⟨fn, own, rfl⟩ := List.mem_map.mp declared
        rw [same]
        exact held.2 fn own
    · exact before.method id blueprint found entry member
  · intro id blueprint found entry member
    simp only [newBlueprint, Array.getElem?_push] at found
    split at found
    · cases Option.some.inj found
      rcases Fields.mem_insertAll member with inherited | ⟨source, declared, same⟩
      · obtain ⟨place, above, read, member⟩ := mem_inherited _ heap parent entry inherited
        exact before.field place above read entry member
      · obtain ⟨field, own, rfl⟩ := List.mem_map.mp declared
        rw [same]
        exact held.1 field own
    · exact before.field id blueprint found entry member

/-! ## What writes do -/

theorem read_bind {α β : Type} (f : Heap → α) (g : α → Store β) (heap : Heap) :
    (read f >>= g) heap = g (f heap) heap := rfl

theorem set_eq (env : FrameId) (name : String) (value : Value) (heap : Heap) :
    set env name value heap = match heap.localVariable? env name with
      | some ⟨_, true⟩ => (.error (.declaredTwice name), heap)
      | _ => (.ok (), heap.bind env name ⟨value, false⟩) := by
  unfold set
  rw [read_bind]
  rcases heap.localVariable? env name with _ | ⟨old, _ | _⟩ <;> rfl

theorem setConst_eq (env : FrameId) (name : String) (value : Value) (heap : Heap) :
    setConst env name value heap = match heap.localVariable? env name with
      | some _ => (.error (.declaredTwice name), heap)
      | none => (.ok (), heap.bind env name ⟨value, true⟩) := by
  unfold setConst
  rw [read_bind]
  cases heap.localVariable? env name <;> rfl

theorem update_eq (env : FrameId) (name : String) (value : Value) (heap : Heap) :
    update env name value heap = match heap.holder? env name with
      | none => (.error (.undeclared name), heap)
      | some holder =>
          match heap.localVariable? holder name with
          | some ⟨_, true⟩ => (.error (.constant name), heap)
          | _ => (.ok (), heap.bind holder name ⟨value, false⟩) := by
  unfold update
  rw [read_bind]
  cases heap.holder? env name with
  | none => rfl
  | some holder =>
      dsimp only
      rw [read_bind]
      rcases heap.localVariable? holder name with _ | ⟨old, _ | _⟩ <;> rfl

theorem setField_eq (id : Nat) (name : String) (value : Value) (heap : Heap) :
    Access.setMember (.object id) name value heap = match heap.objects[id]? with
      | some object => (.ok (), heap.bind object.frame name ⟨value, false⟩)
      | none => (.ok (), heap) := by
  unfold Access.setMember
  dsimp only
  rw [read_bind]
  cases heap.objects[id]? <;> rfl

namespace Write

theorem heap_eq {x : Store Unit} (op : Write permits x) (heap : Heap) :
    (x heap).2 = heap ∨ ∃ env name variable_,
      (permits.overwrites env ∨ permits.frame env ∨ permits.effects) ∧
        (x heap).2 = heap.bind env name variable_ := by
  cases op with
  | define env name value held => exact Or.inr ⟨env, name, _, Or.inl held, rfl⟩
  | set env name value held =>
      rw [set_eq]
      split
      · exact Or.inl rfl
      · exact Or.inr ⟨env, name, _, Or.inr (Or.inl held), rfl⟩
  | setConst env name value held =>
      rw [setConst_eq]
      split
      · exact Or.inl rfl
      · exact Or.inr ⟨env, name, _, Or.inr (Or.inl held), rfl⟩
  | update env name value held =>
      rw [update_eq]
      split
      · exact Or.inl rfl
      · rename_i holder _
        split
        · exact Or.inl rfl
        · exact Or.inr ⟨holder, name, _, Or.inr (Or.inr held), rfl⟩
  | setField id name value held =>
      rw [setField_eq]
      split
      · rename_i object _
        exact Or.inr ⟨object.frame, name, _, Or.inr (Or.inr held), rfl⟩
      · exact Or.inl rfl

theorem isLimit_eq_false {x : Store Unit} (op : Write permits x) (heap : Heap) (cause : Cause)
    (failed : (x heap).1 = .error cause) : cause.isLimit = false := by
  cases op with
  | define env name value held => cases failed
  | set env name value held =>
      rw [set_eq] at failed
      split at failed <;> cases failed
      rfl
  | setConst env name value held =>
      rw [setConst_eq] at failed
      split at failed <;> cases failed
      rfl
  | update env name value held =>
      rw [update_eq] at failed
      split at failed
      · cases failed
        rfl
      · split at failed <;> cases failed
        rfl
  | setField id name value held =>
      rw [setField_eq] at failed
      split at failed <;> cases failed

end Write

namespace Ordinary

theorem holds {α : Type} {x : Store α} (ordinary : Ordinary permits x) :
    ∀ heap : Heap, heap.Holds permits → (x heap).2.Holds permits := by
  induction ordinary with
  | bind first second ihFirst ihSecond =>
      intro heap before
      have between := ihFirst heap before
      exact bind_leaves (P := (·.Holds permits)) between fun a => ihSecond a _ between
  | newNative native held => exact newNative_holds held
  | newClosure closure held =>
      intro heap before
      refine ⟨?_, before.method, before.field, before.native⟩
      intro id found read
      simp only [Store.newClosure, Array.getElem?_push] at read
      split at read
      · cases Option.some.inj read
        exact held
      · exact before.closure id found read
  | newBlueprint decl parent env held => exact newBlueprint_holds decl parent env held
  | write op =>
      intro heap before
      rcases op.heap_eq heap with same | ⟨env, name, variable_, -, bound⟩
      · rw [same]
        exact before
      · rw [bound]
        exact ⟨before.closure, before.method, before.field, before.native⟩
  | _ => exact fun heap before => ⟨before.closure, before.method, before.field, before.native⟩

theorem isLimit_eq_false {α : Type} {x : Store α} (ordinary : Ordinary permits x) :
    ∀ (heap : Heap) (cause : Cause), (x heap).1 = .error cause → cause.isLimit = false := by
  induction ordinary with
  | bind first second ihFirst ihSecond =>
      rename_i x f
      intro heap cause failed
      rw [bind_eq] at failed
      cases outcome : x heap with
      | mk result next =>
          rw [outcome] at failed
          cases result with
          | ok a => exact ihSecond a next cause failed
          | error found =>
              cases failed
              exact ihFirst heap cause (by rw [outcome])
  | fail cause own =>
      intro heap found failed
      cases failed
      exact own
  | write op => exact op.isLimit_eq_false
  | _ =>
      intro heap cause failed
      cases failed

end Ordinary

end Store

end Rill

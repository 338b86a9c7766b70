import Rill.Proofs.Frames

/-!
# Classes and their ancestors

A blueprint copies the fields and methods of its parent and writes its own over them. What it then
holds is what a walk from its class up the chain of parents finds: the nearest class that declares a
name decides, and of several declarations in one class the last one.
-/

set_option autoImplicit false

namespace Rill

namespace Fields

variable {α : Type}

theorem get?_insertAll (fields : Fields α) (entries : List (String × α)) (name : String) :
    (fields.insertAll entries).get? name
      = ((entries.reverse.find? fun entry => entry.1 = name).map Prod.snd).or (fields.get? name) := by
  induction entries generalizing fields with
  | nil => rfl
  | cons entry rest ih =>
      obtain ⟨first, value⟩ := entry
      have step : fields.insertAll ((first, value) :: rest) = (fields.insert first value).insertAll rest :=
        rfl
      rw [step, ih, get?_insert, List.reverse_cons, List.find?_append]
      cases rest.reverse.find? fun entry => entry.1 = name with
      | some found => rfl
      | none =>
          by_cases here : name = first
          · simp [here]
          · simp [here, Ne.symm here]

/-- The names are those of a list, each where it first comes, and written entries lengthen that
list. -/
theorem names_insertAll {fields : Fields α} {names : List String}
    (held : fields.names = names.eraseDups) (entries : List (String × α)) :
    (fields.insertAll entries).names = (names ++ entries.map Prod.fst).eraseDups := by
  induction entries generalizing fields names with
  | nil => rw [List.map_nil, List.append_nil]; exact held
  | cons entry rest ih =>
      obtain ⟨first, value⟩ := entry
      have next : (fields.insert first value).names = (names ++ [first]).eraseDups := by
        rw [names_insert, held, List.eraseDups_append]
        by_cases inside : first ∈ names <;> simp [inside, List.removeAll, List.eraseDups_cons]
      have whole := ih next
      rw [List.append_assoc, List.singleton_append] at whole
      exact whole

theorem nodup_names_insert {fields : Fields α} (once : fields.names.Nodup) (name : String)
    (value : α) : (fields.insert name value).names.Nodup := by
  rw [names_insert]
  split
  · exact once
  · next fresh => simpa [List.nodup_append, once] using fun key inside => ne_of_mem_of_not_mem inside fresh

theorem nodup_names_insertAll {fields : Fields α} (once : fields.names.Nodup)
    (entries : List (String × α)) : (fields.insertAll entries).names.Nodup := by
  induction entries generalizing fields with
  | nil => exact once
  | cons entry rest ih => exact ih (nodup_names_insert once entry.1 entry.2)

end Fields

namespace ClassDecl

def method? (decl : ClassDecl) (name : String) : Option Function :=
  decl.methods.reverse.find? fun fn => fn.label = name

/-- The default of the last field that a class declares under a name: the field may have none. -/
def default? (decl : ClassDecl) (name : String) : Option (Option Expr) :=
  (decl.fields.reverse.find? fun field => field.name = name).map Binding.value

end ClassDecl

/-- A class with its ancestors, the class itself first and the root of the hierarchy last, each with
the blueprint that it became. -/
abbrev Ancestry : Type := List (BlueprintId × ClassDecl)

namespace Ancestry

/-- The method of the nearest class that declares one of this name, with the blueprint of that
class. -/
def method? (chain : Ancestry) (name : String) : Option Method :=
  chain.findSome? fun (owner, decl) => (decl.method? name).map fun fn => ⟨fn, owner⟩

/-- The default of the field of this name in the nearest class that declares one. -/
def default? (chain : Ancestry) (name : String) : Option (Option Expr) :=
  chain.findSome? fun (_, decl) => decl.default? name

theorem method?_cons (id : BlueprintId) (decl : ClassDecl) (chain : Ancestry) (name : String) :
    method? ((id, decl) :: chain) name
      = ((decl.method? name).map fun fn => ⟨fn, id⟩).or (chain.method? name) := by
  cases own : decl.method? name <;> simp [method?, own]

theorem default?_cons (id : BlueprintId) (decl : ClassDecl) (chain : Ancestry) (name : String) :
    default? ((id, decl) :: chain) name = (decl.default? name).or (chain.default? name) := by
  cases own : decl.default? name <;> simp [default?, own]

/-- The names of all fields in the order of their first declarations, from the root down. -/
def fieldNames (chain : Ancestry) : List String :=
  (chain.reverse.flatMap fun (_, decl) => decl.fields.map Binding.name).eraseDups

end Ancestry

/-- Fields and methods that agree with a walk up the chain of ancestors. -/
structure Ancestry.Flattened (chain : Ancestry) (fields : Fields (Option Expr))
    (methods : Fields Method) : Prop where
  method (name : String) : methods.get? name = chain.method? name
  names : fields.names = chain.fieldNames
  once : fields.names.Nodup
  default (name : String) : fields.get? name = chain.default? name

namespace Ancestry

theorem flattened_nil : Flattened [] .empty .empty where
  method _ := rfl
  names := rfl
  once := List.nodup_nil
  default _ := rfl

theorem Flattened.cons {chain : Ancestry} {fields : Fields (Option Expr)} {methods : Fields Method}
    (above : chain.Flattened fields methods) (id : BlueprintId) (decl : ClassDecl) :
    Flattened ((id, decl) :: chain)
      (fields.insertAll (decl.fields.map fun field => (field.name, field.value)))
      (methods.insertAll (decl.methods.map fun fn => (fn.label, ⟨fn, id⟩))) where
  method name := by
    rw [Fields.get?_insertAll, above.method, method?_cons, ClassDecl.method?, ← List.map_reverse,
      List.find?_map, Option.map_map]
    rfl
  names := by
    rw [Fields.names_insertAll above.names]
    simp [fieldNames, Function.comp_def]
  once := Fields.nodup_names_insertAll above.once _
  default name := by
    rw [Fields.get?_insertAll, above.default, default?_cons, ClassDecl.default?,
      ← List.map_reverse, List.find?_map, Option.map_map]
    rfl

end Ancestry

namespace Heap

/-- A blueprint that was made by the declaration of a class whose ancestors were declared before.
Anything may have happened between the declarations and since. -/
inductive Declared : Heap → BlueprintId → Ancestry → Prop
  | root {heap next : Heap} {decl : ClassDecl} {env : FrameId} {id : BlueprintId}
      (made : Store.newBlueprint decl none env heap = (.ok (.blueprint id), next)) :
      Declared next id [(id, decl)]
  | child {heap next : Heap} {decl : ClassDecl} {env : FrameId} {parent id : BlueprintId}
      {chain : Ancestry} (above : Declared heap parent chain)
      (made : Store.newBlueprint decl (some parent) env heap = (.ok (.blueprint id), next)) :
      Declared next id ((id, decl) :: chain)
  | later {heap next : Heap} {id : BlueprintId} {chain : Ancestry} (declared : Declared heap id chain)
      (last : heap.CellsLast next) : Declared next id chain

/-- Each blueprint of the chain is there, agrees with the chain from it on, and names the next one
as its parent. -/
inductive Linked (heap : Heap) : BlueprintId → Ancestry → Prop
  | root {id : BlueprintId} {decl : ClassDecl} {blueprint : Blueprint}
      (found : heap.blueprints[id]? = some blueprint) (top : blueprint.parent = none)
      (flat : Ancestry.Flattened [(id, decl)] blueprint.fields blueprint.methods) :
      Linked heap id [(id, decl)]
  | child {id parent : BlueprintId} {decl : ClassDecl} {blueprint : Blueprint} {chain : Ancestry}
      (above : Linked heap parent chain) (older : parent < id)
      (found : heap.blueprints[id]? = some blueprint) (up : blueprint.parent = some parent)
      (flat : Ancestry.Flattened ((id, decl) :: chain) blueprint.fields blueprint.methods) :
      Linked heap id ((id, decl) :: chain)

section Inherits

variable {heap : Heap} {id : BlueprintId} {blueprint : Blueprint}

theorem inherits_root (found : heap.blueprints[id]? = some blueprint) (top : blueprint.parent = none)
    (ancestor : BlueprintId) : heap.inherits ancestor id = true ↔ id = ancestor := by
  obtain ⟨name, parent, fields, methods, env⟩ := blueprint
  cases top
  rw [inherits, found]
  by_cases same : id = ancestor <;> simp [same]

theorem inherits_child (found : heap.blueprints[id]? = some blueprint) {parent : BlueprintId}
    (up : blueprint.parent = some parent) (older : parent < id) (ancestor : BlueprintId) :
    heap.inherits ancestor id = true ↔ id = ancestor ∨ heap.inherits ancestor parent = true := by
  obtain ⟨name, above, fields, methods, env⟩ := blueprint
  cases up
  rw [inherits, found]
  by_cases same : id = ancestor <;> simp [same, older]

end Inherits

namespace Linked

variable {heap : Heap} {id : BlueprintId} {chain : Ancestry}

theorem head (linked : heap.Linked id chain) : chain[0]?.map Prod.fst = some id := by
  cases linked <;> rfl

theorem flat (linked : heap.Linked id chain) : ∃ blueprint, heap.blueprints[id]? = some blueprint
    ∧ blueprint.parent = chain[1]?.map Prod.fst
    ∧ chain.Flattened blueprint.fields blueprint.methods := by
  cases linked with
  | root found top flat => exact ⟨_, found, top, flat⟩
  | child above _ found up flat => exact ⟨_, found, up.trans above.head.symm, flat⟩

theorem later {next : Heap} (last : heap.CellsLast next) (linked : heap.Linked id chain) :
    next.Linked id chain := by
  induction linked with
  | root found top flat => exact .root (last.blueprint found) top flat
  | child _ older found up flat ih => exact .child ih older (last.blueprint found) up flat

theorem inherits_iff (linked : heap.Linked id chain) (ancestor : BlueprintId) :
    heap.inherits ancestor id = true ↔ ancestor ∈ chain.map Prod.fst := by
  induction linked with
  | @root id decl blueprint found top _ =>
      rw [inherits_root found top, List.map_cons, List.map_nil, List.mem_singleton, eq_comm]
  | @child id parent decl blueprint chain _ older found up _ ih =>
      rw [inherits_child found up older, ih, List.map_cons, List.mem_cons, eq_comm]

end Linked

theorem Declared.linked {heap : Heap} {id : BlueprintId} {chain : Ancestry}
    (declared : Declared heap id chain) : heap.Linked id chain := by
  induction declared with
  | @root heap next decl env id made =>
      cases made
      refine .root (Array.getElem?_push_size ..) rfl ?_
      exact Ancestry.flattened_nil.cons _ decl
  | @child heap next decl env parent id chain _ made ih =>
      obtain ⟨blueprint, found, -, flat⟩ := ih.flat
      obtain ⟨older, -⟩ := Array.getElem?_eq_some_iff.mp found
      cases made
      refine .child (ih.later ?_) older (Array.getElem?_push_size ..) rfl ?_
      · exact ⟨fun found => found, fun found => getElem?_push_old found _, fun found => found⟩
      · have members := flat.cons heap.blueprints.size decl
        simp only [Option.bind_some, found, Option.map_some, Option.getD_some]
        exact members
  | later _ last ih => exact ih.later last

theorem Declared.above {heap : Heap} {id : BlueprintId} {chain : Ancestry}
    (declared : Declared heap id chain) {before after : Ancestry} {owner : BlueprintId}
    {decl : ClassDecl} (split : chain = before ++ (owner, decl) :: after) :
    Declared heap owner ((owner, decl) :: after) := by
  induction declared generalizing before with
  | root made =>
      cases before with
      | nil =>
          cases split
          exact .root made
      | cons first before => exact absurd (List.cons.inj split).2 (by simp)
  | child above made ih =>
      cases before with
      | nil =>
          cases split
          exact .child above made
      | cons first before =>
          refine .later (ih (List.cons.inj split).2) ?_
          cases made
          exact ⟨fun found => found, fun found => getElem?_push_old found _, fun found => found⟩
  | later _ last ih => exact .later (ih split) last

/-- Whatever evaluation is asked for, and however it ends, a declared blueprint stays as it is. -/
theorem Declared.fulfil {loader : Option Loader} {depth : Nat} {α : Type} {request : Request α}
    {state next : State} {id : BlueprintId} {chain : Ancestry}
    (declared : state.heap.Declared id chain)
    (left : ((Engine.ofDepth loader depth).fulfil request state).state? = some next) :
    next.heap.Declared id chain :=
  .later declared (Engine.fulfil_later loader depth request left).toCellsLast

/-- The declaration of a class makes the next blueprint, with the ancestors of the blueprint that
the parent's name stands for. -/
theorem Declared.declareClass {heap next : Heap} {decl : ClassDecl} {env : FrameId} {chain : Ancestry}
    (above : match decl.parent with
      | none => chain = []
      | some name => ∃ parent, heap.get? env name = some (.blueprint parent)
          ∧ heap.Declared parent chain)
    (done : Store.declareClass decl env heap = (.ok (), next)) :
    next.Declared heap.blueprints.size ((heap.blueprints.size, decl) :: chain) := by
  -- Binding the name of the class leaves all blueprints as they are.
  have last (parent : Option BlueprintId)
      (resolved : Store.parentOf decl env heap = (.ok parent, heap)) :
      (Store.newBlueprint decl parent env heap).2.CellsLast next := by
    have ordinary : Store.Ordinary (.anyCode True)
        (Store.set env decl.name (.blueprint heap.blueprints.size)) := .set trivial decl.name _
    have binds := ordinary.cellsLast (Store.newBlueprint decl parent env heap).2
    rw [Store.declareClass, Store.bind_eq, resolved] at done
    have left : (Store.set env decl.name (.blueprint heap.blueprints.size)
        (Store.newBlueprint decl parent env heap).2).2 = next := congrArg Prod.snd done
    rwa [left] at binds
  cases parent : decl.parent with
  | none =>
      rw [parent] at above
      subst above
      exact .later (.root rfl) (last none (by rw [Store.parentOf, parent]; rfl))
  | some name =>
      rw [parent] at above
      obtain ⟨id, bound, declared⟩ := above
      have read : Store.get env name heap = (.ok (.blueprint id), heap) := by
        rw [Store.get, Store.bind_eq, Store.read, bound]
        rfl
      have resolved : Store.parentOf decl env heap = (.ok (some id), heap) := by
        rw [Store.parentOf, parent]
        simp only [Store.bind_eq, read]
        rfl
      exact .later (.child declared rfl) (last (some id) resolved)

/-- A declared blueprint agrees with a walk up its chain of ancestors. Each of its methods is owned
by the blueprint of the class that declares it, which is among the ancestors and still there, and
the blueprint inherits from its ancestors and from nothing else. -/
theorem Declared.flattened {heap : Heap} {id : BlueprintId} {chain : Ancestry}
    (declared : heap.Declared id chain) :
    ∃ blueprint, heap.blueprints[id]? = some blueprint
      ∧ blueprint.parent = chain[1]?.map Prod.fst
      ∧ chain.Flattened blueprint.fields blueprint.methods
      ∧ (∀ name method, blueprint.methods.get? name = some method →
          ∃ before decl after, chain = before ++ (method.owner, decl) :: after
            ∧ decl.method? name = some method.fn
            ∧ (∀ entry ∈ before, entry.2.method? name = none)
            ∧ heap.Declared method.owner ((method.owner, decl) :: after)
            ∧ heap.inherits method.owner id = true)
      ∧ ∀ ancestor, heap.inherits ancestor id = true ↔ ancestor ∈ chain.map Prod.fst := by
  obtain ⟨blueprint, found, parent, flat⟩ := declared.linked.flat
  refine ⟨blueprint, found, parent, flat, fun name method held => ?_, declared.linked.inherits_iff⟩
  rw [flat.method, Ancestry.method?, List.findSome?_eq_some_iff] at held
  obtain ⟨before, ⟨owner, decl⟩, after, split, own, away⟩ := held
  obtain ⟨fn, declares, rfl⟩ := Option.map_eq_some_iff.mp own
  refine ⟨before, decl, after, split, declares, fun entry member => ?_, declared.above split, ?_⟩
  · simpa using away entry member
  · rw [declared.linked.inherits_iff, split]
    simp

/-- A class that declares a field and a method twice, below a parent that declares both as well. -/
theorem Declared.flattened_twice :
    ∃ heap : Heap, ∃ blueprint, heap.blueprints[1]? = some blueprint
      ∧ blueprint.fields.names = ["a", "b", "c"]
      ∧ blueprint.fields.get? "b" = some (some (.literal ⟨7, 1⟩ (.bool true)))
      ∧ blueprint.methods.get? "m" = some ⟨⟨some "m", [], .value (.ident ⟨9, 1⟩ "c"), ⟨9, 1⟩⟩, 1⟩
      ∧ blueprint.methods.get? "n" = some ⟨⟨some "n", [], .value (.ident ⟨4, 1⟩ "a"), ⟨4, 1⟩⟩, 0⟩
      ∧ blueprint.methods.get? "o" = none
      ∧ heap.inherits 0 1 = true := by
  let root : ClassDecl :=
    ⟨"A", none, [⟨"a", none⟩, ⟨"b", none⟩],
      [⟨some "m", [], .value (.ident ⟨3, 1⟩ "b"), ⟨3, 1⟩⟩,
        ⟨some "n", [], .value (.ident ⟨4, 1⟩ "a"), ⟨4, 1⟩⟩], ⟨1, 1⟩⟩
  let child : ClassDecl :=
    ⟨"B", some "A", [⟨"c", none⟩, ⟨"b", none⟩, ⟨"b", some (.literal ⟨7, 1⟩ (.bool true))⟩],
      [⟨some "m", [], .value (.ident ⟨8, 1⟩ "b"), ⟨8, 1⟩⟩,
        ⟨some "m", [], .value (.ident ⟨9, 1⟩ "c"), ⟨9, 1⟩⟩], ⟨5, 1⟩⟩
  have first : Store.newBlueprint root none 0 .empty = (.ok (.blueprint 0), _) := rfl
  have second : Store.newBlueprint child (some 0) 0 (Store.newBlueprint root none 0 .empty).2
      = (.ok (.blueprint 1), _) := rfl
  have declared := (Declared.root first).child second
  obtain ⟨blueprint, found, -, flat, -, inherits⟩ := declared.flattened
  refine ⟨_, blueprint, found, flat.names.trans ?_, (flat.default "b").trans rfl,
    (flat.method "m").trans rfl, (flat.method "n").trans rfl, (flat.method "o").trans rfl,
    (inherits 0).mpr ?_⟩
  · decide
  · decide

end Heap

end Rill

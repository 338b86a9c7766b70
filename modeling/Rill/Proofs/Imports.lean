import Rill.Proofs.Constants
import Rill.Proofs.Isolation
import Rill.Proofs.Modules
import Rill.Proofs.Outside

/-!
# What an import binds

An import opens a module and then binds what the module exports, one name after another in the order
of the names. While the module is opened the frame that imports it keeps its names, and which of
them are constants, unless a `super` call runs there. What is bound afterwards is everything, or,
without an alias, what comes before the first name that stands for a constant already.
-/

set_option autoImplicit false

namespace Rill

namespace Heap

variable {heap : Heap} {home env : FrameId} {name key : String}

def constants (heap : Heap) (env : FrameId) : Set String :=
  {name | ∃ value, heap.localVariable? env name = some ⟨value, true⟩}

/-- Whether a name is bound in a frame, and if so whether it stands for a constant. -/
def standing (heap : Heap) (env : FrameId) (name : String) : Option Bool :=
  (heap.localVariable? env name).map Variable.constant

theorem mem_names_iff_standing : name ∈ heap.names env ↔ (heap.standing env name).isSome := by
  rw [mem_names, standing, Option.isSome_map]

theorem mem_constants_iff_standing :
    name ∈ heap.constants env ↔ heap.standing env name = some true := by
  change (∃ value, heap.localVariable? env name = some ⟨value, true⟩)
    ↔ (heap.localVariable? env name).map Variable.constant = some true
  rcases heap.localVariable? env name with _ | ⟨value, constant⟩ <;> simp

theorem names_congr {next : Heap} (same : next.standing env = heap.standing env) :
    next.names env = heap.names env := by
  ext name
  rw [mem_names_iff_standing, mem_names_iff_standing, same]

theorem constants_congr {next : Heap} (same : next.standing env = heap.standing env) :
    next.constants env = heap.constants env := by
  ext name
  rw [mem_constants_iff_standing, mem_constants_iff_standing, same]

theorem standing_bind_other (heap : Heap) (key : String) (variable_ : Variable)
    (other : env ≠ home) : (heap.bind env key variable_).standing home = heap.standing home := by
  funext name
  rw [standing, standing, localVariable?_bind, if_neg fun same => other same.1]

theorem standing_bind_variable {old value : Value}
    (bound : heap.localVariable? home key = some ⟨old, false⟩) :
    (heap.bind home key ⟨value, false⟩).standing home = heap.standing home := by
  funext name
  rw [standing, standing, localVariable?_bind]
  split
  · next here =>
      rw [here.2, bound, Array.getElem?_eq_getElem (size_of_localVariable? bound)]
      rfl
  · rfl

end Heap

/-- A write outside a frame changes the value of a variable there at most. -/
theorem Store.Write.standing {home : FrameId} {x : Store Unit}
    (op : Store.Write (.outside home) x) {heap : Heap} (apart : heap.Apart home) :
    (x heap).2.standing home = heap.standing home := by
  have elsewhere {env : FrameId} (name : String) (variable_ : Variable) (other : env ≠ home) :=
    heap.standing_bind_other name variable_ other
  cases op with
  | define env name value held => exact elsewhere name _ held
  | set env name value held =>
      rw [set_eq]
      split
      · rfl
      · exact elsewhere name _ held
  | setConst env name value held =>
      rw [setConst_eq]
      split
      · rfl
      · exact elsewhere name _ held
  | update env name value held =>
      rw [update_eq]
      split
      · rfl
      · next holder found =>
          split
          · rfl
          · next free =>
              by_cases here : holder = home
              · subst here
                obtain ⟨⟨old, constant⟩, bound⟩ :=
                  Option.isSome_iff_exists.mp (Heap.mem_names_of_holder? found)
                cases constant with
                | true => exact absurd bound (free old)
                | false => exact Heap.standing_bind_variable bound
              · exact elsewhere name _ here
  | setField id name value held =>
      rw [setField_eq]
      split
      · next object found => exact elsewhere name _ (apart.uninhabited id object found)
      · rfl

/-- What operations outside a frame leave alone: that it is not the frame of an instance, its names,
and which of them are constants. -/
theorem Heap.standing_lasting (home : FrameId) (before : String → Option Bool) :
    Lasting (.outside home) fun heap => heap.Apart home ∧ heap.standing home = before :=
  have around : Lasting (.outside home) (Apart home) := Apart.lasting fun moved => moved rfl
  { cells := fun heap next frames objects kept =>
      ⟨around.cells heap next frames objects kept.1, by
        rw [← kept.2]
        funext name
        rw [standing, standing, localVariable?, localVariable?, frames]⟩
    push := fun frame kept =>
      ⟨around.push frame kept.1, by
        rw [← kept.2]
        funext name
        rw [standing, standing, localVariable?_push frame kept.1.old]⟩
    object := fun held kept => ⟨around.object held kept.1, kept.2⟩
    write := fun op kept => ⟨around.write op kept.1, (op.standing kept.1).trans kept.2⟩
    changeFrame := fun {heap} env _ still kept =>
      ⟨around.changeFrame env still kept.1, by
        rw [← kept.2]
        funext name
        rw [standing, standing, localVariable?_changeFrame heap env still]⟩ }

/-! ## Opening a module for an import -/

/-- Find a module and open it, as an import does before it binds anything. -/
def Engine.openImport (engine : Engine) (path : String) (env : FrameId) : Exec FrameId := do
  match engine.loader with
  | none => Exec.raise (.badImport (.noLoader path))
  | some loader =>
      match loader (← Exec.read (·.heap.dir env)) path with
      | .error problem => Exec.raise (.badImport problem)
      | .ok found => engine.openModule found env

theorem Engine.importModule_bind (engine : Engine) (path : String) (name : Option String)
    (env : FrameId) (state : State) : engine.importModule path name env state
      = (engine.openImport path env >>= Exec.bindExports name env) state := by
  rw [← importBy_openModule]
  unfold importBy openImport
  cases engine.loader with
  | none => rfl
  | some loader =>
      simp only [Exec.bind_eq, Exec.read]
      cases loader (state.heap.dir env) path <;> rfl

theorem Thorough.openImport {permits : Permits} {R : Relation} {first second : Engine}
    (thorough : Thorough permits R) (loaders : first.loader = second.loader) (path : String)
    (env : FrameId) (stmts : ∀ stmt, ExecRelated permits R first second stmt) :
    R FrameId (first.openImport path env) (second.openImport path env) := by
  unfold Engine.openImport
  rw [← loaders]
  cases first.loader with
  | none => exact thorough.raise _ rfl
  | some loader =>
      refine thorough.lookUp (fun heap => heap.dir env) fun heap _ => ?_
      cases loader (heap.dir env) path with
      | error problem => exact thorough.raise _ rfl
      | ok found => exact thorough.opens found env fun _ _ part _ => stmts part

namespace Engine

variable {loader : Option Loader} {depth : Nat} {path : String} {env : FrameId} {state next : State}

/-- No method is noted in a frame, or a module is opened from there without a `super` call that runs
there. -/
def Undisturbed (loader : Option Loader) (depth : Nat) (path : String) (env : FrameId)
    (state : State) : Prop :=
  state.heap.noted? env = none ∨ (shunning env loader depth).openImport path env state ≠ .spent

/-- However the opening of a module ends, it leaves the names of the importing frame alone. -/
theorem openImport_standing (apart : state.heap.Apart env)
    (undisturbed : Undisturbed loader depth path env state)
    (left : ((ofDepth loader depth).openImport path env state).state? = some next) :
    next.heap.Apart env ∧ next.heap.standing env = state.heap.standing env := by
  have same : (shunning env loader depth).openImport path env state
      = (ofDepth loader depth).openImport path env state := by
    rcases undisturbed with unnoted | finishes
    · have related : EnginesRelated (SameWhile env none) (ofDepth loader depth)
          (shunning env loader depth) := barred_sameWhile (fun _ _ _ passes => passes) loader depth
      have opened := SameWhile.uniform.toThorough.openImport related.loaders path env
        fun stmt => SameWhile.uniform.execs related stmt
      exact (opened state ⟨apart.old, unnoted⟩ (Outcome.ended_of_left left)).1
    · have related := barred_agrees (Heap.enters env) loader depth
      have opened := Agrees.uniform.toThorough.openImport related.loaders path env
        fun stmt => Agrees.uniform.execs related stmt
      exact (opened state finishes).symm
  have lasting := Heap.standing_lasting env (state.heap.standing env)
  have old (heap : Heap) (kept : heap.Apart env ∧ heap.standing env = state.heap.standing env) :=
    kept.1.old
  have related := lasting.shunning old loader depth
  have kept := (lasting.thorough old).openImport related.loaders path env
    fun stmt => related.execs stmt
  exact (kept state ⟨apart, rfl⟩ next (by rw [same]; exact left)).2

end Engine

/-! ## Binding what a module exports -/

namespace Heap

variable {heap : Heap} {env frame : FrameId} {exports rest : List (String × Value)}
variable {name key : String} {value : Value}

theorem mem_bindings_names :
    name ∈ (heap.bindings frame).map Prod.fst ↔ name ∈ heap.names frame := by
  rw [mem_names, bindings, localVariable?]
  cases heap.frames[frame]? with
  | none => simp
  | some there =>
      have perm := List.mergeSort_perm there.vars.entries fun a b => decide (a.1 ≤ b.1)
      simp only [Fields.sorted, Fields.get?, List.map_map, List.mem_map, perm.mem_iff,
        Function.comp_apply, List.lookup_isSome_iff, beq_iff_eq]
      simp only [eq_comm]

theorem bindings_sorted (heap : Heap) (frame : FrameId) :
    ((heap.bindings frame).map Prod.fst).Pairwise (· ≤ ·) := by
  unfold bindings
  cases heap.frames[frame]? with
  | none => exact .nil
  | some there =>
      have sorted : there.vars.sorted.Pairwise fun a b => decide (a.1 ≤ b.1) = true :=
        List.pairwise_mergeSort
          (fun a b c first second => by
            simp only [decide_eq_true_eq] at *
            exact String.le_trans first second)
          (fun a b => by simpa using String.le_total a.1 b.1) there.vars.entries
      rw [List.map_map, List.pairwise_map]
      exact sorted.imp fun ordered => of_decide_eq_true ordered

theorem constants_bind_free (value : Value) (free : key ∉ heap.constants env) :
    (heap.bind env key ⟨value, false⟩).constants env = heap.constants env := by
  ext name
  change (∃ old, _ = _) ↔ ∃ old, _ = _
  simp only [localVariable?_bind]
  split
  · next here =>
      rw [here.2]
      refine iff_of_false ?_ free
      rintro ⟨old, bound⟩
      obtain ⟨_, -, same⟩ := Option.map_eq_some_iff.mp bound
      cases same
  · rfl

/-- Names have been bound in a frame, each to a value that was given for it, and no others. -/
structure Gained (env : FrameId) (exports : List (String × Value)) (heap next : Heap) : Prop where
  bound : ∀ name ∈ exports.map Prod.fst, ∃ value, (name, value) ∈ exports ∧
    next.localVariable? env name = some ⟨value, false⟩
  others : ∀ name ∉ exports.map Prod.fst, next.localVariable? env name = heap.localVariable? env name

namespace Gained

variable {next : Heap}

theorem names (gained : Gained env exports heap next) :
    next.names env = heap.names env ∪ {name | name ∈ exports.map Prod.fst} := by
  ext name
  rw [Set.mem_union, mem_names, mem_names]
  by_cases exported : name ∈ exports.map Prod.fst
  · obtain ⟨value, -, bound⟩ := gained.bound name exported
    exact ⟨fun _ => Or.inr exported, fun _ => by rw [bound]; rfl⟩
  · rw [gained.others name exported]
    exact ⟨Or.inl, fun either => either.resolve_right exported⟩

theorem cons (old : env < heap.frames.size)
    (gained : Gained env rest (heap.bind env key ⟨value, false⟩) next) :
    Gained env ((key, value) :: rest) heap next where
  bound name member := by
    by_cases again : name ∈ rest.map Prod.fst
    · obtain ⟨later, given, bound⟩ := gained.bound name again
      exact ⟨later, List.mem_cons_of_mem _ given, bound⟩
    · have same : name = key := by simpa [again] using member
      subst same
      refine ⟨value, List.mem_cons_self, ?_⟩
      rw [gained.others name again, localVariable?_bind, if_pos ⟨rfl, rfl⟩,
        Array.getElem?_eq_getElem old, Option.map_some]
  others name absent := by
    simp only [List.map_cons, List.mem_cons, not_or] at absent
    rw [gained.others name absent.2, localVariable?_bind, if_neg fun same => absent.1 same.2]

end Gained

end Heap

namespace Store

variable {heap : Heap} {env : FrameId} {key : String} {value : Value}

theorem set_of_free (free : key ∉ heap.constants env) :
    set env key value heap = (.ok (), heap.bind env key ⟨value, false⟩) := by
  rw [set_eq]
  split
  · next old bound => exact absurd ⟨old, bound⟩ free
  · rfl

theorem set_of_constant (constant : key ∈ heap.constants env) :
    set env key value heap = (.error (.declaredTwice key), heap) := by
  obtain ⟨old, bound⟩ := constant
  rw [set_eq, bound]

theorem setAll_of_free {exports : List (String × Value)} (old : env < heap.frames.size)
    (free : ∀ name ∈ exports.map Prod.fst, name ∉ heap.constants env) :
    ∃ next, setAll env exports heap = (.ok (), next) ∧ Heap.Gained env exports heap next ∧
      next.constants env = heap.constants env := by
  induction exports generalizing heap with
  | nil => exact ⟨heap, rfl, ⟨nofun, fun _ _ => rfl⟩, rfl⟩
  | cons entry rest ih =>
      obtain ⟨key, value⟩ := entry
      simp only [List.map_cons, List.mem_cons, forall_eq_or_imp] at free
      have still := Heap.constants_bind_free value free.1
      have there : env < (heap.bind env key ⟨value, false⟩).frames.size := by simpa using old
      obtain ⟨next, wrote, gained, constants⟩ := ih there (by rw [still]; exact free.2)
      refine ⟨next, ?_, gained.cons old, constants.trans still⟩
      rw [setAll, bind_eq, set_of_free free.1]
      exact wrote

theorem setAll_append (env : FrameId) (first second : List (String × Value)) (heap : Heap) :
    setAll env (first ++ second) heap
      = (setAll env first >>= fun _ => setAll env second) heap := by
  induction first generalizing heap with
  | nil => rfl
  | cons entry rest ih =>
      rw [List.cons_append, setAll, setAll, bind_eq, bind_eq, bind_eq]
      rcases set env entry.1 entry.2 heap with ⟨_ | _, next⟩
      · rfl
      · exact (ih next).trans (bind_eq _ _ _)

theorem setAll_of_constant {before after : List (String × Value)} (old : env < heap.frames.size)
    (free : ∀ name ∈ before.map Prod.fst, name ∉ heap.constants env)
    (constant : key ∈ heap.constants env) :
    ∃ next, setAll env (before ++ (key, value) :: after) heap = (.error (.declaredTwice key), next) ∧
      Heap.Gained env before heap next := by
  obtain ⟨next, wrote, gained, constants⟩ := setAll_of_free old free
  refine ⟨next, ?_, gained⟩
  rw [setAll_append, bind_eq, wrote]
  change setAll env ((key, value) :: after) next = _
  rw [setAll, bind_eq, set_of_constant (by rw [constants]; exact constant)]

end Store

/-- The first of some exports, in their order, that stands for a constant. -/
structure Heap.Clash (exports constants : Set String) (key : String) : Prop where
  exported : key ∈ exports
  constant : key ∈ constants
  first : ∀ other ∈ exports, other ∈ constants → key ≤ other

namespace Heap

variable {heap : Heap} {env frame : FrameId} {key : String}

/-- Either no export stands for a constant, or the first one that does parts those that come before
it in the order of names from the others. -/
theorem bindings_split (heap : Heap) (env frame : FrameId) :
    (∀ name ∈ (heap.bindings frame).map Prod.fst, name ∉ heap.constants env) ∨
      ∃ before key value after, heap.bindings frame = before ++ (key, value) :: after ∧
        Clash (heap.names frame) (heap.constants env) key ∧
        (∀ name ∈ before.map Prod.fst, name ∉ heap.constants env) ∧
        ∀ name, name ∈ before.map Prod.fst ↔ name ∈ heap.names frame ∧ name < key := by
  classical
  cases found : (heap.bindings frame).find? fun entry => decide (entry.1 ∈ heap.constants env) with
  | none =>
      refine Or.inl fun name exported => ?_
      obtain ⟨entry, member, rfl⟩ := List.mem_map.mp exported
      simpa using List.find?_eq_none.mp found entry member
  | some entry =>
      obtain ⟨constant, before, after, parted, passed⟩ := List.find?_eq_some_iff_append.mp found
      obtain ⟨key, value⟩ := entry
      replace constant : key ∈ heap.constants env := of_decide_eq_true constant
      have free : ∀ name ∈ before.map Prod.fst, name ∉ heap.constants env := by
        intro name earlier
        obtain ⟨entry, member, rfl⟩ := List.mem_map.mp earlier
        simpa using passed entry member
      have exported (name : String) : name ∈ heap.names frame ↔
          name ∈ before.map Prod.fst ∨ name = key ∨ name ∈ after.map Prod.fst := by
        rw [← mem_bindings_names, parted]
        simp
      have sorted := heap.bindings_sorted frame
      rw [parted, List.map_append, List.map_cons, List.pairwise_append, List.pairwise_cons] at sorted
      obtain ⟨-, ⟨later, -⟩, earlier⟩ := sorted
      refine Or.inr ⟨before, key, value, after, parted, ⟨?_, constant, fun other held clashes => ?_⟩,
        free, fun name => ⟨fun member => ?_, fun ⟨held, less⟩ => ?_⟩⟩
      · exact (exported key).mpr (Or.inr (Or.inl rfl))
      · rcases (exported other).mp held with member | rfl | member
        · exact absurd clashes (free other member)
        · exact String.le_refl other
        · exact later other member
      · refine ⟨(exported name).mpr (Or.inl member), String.not_le.mp fun above => ?_⟩
        have same := String.le_antisymm (earlier name member key List.mem_cons_self) above
        exact free name member (same ▸ constant)
      · rcases (exported name).mp held with member | rfl | member
        · exact member
        · exact absurd less (String.lt_irrefl name)
        · exact absurd less (String.not_lt.mpr (later name member))

end Heap

namespace Exec

variable {env frame : FrameId} {state : State}

/-- Exports that stand for no constants are all bound. Otherwise those are that come before the first
one that does. -/
theorem bindExports_all (frame : FrameId) (old : env < state.heap.frames.size) :
    (∃ next, bindExports none env frame state = .done () next ∧
      Heap.Gained env (state.heap.bindings frame) state.heap next.heap ∧
      ∀ key, ¬ Heap.Clash (state.heap.names frame) (state.heap.constants env) key) ∨
    ∃ key next, bindExports none env frame state = .fault (.of (.declaredTwice key)) next ∧
      Heap.Clash (state.heap.names frame) (state.heap.constants env) key ∧
      next.heap.names env
        = state.heap.names env ∪ {other | other ∈ state.heap.names frame ∧ other < key} := by
  have ended : bindExports none env frame state
      = (liftM (Store.setAll env (state.heap.bindings frame)) : Exec Unit) state := rfl
  rw [ended, store_eq]
  rcases state.heap.bindings_split env frame with
    free | ⟨before, key, value, after, parted, clash, free, earlier⟩
  · obtain ⟨next, wrote, gained, -⟩ := Store.setAll_of_free old free
    rw [wrote]
    exact Or.inl ⟨_, rfl, gained, fun key clash =>
      free key (Heap.mem_bindings_names.mpr clash.exported) clash.constant⟩
  · obtain ⟨next, wrote, gained⟩ := Store.setAll_of_constant old free clash.constant
    rw [parted, wrote]
    refine Or.inr ⟨key, _, rfl, clash, ?_⟩
    rw [gained.names]
    congr 1
    ext name
    exact earlier name

/-- An alias is bound to a record of the exports, unless it stands for a constant. -/
theorem bindExports_alias (key : String) (frame : FrameId) (old : env < state.heap.frames.size) :
    (∃ next id, bindExports (some key) env frame state = .done () next ∧
      next.heap.names env = insert key (state.heap.names env) ∧
      next.heap.localVariable? env key = some ⟨.record id, false⟩ ∧
      next.heap.record id = .ofList (state.heap.bindings frame)) ∨
    ∃ next, bindExports (some key) env frame state = .fault (.of (.declaredTwice key)) next ∧
      next.heap.names env = state.heap.names env := by
  let made : Heap := (Store.newRecord (.ofList (state.heap.bindings frame)) state.heap).2
  have ended : bindExports (some key) env frame state = (liftM (Store.set env key
      (.record state.heap.records.size)) : Exec Unit) { state with heap := made } := rfl
  rw [ended, store_eq]
  by_cases constant : key ∈ made.constants env
  · rw [Store.set_of_constant constant]
    exact Or.inr ⟨_, rfl, Heap.names_cells rfl⟩
  · let record : Value := .record state.heap.records.size
    have gained : Heap.Gained env [(key, record)] made (made.bind env key ⟨record, false⟩) :=
      .cons old ⟨nofun, fun _ _ => rfl⟩
    rw [Store.set_of_free constant]
    refine Or.inl ⟨_, state.heap.records.size, rfl, ?_, ?_, ?_⟩
    · have same : made.names env = state.heap.names env := Heap.names_cells rfl
      rw [gained.names, same]
      ext name
      simp [or_comm]
    · obtain ⟨value, given, bound⟩ := gained.bound key (by simp)
      cases List.mem_singleton.mp given
      exact bound
    · change made.record state.heap.records.size = _
      simp [made, Store.newRecord, Heap.record]

end Exec

/-! ## Imports -/

/-- Between two heaps, an import of what one frame exports has bound it in another frame, name by name
or under one name. -/
def Heap.Bound (env : FrameId) (before : Heap) (frame : FrameId) (opened next : Heap) :
    Option String → Prop
  | some key => next.names env = insert key (before.names env) ∧
      ∃ id, next.localVariable? env key = some ⟨.record id, false⟩ ∧
        next.record id = .ofList (opened.bindings frame)
  | none => next.names env = before.names env ∪ opened.names frame ∧
      ∀ key ∈ opened.names frame, ∃ value, (key, value) ∈ opened.bindings frame ∧
        next.localVariable? env key = some ⟨value, false⟩

/-- The import that is made once the opening of a module has ended. -/
def Exec.bindOpened (name : Option String) (env : FrameId) (pos : Position) :
    Outcome FrameId → Outcome Signal
  | .done frame state =>
      match bindExports name env frame state with
      | .done _ next => .done (.normal .nil) next
      | .fault fault next => .fault (fault.locate pos) next
      | .spent => .spent
  | .fault fault next => .fault (fault.locate pos) next
  | .spent => .spent

namespace Exec

variable {name : Option String} {env : FrameId} {pos : Position} {before : Heap}
variable {opened : Outcome FrameId}

/-- An import that faults has bound what comes before the first clash, if its exports clash with
constants, and nothing otherwise. -/
theorem bindOpened_fault {fault : Fault} {next : State}
    (kept : ∀ next, opened.state? = some next →
      next.heap.Apart env ∧ next.heap.standing env = before.standing env)
    (failed : bindOpened name env pos opened = .fault fault next) :
    ((∀ frame between key, name = none → opened = .done frame between →
        ¬ Heap.Clash (between.heap.names frame) (before.constants env) key) →
      next.heap.names env = before.names env) ∧
    ∀ frame between key, name = none → opened = .done frame between →
      Heap.Clash (between.heap.names frame) (before.constants env) key →
        fault.cause = .declaredTwice key ∧ next.heap.names env
          = before.names env ∪ {other | other ∈ between.heap.names frame ∧ other < key} := by
  cases opened with
  | spent => cases failed
  | fault fault next =>
      cases failed
      exact ⟨fun _ => Heap.names_congr (kept next rfl).2, fun _ _ _ _ done => by cases done⟩
  | done frame between =>
      obtain ⟨apart, standing⟩ := kept between rfl
      rw [← Heap.names_congr standing, ← Heap.constants_congr standing]
      cases name with
      | some key =>
          rcases bindExports_alias key frame apart.old with ⟨next, id, bound, -⟩ | ⟨after, refused, names⟩
          · simp [bindOpened, bound] at failed
          · simp only [bindOpened, refused] at failed
            cases failed
            exact ⟨fun _ => names, nofun⟩
      | none =>
          rcases bindExports_all frame apart.old with ⟨next, bound, -⟩ | ⟨key, after, refused, clash, names⟩
          · simp [bindOpened, bound] at failed
          · simp only [bindOpened, refused] at failed
            cases failed
            refine ⟨fun free => absurd clash (free frame between key rfl rfl),
              fun _ _ other _ same first => ?_⟩
            cases same
            have least : other = key := String.le_antisymm
              (first.first key clash.exported clash.constant)
              (clash.first other first.exported first.constant)
            subst least
            exact ⟨by simp [Fault.of], names⟩

theorem bindOpened_clash {frame : FrameId} {between : State} {key : String}
    (kept : between.heap.Apart env ∧ between.heap.standing env = before.standing env)
    (clash : Heap.Clash (between.heap.names frame) (before.constants env) key) :
    ∃ fault next, bindOpened none env pos (.done frame between) = .fault fault next := by
  rw [← Heap.constants_congr kept.2] at clash
  rcases bindExports_all frame kept.1.old with ⟨next, -, -, free⟩ | ⟨first, next, refused, -⟩
  · exact absurd clash (free key)
  · exact ⟨_, next, by rw [bindOpened, refused]⟩

theorem bindOpened_done {signal : Signal} {next : State}
    (kept : ∀ next, opened.state? = some next →
      next.heap.Apart env ∧ next.heap.standing env = before.standing env)
    (ended : bindOpened name env pos opened = .done signal next) :
    ∃ frame between, opened = .done frame between ∧
      Heap.Bound env before frame between.heap next.heap name := by
  cases opened with
  | spent | fault => cases ended
  | done frame between =>
      obtain ⟨apart, standing⟩ := kept between rfl
      refine ⟨frame, between, rfl, ?_⟩
      cases name with
      | some key =>
          rcases bindExports_alias key frame apart.old with ⟨after, id, bound, names, held⟩ | ⟨after, refused, -⟩
          · simp only [bindOpened, bound] at ended
            cases ended
            exact ⟨by rw [names, Heap.names_congr standing], id, held⟩
          · simp [bindOpened, refused] at ended
      | none =>
          rcases bindExports_all frame apart.old with ⟨after, bound, gained, -⟩ | ⟨key, after, refused, -⟩
          · simp only [bindOpened, bound] at ended
            cases ended
            refine ⟨?_, fun key exported => gained.bound key (Heap.mem_bindings_names.mpr exported)⟩
            rw [gained.names, Heap.names_congr standing]
            congr 1
            ext key
            exact Heap.mem_bindings_names
          · simp [bindOpened, refused] at ended

end Exec

theorem Engine.exec_import_eq (loader : Option Loader) (depth : Nat) (pos : Position)
    (path : String) (name : Option String) (env : FrameId) (state : State) :
    (ofDepth loader (depth + 1)).exec (.import_ pos path name) env state
      = Exec.bindOpened name env pos ((ofDepth loader depth).openImport path env state) := by
  rw [exec, perform_succ]
  change Exec.locate pos ((ofDepth loader depth).importModule path name env >>= _) state = _
  rw [Exec.locate_eq, Exec.bind_eq, importModule_bind, Exec.bind_eq]
  cases (ofDepth loader depth).openImport path env state with
  | done frame between =>
      unfold Exec.bindOpened
      dsimp only
      cases Exec.bindExports name env frame between <;> rfl
  | fault | spent => rfl

/-- Frames in which statements run are new at first, and so not those of instances, and they do not
become that. An import that faults in such a frame leaves its names as they were, unless exports are
bound name by name and one of them stands for a constant of the frame: then it is refused for the
first of these in the order of names, and the frame has gained the exports that come before it.
Every import that ends has bound its alias, or else all exports, and no other name. All this is said
of frames in which no method is noted, and of others as long as no `super` call runs there while the
module is opened. -/
theorem import_binds (loader : Option Loader) (depth : Nat) :
    (∀ (heap : Heap) (env : FrameId), (∀ (id : Nat) (object : Object),
        heap.objects[id]? = some object → object.frame < heap.frames.size) →
      (Store.child env heap).2.Apart heap.frames.size) ∧
    (∀ {α : Type} (request : Request α) (state next : State) (env : FrameId),
      state.heap.Apart env →
      ((Engine.ofDepth loader depth).fulfil request state).state? = some next →
        next.heap.Apart env) ∧
    ∀ (pos : Position) (path : String) (name : Option String) (env : FrameId) (state : State),
      state.heap.Apart env → Engine.Undisturbed loader depth path env state →
      let opened := (Engine.ofDepth loader depth).openImport path env state
      let imported := (Engine.ofDepth loader (depth + 1)).exec (.import_ pos path name) env state
      (∀ fault next, imported = .fault fault next →
        ((∀ frame between key, name = none → opened = .done frame between →
            ¬ Heap.Clash (between.heap.names frame) (state.heap.constants env) key) →
          next.heap.names env = state.heap.names env) ∧
        ∀ frame between key, name = none → opened = .done frame between →
          Heap.Clash (between.heap.names frame) (state.heap.constants env) key →
            fault.cause = .declaredTwice key ∧ next.heap.names env = state.heap.names env
              ∪ {other | other ∈ between.heap.names frame ∧ other < key}) ∧
      (∀ frame between key, name = none → opened = .done frame between →
        Heap.Clash (between.heap.names frame) (state.heap.constants env) key →
          ∃ fault next, imported = .fault fault next) ∧
      ∀ signal next, imported = .done signal next → ∃ frame between, opened = .done frame between ∧
        Heap.Bound env state.heap frame between.heap next.heap name := by
  refine ⟨fun heap env => .child env,
    fun request state next env apart => Engine.fulfil_apart loader depth request apart,
    fun pos path name env state apart undisturbed => ?_⟩
  intro opened imported
  have kept (next : State) (left : opened.state? = some next) :=
    Engine.openImport_standing apart undisturbed left
  have imports : imported = Exec.bindOpened name env pos opened :=
    Engine.exec_import_eq loader depth pos path name env state
  rw [imports]
  refine ⟨fun fault next failed => Exec.bindOpened_fault kept failed,
    fun frame between key plain done clash => ?_,
    fun signal next ended => Exec.bindOpened_done kept ended⟩
  subst plain
  rw [done]
  exact Exec.bindOpened_clash (kept between (by rw [done]; rfl)) clash

def ModuleTable.pair : ModuleTable := .ofList [("lib", "let a = true\nlet b = true")]

/-- A state in which the globals hold a constant `b` and nothing else. -/
def State.guarded : State :=
  .ofHeap { Heap.empty with frames := #[⟨⟨[("b", ⟨.nil, true⟩)]⟩, none, ".", none⟩] }

theorem State.guarded_apart : State.guarded.heap.Apart globals :=
  ⟨by decide, fun _ _ found => by simp [guarded, ofHeap, Heap.empty] at found⟩

theorem State.guarded_clash : ∃ frame between,
    (Engine.ofDepth (some ModuleTable.pair.resolve) 5).openImport "lib" globals .guarded
        = .done frame between ∧
      Heap.Clash (between.heap.names frame) (State.guarded.heap.constants globals) "b" ∧
      "a" ∈ between.heap.names frame := by
  have exported : ((Engine.ofDepth (some ModuleTable.pair.resolve) 5).openImport "lib" globals
      .guarded).passes (fun frame between => (between.heap.localVariable? frame "a").isSome
        && (between.heap.localVariable? frame "b").isSome) = true := by decide +kernel
  obtain ⟨frame, between, opened, both⟩ := Outcome.passes_iff.mp exported
  obtain ⟨first, second⟩ := Bool.and_eq_true_iff.mp both
  refine ⟨frame, between, opened, ⟨second, ⟨.nil, rfl⟩, ?_⟩, first⟩
  rintro other - ⟨value, bound⟩
  by_cases same : other = "b"
  · subst same
    exact String.le_refl _
  · simp [guarded, ofHeap, Heap.localVariable?, globals, Fields.get?, List.lookup_cons,
      beq_eq_false_iff_ne.mpr same] at bound

/-- The import is refused because of `b`, but by then it has bound `a`. -/
theorem import_not_all_or_nothing : ∃ fault next,
    (Engine.ofDepth (some ModuleTable.pair.resolve) 6).exec (.import_ .unknown "lib" none) globals
        .guarded = .fault fault next ∧
      "a" ∉ State.guarded.heap.names globals ∧ "a" ∈ next.heap.names globals := by
  obtain ⟨frame, between, opened, clash, exported⟩ := State.guarded_clash
  have kept (next : State) (left : ((Engine.ofDepth (some ModuleTable.pair.resolve) 5).openImport
      "lib" globals .guarded).state? = some next) :=
    Engine.openImport_standing State.guarded_apart (Or.inl rfl) left
  rw [Engine.exec_import_eq _ 5 .unknown "lib" none globals .guarded]
  obtain ⟨fault, next, failed⟩ : ∃ fault next, Exec.bindOpened none globals .unknown
      (.done frame between) = .fault fault next :=
    Exec.bindOpened_clash (kept between (by rw [opened]; rfl)) clash
  rw [← opened] at failed
  obtain ⟨-, names⟩ := (Exec.bindOpened_fault kept failed).2 frame between "b" rfl opened clash
  refine ⟨fault, next, failed, nofun, ?_⟩
  rw [names]
  exact Or.inr ⟨exported, by decide⟩

/-- A table with a module that calls a method of a parent class and then throws. -/
def ModuleTable.asking : ModuleTable := .ofList [("lib", "super.k(true)\nthrow nil")]

/-- While a method runs, a module that it imports can make `super` calls in its frame. Such a call
binds its parameters there, and they stay when the import faults. -/
theorem import_disturbed_by_super :
    ¬ ∀ (loader : Option Loader) (depth : Nat) (pos : Position) (path : String)
        (name : Option String) (env : FrameId) (state next : State) (fault : Fault),
      state.heap.Apart env →
      (Engine.ofDepth loader (depth + 1)).exec (.import_ pos path name) env state
        = .fault fault next →
      (∀ frame between key, name = none →
        (Engine.ofDepth loader depth).openImport path env state = .done frame between →
          ¬ Heap.Clash (between.heap.names frame) (state.heap.constants env) key) →
      next.heap.names env = state.heap.names env := by
  intro claim
  let heap : Heap := { Heap.promised with frames := Heap.chain.frames }
  let run := (Engine.ofDepth (some ModuleTable.asking.resolve) 6).exec
    (.import_ .unknown "lib" (some "m")) 1 (.ofHeap heap)
  have faults : (!run.isDone && run.state?.any fun next =>
      (next.heap.localVariable? 1 "x").isSome) = true := by decide +kernel
  have apart : heap.Apart 1 :=
    ⟨by decide, fun _ _ found => by simp [heap, Heap.promised, Heap.chain, Heap.empty] at found⟩
  cases ended : run with
  | fault fault next =>
      have same : next.heap.names 1 = heap.names 1 :=
        claim _ 5 .unknown "lib" (some "m") 1 _ next fault apart ended fun _ _ _ plain => by cases plain
      have bound : (next.heap.localVariable? 1 "x").isSome = true := by
        simpa [ended, Outcome.state?, Outcome.isDone] using faults
      have before : "x" ∈ heap.names 1 := by
        rw [← same]
        exact bound
      cases before
  | done | spent => simp [ended, Outcome.state?, Outcome.isDone] at faults

/-- Without an alias the import gains `a` before it is refused because of `b`; with one it ends. -/
theorem import_binds_guarded :
    let engine := Engine.ofDepth (some ModuleTable.pair.resolve) 6
    (∃ fault next, engine.exec (.import_ .unknown "lib" none) globals .guarded = .fault fault next ∧
      fault.cause = .declaredTwice "b" ∧ "a" ∈ next.heap.names globals) ∧
    ∃ signal next, engine.exec (.import_ .unknown "lib" (some "m")) globals .guarded
        = .done signal next ∧
      next.heap.names globals = insert "m" (State.guarded.heap.names globals) := by
  intro engine
  obtain ⟨-, -, binds⟩ := import_binds (some ModuleTable.pair.resolve) 5
  have undisturbed : Engine.Undisturbed (some ModuleTable.pair.resolve) 5 "lib" globals .guarded :=
    Or.inl rfl
  constructor
  · obtain ⟨frame, between, opened, clash, exported⟩ := State.guarded_clash
    obtain ⟨faults, refused, -⟩ :=
      binds .unknown "lib" none globals .guarded State.guarded_apart undisturbed
    obtain ⟨fault, next, failed⟩ := refused frame between "b" rfl opened clash
    obtain ⟨cause, names⟩ := (faults fault next failed).2 frame between "b" rfl opened clash
    exact ⟨fault, next, failed, cause, by rw [names]; exact Or.inr ⟨exported, by decide⟩⟩
  · obtain ⟨-, -, ends⟩ :=
      binds .unknown "lib" (some "m") globals .guarded State.guarded_apart undisturbed
    have done : (engine.exec (.import_ .unknown "lib" (some "m")) globals .guarded).passes
        (fun _ _ => true) = true := by decide +kernel
    obtain ⟨signal, next, ended, -⟩ := Outcome.passes_iff.mp done
    obtain ⟨frame, between, -, names, -⟩ := ends signal next ended
    exact ⟨signal, next, ended, names⟩

end Rill

import Rill.Grammar.Program
import Rill.Module
import Rill.Proofs.Parts

/-!
# Tame programs

An instance evaluates the default values of its fields before anything asks the limiter. A program
is tame when these values contain no call that their evaluation may come to; functions inside them
may contain any, since they are not called there.
-/

set_option autoImplicit false

namespace Rill

/-- The evaluation of an expression comes to no call. -/
inductive Expr.CallFree : Expr → Prop where
  | intro {expr : Expr} (own : expr.isCall = false) (needs : ∀ part ∈ expr.needs, part.CallFree) :
      expr.CallFree

theorem Expr.callFree_of_isSuper {expr : Expr} (parent : expr.isSuper = true) : expr.CallFree := by
  cases expr with
  | super_ => exact ⟨rfl, by simp [needs]⟩
  | _ => cases parent

mutual

/-- Every class that a tree declares has default values whose evaluation comes to no call. -/
inductive Expr.Tame : Expr → Prop where
  | intro {expr : Expr} (needs : ∀ part ∈ expr.needs, part.Tame)
      (functions : ∀ fn ∈ expr.functions, fn.Tame) : expr.Tame

inductive Function.Tame : Function → Prop where
  | intro {fn : Function} (exprs : ∀ part ∈ fn.exprs, part.Tame)
      (stmts : ∀ part ∈ fn.stmts, part.Tame) : fn.Tame

inductive Stmt.Tame : Stmt → Prop where
  | intro {stmt : Stmt} (exprs : ∀ part ∈ stmt.exprs, part.Tame)
      (stmts : ∀ part ∈ stmt.stmts, part.Tame) (functions : ∀ fn ∈ stmt.functions, fn.Tame)
      (callFree : ∀ decl ∈ stmt.classes, ∀ value ∈ decl.defaults, value.CallFree)
      (defaults : ∀ decl ∈ stmt.classes, ∀ value ∈ decl.defaults, value.Tame)
      (methods : ∀ decl ∈ stmt.classes, ∀ fn ∈ decl.methods, fn.Tame) : stmt.Tame

end

def Program.Tame (program : Program) : Prop := ∀ stmt ∈ program.body, stmt.Tame

def ModuleTable.programs (table : ModuleTable) : List Program :=
  table.sources.entries.filterMap fun (key, source) =>
    (Program.parse source (Path.directory key)).toOption

theorem ModuleTable.resolve_eq_ok {table : ModuleTable} {dir path : String} {found : Module}
    (resolved : table.resolve dir path = .ok found) :
    table.sources.get? found.key = some found.source ∧ found.dir = Path.directory found.key := by
  simp only [ModuleTable.resolve] at resolved
  split at resolved
  · rename_i source read
    cases resolved
    exact ⟨read, rfl⟩
  · cases resolved

theorem ModuleTable.mem_programs {table : ModuleTable} {dir path : String} {found : Module}
    {program : Program} (resolved : table.resolve dir path = .ok found)
    (parsed : Program.parse found.source found.dir = .ok program) : program ∈ table.programs := by
  obtain ⟨read, place⟩ := resolve_eq_ok resolved
  obtain ⟨before, after, split, -⟩ := List.lookup_eq_some_iff.mp read
  refine List.mem_filterMap.mpr ⟨(found.key, found.source), by simp [split], ?_⟩
  change (Program.parse found.source (Path.directory found.key)).toOption = some program
  rw [← place, parsed]
  rfl

end Rill

import Rill.Syntax

/-!
# The parts of syntax trees

Which expressions and statements the evaluation of a tree may come to, which functions it may turn
into closures, and which classes it may declare. Parts are smaller than the whole, so a fact that
passes from the parts to the whole holds of every tree.
-/

set_option autoImplicit false

namespace Rill

namespace TemplatePart

def exprs : TemplatePart → List Expr
  | text _ => []
  | hole expr => [expr]

end TemplatePart

namespace Key

def exprs : Key → List Expr
  | name _ => []
  | computed key => [key]

end Key

namespace Entry

def exprs : Entry → List Expr
  | field key value => key.exprs ++ [value]
  | spread source => [source]

end Entry

namespace Arm

def exprs (arm : Arm) : List Expr := arm.guard.toList ++ [arm.body]

end Arm

namespace Clause

def expr : Clause → Expr
  | each _ source => source
  | only cond => cond

end Clause

namespace Expr

def bare : Expr → Expr
  | .spread _ inner => inner
  | item => item

def calleeNeeds : Expr → List Expr
  | .super_ _ _ => []
  | .member _ object _ _ => [object]
  | callee => [callee]

def needs : Expr → List Expr
  | .literal _ _ | .ident _ _ | .function _ _ | .spread _ _ | .super_ _ _ => []
  | .template _ parts => parts.flatMap TemplatePart.exprs
  | .array _ items => items.map bare
  | .record _ entries => entries.flatMap Entry.exprs
  | .binary _ _ left right => [left, right]
  | .unary _ _ operand => [operand]
  | .ternary _ cond yes no => [cond, yes, no]
  | .call _ callee args => callee.calleeNeeds ++ args.map bare
  | .member _ object _ _ => [object]
  | .index _ object place => [object, place]
  | .match_ _ subject arms => subject :: arms.flatMap Arm.exprs
  | .arrayOf _ element clauses => element :: clauses.map Clause.expr
  | .recordOf _ key value clauses => key :: value :: clauses.map Clause.expr

def functions : Expr → List Function
  | .function _ fn => [fn]
  | _ => []

/-- Whether an expression is a call, written with parentheses or as a pipe. -/
def isCall : Expr → Bool
  | .call _ _ _ => true
  | .binary _ op _ _ => op = .pipe
  | _ => false

def isSuper : Expr → Bool
  | .super_ _ _ => true
  | _ => false

def isSuperCall : Expr → Bool
  | .call _ callee _ => callee.isSuper
  | _ => false

theorem isCall_of_isSuperCall {expr : Expr} (parent : expr.isSuperCall = true) :
    expr.isCall = true := by
  cases expr with
  | call => rfl
  | _ => cases parent

end Expr

namespace Function

/-- The default values of the parameters of a function, and its body if that is an expression. -/
def exprs (fn : Function) : List Expr :=
  fn.params.filterMap Binding.value ++
    match fn.body with
    | .value expr => [expr]
    | .block _ => []

def stmts (fn : Function) : List Stmt :=
  match fn.body with
  | .value _ => []
  | .block block => block.stmts

end Function

namespace ClassDecl

def defaults (decl : ClassDecl) : List Expr := decl.fields.filterMap Binding.value

end ClassDecl

namespace Handler

def stmts (handler : Handler) : List Stmt := handler.body.stmts

end Handler

namespace Stmt

def exprs : Stmt → List Expr
  | .expr _ value => [value]
  | .declare _ _ bindings => bindings.filterMap Binding.value
  | .destructure _ _ _ value => [value]
  | .assign _ target _ value => value :: target.needs
  | .if_ _ cond _ _ | .while_ _ cond _ => [cond]
  | .for_ _ _ cond _ _ => cond.toList
  | .forIn _ _ source _ => [source]
  | .return_ _ value => value.toList
  | .throw_ _ value => [value]
  | .function _ _ | .class_ _ _ | .block _ _ | .break_ _ | .continue_ _ | .try_ _ _ _ _
  | .import_ _ _ _ => []

def stmts : Stmt → List Stmt
  | .if_ _ _ yes no => yes.stmts ++ no.toList
  | .while_ _ _ body | .forIn _ _ _ body | .block _ body => body.stmts
  | .for_ _ init _ post body => init.toList ++ post.toList ++ body.stmts
  | .try_ _ body handler cleanup =>
      body.stmts ++ handler.toList.flatMap Handler.stmts ++ cleanup.toList.flatMap Block.stmts
  | .expr _ _ | .declare _ _ _ | .destructure _ _ _ _ | .assign _ _ _ _ | .function _ _
  | .class_ _ _ | .return_ _ _ | .break_ _ | .continue_ _ | .throw_ _ _ | .import_ _ _ _ => []

def functions : Stmt → List Function
  | .function _ fn => [fn]
  | _ => []

/-- Whether a statement may declare names in the frame it runs in. All but the last branch of an
`if` runs in a frame of its own. -/
def declares : Stmt → Bool
  | .declare _ _ _ | .destructure _ _ _ _ | .function _ _ | .class_ _ _ | .import_ _ _ _ => true
  | .if_ _ _ _ (some no) => no.declares
  | .if_ _ _ _ none | .expr _ _ | .assign _ _ _ _ | .while_ _ _ _ | .for_ _ _ _ _ _
  | .forIn _ _ _ _ | .block _ _ | .return_ _ _ | .break_ _ | .continue_ _ | .try_ _ _ _ _
  | .throw_ _ _ => false

def classes : Stmt → List ClassDecl
  | .class_ _ decl => [decl]
  | _ => []

end Stmt

/-! ## Parts are smaller -/

theorem sizeOf_mem_flatMap {α β : Type} [SizeOf α] [SizeOf β] (f : α → List β)
    (smaller : ∀ a, ∀ b ∈ f a, sizeOf b < sizeOf a) {whole : List α} {part : β}
    (member : part ∈ whole.flatMap f) : sizeOf part < sizeOf whole := by
  obtain ⟨a, place, inside⟩ := List.mem_flatMap.mp member
  have := smaller a part inside
  have := List.sizeOf_lt_of_mem place
  omega

theorem sizeOf_mem_toList {α : Type} [SizeOf α] {whole : Option α} {part : α}
    (member : part ∈ whole.toList) : sizeOf part < sizeOf whole := by
  cases whole with
  | none => simp at member
  | some a =>
      simp only [Option.toList_some, List.mem_singleton] at member
      subst member
      simp

theorem TemplatePart.sizeOf_mem_exprs (whole : TemplatePart) :
    ∀ part ∈ whole.exprs, sizeOf part < sizeOf whole := by
  intro part member
  cases whole <;> simp_all [exprs]

theorem Entry.sizeOf_mem_exprs (whole : Entry) :
    ∀ part ∈ whole.exprs, sizeOf part < sizeOf whole := by
  intro part member
  cases whole with
  | field key value =>
      simp only [field.sizeOf_spec]
      cases key with
      | name text =>
          simp only [exprs, Key.exprs, List.nil_append, List.mem_singleton] at member
          subst member
          omega
      | computed key =>
          simp only [exprs, Key.exprs, List.cons_append, List.nil_append, List.mem_cons,
            List.not_mem_nil, or_false] at member
          simp only [Key.computed.sizeOf_spec]
          rcases member with rfl | rfl <;> omega
  | spread source =>
      simp only [exprs, List.mem_singleton] at member
      subst member
      simp

theorem Arm.sizeOf_mem_exprs (whole : Arm) :
    ∀ part ∈ whole.exprs, sizeOf part < sizeOf whole := by
  intro part member
  obtain ⟨pattern, guard, body⟩ := whole
  simp only [exprs, List.mem_append, List.mem_singleton] at member
  simp only [mk.sizeOf_spec]
  rcases member with guarded | rfl
  · have := sizeOf_mem_toList guarded
    omega
  · omega

theorem Clause.sizeOf_expr_lt (clause : Clause) : sizeOf clause.expr < sizeOf clause := by
  cases clause with
  | each name source => simp only [expr, each.sizeOf_spec]; omega
  | only cond => simp [expr]

theorem Binding.sizeOf_mem_values {bindings : List Binding} {part : Expr}
    (member : part ∈ bindings.filterMap Binding.value) : sizeOf part < sizeOf bindings := by
  obtain ⟨binding, place, given⟩ := List.mem_filterMap.mp member
  have := List.sizeOf_lt_of_mem place
  obtain ⟨name, value⟩ := binding
  dsimp only at given
  subst given
  simp only [mk.sizeOf_spec, Option.some.sizeOf_spec] at this
  omega

theorem Block.sizeOf_mem_stmts {block : Block} {part : Stmt} (member : part ∈ block.stmts) :
    sizeOf part < sizeOf block := by
  obtain ⟨stmts, pos⟩ := block
  have : sizeOf part < sizeOf stmts := List.sizeOf_lt_of_mem member
  simp only [mk.sizeOf_spec]
  omega

namespace Expr

theorem sizeOf_pos (expr : Expr) : 0 < sizeOf expr := by
  cases expr <;> grind

theorem sizeOf_mem_map_bare {items : List Expr} {part : Expr} (member : part ∈ items.map bare) :
    sizeOf part < sizeOf items := by
  obtain ⟨item, place, rfl⟩ := List.mem_map.mp member
  have inside : sizeOf item.bare ≤ sizeOf item := by
    cases item <;> simp [bare]
  have := List.sizeOf_lt_of_mem place
  omega

theorem sizeOf_mem_calleeNeeds {callee part : Expr} (member : part ∈ callee.calleeNeeds) :
    sizeOf part ≤ sizeOf callee := by
  cases callee with
  | super_ => simp [calleeNeeds] at member
  | member pos object name optional =>
      simp only [calleeNeeds, List.mem_singleton] at member
      subst member
      simp only [member.sizeOf_spec]
      omega
  | _ =>
      simp only [calleeNeeds, List.mem_singleton] at member
      exact Nat.le_of_eq (by rw [member])

theorem sizeOf_mem_map_clause {clauses : List Clause} {part : Expr}
    (member : part ∈ clauses.map Clause.expr) : sizeOf part < sizeOf clauses := by
  obtain ⟨clause, place, rfl⟩ := List.mem_map.mp member
  have := clause.sizeOf_expr_lt
  have := List.sizeOf_lt_of_mem place
  omega

theorem sizeOf_mem_needs {whole part : Expr} (member : part ∈ whole.needs) :
    sizeOf part < sizeOf whole := by
  cases whole with
  | literal | ident | function | spread | super_ => simp [needs] at member
  | template pos parts =>
      have := sizeOf_mem_flatMap _ TemplatePart.sizeOf_mem_exprs member
      simp only [template.sizeOf_spec]
      omega
  | array pos items =>
      have := sizeOf_mem_map_bare member
      simp only [array.sizeOf_spec]
      omega
  | record pos entries =>
      have := sizeOf_mem_flatMap _ Entry.sizeOf_mem_exprs member
      simp only [record.sizeOf_spec]
      omega
  | binary pos op left right =>
      simp only [needs, List.mem_cons, List.not_mem_nil, or_false] at member
      simp only [binary.sizeOf_spec]
      rcases member with rfl | rfl <;> omega
  | unary pos op operand =>
      simp only [needs, List.mem_singleton] at member
      subst member
      simp only [unary.sizeOf_spec]
      omega
  | ternary pos cond yes no =>
      simp only [needs, List.mem_cons, List.not_mem_nil, or_false] at member
      simp only [ternary.sizeOf_spec]
      rcases member with rfl | rfl | rfl <;> omega
  | call pos callee args =>
      simp only [needs, List.mem_append] at member
      simp only [call.sizeOf_spec]
      rcases member with member | member
      · have := sizeOf_mem_calleeNeeds member
        omega
      · have := sizeOf_mem_map_bare member
        omega
  | member pos object name optional =>
      simp only [needs, List.mem_singleton] at member
      subst member
      simp only [member.sizeOf_spec]
      omega
  | index pos object place =>
      simp only [needs, List.mem_cons, List.not_mem_nil, or_false] at member
      simp only [index.sizeOf_spec]
      rcases member with rfl | rfl <;> omega
  | match_ pos subject arms =>
      simp only [needs, List.mem_cons] at member
      simp only [match_.sizeOf_spec]
      rcases member with rfl | member
      · omega
      · have := sizeOf_mem_flatMap _ Arm.sizeOf_mem_exprs member
        omega
  | arrayOf pos element clauses =>
      simp only [needs, List.mem_cons] at member
      simp only [arrayOf.sizeOf_spec]
      rcases member with rfl | member
      · omega
      · have := sizeOf_mem_map_clause member
        omega
  | recordOf pos key value clauses =>
      simp only [needs, List.mem_cons] at member
      simp only [recordOf.sizeOf_spec]
      rcases member with rfl | rfl | member
      · omega
      · omega
      · have := sizeOf_mem_map_clause member
        omega

theorem sizeOf_mem_functions {whole : Expr} {fn : Function} (member : fn ∈ whole.functions) :
    sizeOf fn < sizeOf whole := by
  cases whole with
  | function pos fn =>
      simp only [functions, List.mem_singleton] at member
      subst member
      simp only [function.sizeOf_spec]
      omega
  | _ => simp [functions] at member

end Expr

namespace Function

theorem sizeOf_mem_exprs {whole : Function} {part : Expr} (member : part ∈ whole.exprs) :
    sizeOf part < sizeOf whole := by
  obtain ⟨name, params, body, pos⟩ := whole
  simp only [exprs, List.mem_append] at member
  simp only [mk.sizeOf_spec]
  rcases member with default | member
  · have := Binding.sizeOf_mem_values default
    omega
  · cases body with
    | value expr =>
        simp only [List.mem_singleton] at member
        subst member
        simp only [Body.value.sizeOf_spec]
        omega
    | block block => simp at member

theorem sizeOf_mem_stmts {whole : Function} {part : Stmt} (member : part ∈ whole.stmts) :
    sizeOf part < sizeOf whole := by
  obtain ⟨name, params, body, pos⟩ := whole
  simp only [mk.sizeOf_spec]
  cases body with
  | value expr => simp [stmts] at member
  | block block =>
      have := Block.sizeOf_mem_stmts member
      simp only [Body.block.sizeOf_spec]
      omega

end Function

namespace Stmt

theorem sizeOf_pos (stmt : Stmt) : 0 < sizeOf stmt := by
  cases stmt <;> grind

theorem sizeOf_mem_exprs {whole : Stmt} {part : Expr} (member : part ∈ whole.exprs) :
    sizeOf part < sizeOf whole := by
  cases whole with
  | function | class_ | block | break_ | continue_ | try_ | import_ => simp [exprs] at member
  | expr pos expr =>
      simp only [exprs, List.mem_singleton] at member
      subst member
      simp only [expr.sizeOf_spec]
      omega
  | declare pos constant bindings =>
      have := Binding.sizeOf_mem_values member
      simp only [declare.sizeOf_spec]
      omega
  | destructure pos constant names value =>
      simp only [exprs, List.mem_singleton] at member
      subst member
      simp only [destructure.sizeOf_spec]
      omega
  | assign pos target op value =>
      simp only [exprs, List.mem_cons] at member
      simp only [assign.sizeOf_spec]
      rcases member with rfl | member
      · omega
      · have := Expr.sizeOf_mem_needs member
        omega
  | if_ pos cond yes no =>
      simp only [exprs, List.mem_singleton] at member
      subst member
      simp only [if_.sizeOf_spec]
      omega
  | while_ pos cond body =>
      simp only [exprs, List.mem_singleton] at member
      subst member
      simp only [while_.sizeOf_spec]
      omega
  | for_ pos init cond post body =>
      have := sizeOf_mem_toList member
      simp only [for_.sizeOf_spec]
      omega
  | forIn pos name source body =>
      simp only [exprs, List.mem_singleton] at member
      subst member
      simp only [forIn.sizeOf_spec]
      omega
  | return_ pos value =>
      have := sizeOf_mem_toList member
      simp only [return_.sizeOf_spec]
      omega
  | throw_ pos value =>
      simp only [exprs, List.mem_singleton] at member
      subst member
      simp only [throw_.sizeOf_spec]
      omega

theorem sizeOf_mem_stmts {whole part : Stmt} (member : part ∈ whole.stmts) :
    sizeOf part < sizeOf whole := by
  cases whole with
  | expr | declare | destructure | assign | function | class_ | return_ | break_ | continue_
  | throw_ | import_ => simp [stmts] at member
  | if_ pos cond yes no =>
      simp only [stmts, List.mem_append] at member
      simp only [if_.sizeOf_spec]
      rcases member with member | member
      · have := Block.sizeOf_mem_stmts member
        omega
      · have := sizeOf_mem_toList member
        omega
  | while_ pos cond body =>
      have := Block.sizeOf_mem_stmts member
      simp only [while_.sizeOf_spec]
      omega
  | forIn pos name source body =>
      have := Block.sizeOf_mem_stmts member
      simp only [forIn.sizeOf_spec]
      omega
  | block pos body =>
      have := Block.sizeOf_mem_stmts member
      simp only [block.sizeOf_spec]
      omega
  | for_ pos init cond post body =>
      simp only [stmts, List.mem_append] at member
      simp only [for_.sizeOf_spec]
      rcases member with (member | member) | member
      · have := sizeOf_mem_toList member
        omega
      · have := sizeOf_mem_toList member
        omega
      · have := Block.sizeOf_mem_stmts member
        omega
  | try_ pos body handler cleanup =>
      simp only [stmts, List.mem_append, List.mem_flatMap] at member
      simp only [try_.sizeOf_spec]
      rcases member with (member | ⟨handler, given, member⟩) | ⟨block, given, member⟩
      · have := Block.sizeOf_mem_stmts member
        omega
      · have := Block.sizeOf_mem_stmts member
        have := sizeOf_mem_toList given
        cases handler
        simp only [Handler.mk.sizeOf_spec] at *
        omega
      · have := Block.sizeOf_mem_stmts member
        have := sizeOf_mem_toList given
        omega

theorem sizeOf_mem_functions {whole : Stmt} {fn : Function} (member : fn ∈ whole.functions) :
    sizeOf fn < sizeOf whole := by
  cases whole with
  | function pos fn =>
      simp only [functions, List.mem_singleton] at member
      subst member
      simp only [function.sizeOf_spec]
      omega
  | _ => simp [functions] at member

theorem sizeOf_mem_classes {whole : Stmt} {decl : ClassDecl} (member : decl ∈ whole.classes) :
    sizeOf decl < sizeOf whole := by
  cases whole with
  | class_ pos decl =>
      simp only [classes, List.mem_singleton] at member
      subst member
      simp only [class_.sizeOf_spec]
      omega
  | _ => simp [classes] at member

end Stmt

namespace ClassDecl

theorem sizeOf_mem_defaults {whole : ClassDecl} {part : Expr} (member : part ∈ whole.defaults) :
    sizeOf part < sizeOf whole := by
  obtain ⟨name, parent, fields, methods, pos⟩ := whole
  have : sizeOf part < sizeOf fields := Binding.sizeOf_mem_values member
  simp only [mk.sizeOf_spec]
  omega

theorem sizeOf_mem_methods {whole : ClassDecl} {fn : Function} (member : fn ∈ whole.methods) :
    sizeOf fn < sizeOf whole := by
  obtain ⟨name, parent, fields, methods, pos⟩ := whole
  have : sizeOf fn < sizeOf methods := List.sizeOf_lt_of_mem member
  simp only [mk.sizeOf_spec]
  omega

end ClassDecl

end Rill

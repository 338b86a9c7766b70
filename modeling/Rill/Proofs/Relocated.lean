import Rill.Syntax

/-!
# Trees with other positions

A syntax tree with each of its positions replaced: what is left of a tree when the places of its
parts do not count.
-/

set_option autoImplicit false

namespace Rill

mutual

/-- The expression with each position replaced by what `place` gives for it. -/
def Expr.relocate (place : Position → Position) : Expr → Expr
  | .literal pos value => .literal (place pos) value
  | .template pos parts => .template (place pos) (TemplatePart.relocateAll place parts)
  | .ident pos name => .ident (place pos) name
  | .array pos items => .array (place pos) (Expr.relocateAll place items)
  | .record pos entries => .record (place pos) (Entry.relocateAll place entries)
  | .binary pos op left right =>
      .binary (place pos) op (left.relocate place) (right.relocate place)
  | .unary pos op operand => .unary (place pos) op (operand.relocate place)
  | .ternary pos cond yes no =>
      .ternary (place pos) (cond.relocate place) (yes.relocate place) (no.relocate place)
  | .call pos callee args =>
      .call (place pos) (callee.relocate place) (Expr.relocateAll place args)
  | .member pos object name optional => .member (place pos) (object.relocate place) name optional
  | .index pos object index => .index (place pos) (object.relocate place) (index.relocate place)
  | .function pos fn => .function (place pos) (fn.relocate place)
  | .spread pos inner => .spread (place pos) (inner.relocate place)
  | .match_ pos subject arms =>
      .match_ (place pos) (subject.relocate place) (Arm.relocateAll place arms)
  | .arrayOf pos element clauses =>
      .arrayOf (place pos) (element.relocate place) (Clause.relocateAll place clauses)
  | .recordOf pos key value clauses =>
      .recordOf (place pos) (key.relocate place) (value.relocate place)
        (Clause.relocateAll place clauses)
  | .super_ pos name => .super_ (place pos) name

def Expr.relocateAll (place : Position → Position) : List Expr → List Expr
  | [] => []
  | expr :: rest => expr.relocate place :: Expr.relocateAll place rest

def Expr.relocate? (place : Position → Position) : Option Expr → Option Expr
  | none => none
  | some expr => some (expr.relocate place)

def TemplatePart.relocateAll (place : Position → Position) : List TemplatePart → List TemplatePart
  | [] => []
  | .text value :: rest => .text value :: TemplatePart.relocateAll place rest
  | .hole expr :: rest => .hole (expr.relocate place) :: TemplatePart.relocateAll place rest

def Key.relocate (place : Position → Position) : Key → Key
  | .name text => .name text
  | .computed key => .computed (key.relocate place)

def Entry.relocate (place : Position → Position) : Entry → Entry
  | .field key value => .field (key.relocate place) (value.relocate place)
  | .spread source => .spread (source.relocate place)

def Entry.relocateAll (place : Position → Position) : List Entry → List Entry
  | [] => []
  | entry :: rest => entry.relocate place :: Entry.relocateAll place rest

def Arm.relocate (place : Position → Position) : Arm → Arm
  | ⟨pattern, guard, body⟩ => ⟨pattern, Expr.relocate? place guard, body.relocate place⟩

def Arm.relocateAll (place : Position → Position) : List Arm → List Arm
  | [] => []
  | arm :: rest => arm.relocate place :: Arm.relocateAll place rest

def Clause.relocate (place : Position → Position) : Clause → Clause
  | .each name source => .each name (source.relocate place)
  | .only cond => .only (cond.relocate place)

def Clause.relocateAll (place : Position → Position) : List Clause → List Clause
  | [] => []
  | clause :: rest => clause.relocate place :: Clause.relocateAll place rest

def Binding.relocate (place : Position → Position) : Binding → Binding
  | ⟨name, value⟩ => ⟨name, Expr.relocate? place value⟩

def Binding.relocateAll (place : Position → Position) : List Binding → List Binding
  | [] => []
  | binding :: rest => binding.relocate place :: Binding.relocateAll place rest

def Function.relocate (place : Position → Position) : Function → Function
  | ⟨name, params, body, pos⟩ =>
      ⟨name, Binding.relocateAll place params, body.relocate place, place pos⟩

def Function.relocateAll (place : Position → Position) : List Function → List Function
  | [] => []
  | fn :: rest => fn.relocate place :: Function.relocateAll place rest

def Body.relocate (place : Position → Position) : Body → Body
  | .block block => .block (block.relocate place)
  | .value expr => .value (expr.relocate place)

def Block.relocate (place : Position → Position) : Block → Block
  | ⟨stmts, pos⟩ => ⟨Stmt.relocateAll place stmts, place pos⟩

def Block.relocate? (place : Position → Position) : Option Block → Option Block
  | none => none
  | some block => some (block.relocate place)

/-- The statement with each position replaced by what `place` gives for it. -/
def Stmt.relocate (place : Position → Position) : Stmt → Stmt
  | .expr pos expr => .expr (place pos) (expr.relocate place)
  | .declare pos constant bindings =>
      .declare (place pos) constant (Binding.relocateAll place bindings)
  | .destructure pos constant names value =>
      .destructure (place pos) constant names (value.relocate place)
  | .assign pos target op value =>
      .assign (place pos) (target.relocate place) op (value.relocate place)
  | .function pos fn => .function (place pos) (fn.relocate place)
  | .class_ pos decl => .class_ (place pos) (decl.relocate place)
  | .if_ pos cond yes no =>
      .if_ (place pos) (cond.relocate place) (yes.relocate place) (Stmt.relocate? place no)
  | .while_ pos cond body => .while_ (place pos) (cond.relocate place) (body.relocate place)
  | .for_ pos init cond post body =>
      .for_ (place pos) (Stmt.relocate? place init) (Expr.relocate? place cond)
        (Stmt.relocate? place post) (body.relocate place)
  | .forIn pos name source body =>
      .forIn (place pos) name (source.relocate place) (body.relocate place)
  | .block pos block => .block (place pos) (block.relocate place)
  | .return_ pos value => .return_ (place pos) (Expr.relocate? place value)
  | .break_ pos => .break_ (place pos)
  | .continue_ pos => .continue_ (place pos)
  | .try_ pos body handler cleanup =>
      .try_ (place pos) (body.relocate place) (Handler.relocate? place handler)
        (Block.relocate? place cleanup)
  | .throw_ pos value => .throw_ (place pos) (value.relocate place)
  | .import_ pos path name => .import_ (place pos) path name

def Stmt.relocateAll (place : Position → Position) : List Stmt → List Stmt
  | [] => []
  | stmt :: rest => stmt.relocate place :: Stmt.relocateAll place rest

def Stmt.relocate? (place : Position → Position) : Option Stmt → Option Stmt
  | none => none
  | some stmt => some (stmt.relocate place)

def Handler.relocate? (place : Position → Position) : Option Handler → Option Handler
  | none => none
  | some ⟨name, body⟩ => some ⟨name, body.relocate place⟩

def ClassDecl.relocate (place : Position → Position) : ClassDecl → ClassDecl
  | ⟨name, parent, fields, methods, pos⟩ =>
      ⟨name, parent, Binding.relocateAll place fields, Function.relocateAll place methods,
        place pos⟩

end

theorem Expr.pos_relocate (place : Position → Position) (expr : Expr) :
    (expr.relocate place).pos = place expr.pos := by
  cases expr <;> rfl

/-! ## Lists and optional parts -/

section Lists

variable (place : Position → Position)

theorem Expr.relocateAll_eq_map (items : List Expr) :
    Expr.relocateAll place items = items.map (Expr.relocate place) := by
  induction items with
  | nil => rfl
  | cons expr rest ih => rw [Expr.relocateAll, ih]; rfl

theorem Entry.relocateAll_eq_map (entries : List Entry) :
    Entry.relocateAll place entries = entries.map (Entry.relocate place) := by
  induction entries with
  | nil => rfl
  | cons entry rest ih => rw [Entry.relocateAll, ih]; rfl

theorem Arm.relocateAll_eq_map (arms : List Arm) :
    Arm.relocateAll place arms = arms.map (Arm.relocate place) := by
  induction arms with
  | nil => rfl
  | cons arm rest ih => rw [Arm.relocateAll, ih]; rfl

theorem Clause.relocateAll_eq_map (clauses : List Clause) :
    Clause.relocateAll place clauses = clauses.map (Clause.relocate place) := by
  induction clauses with
  | nil => rfl
  | cons clause rest ih => rw [Clause.relocateAll, ih]; rfl

theorem Binding.relocateAll_eq_map (bindings : List Binding) :
    Binding.relocateAll place bindings = bindings.map (Binding.relocate place) := by
  induction bindings with
  | nil => rfl
  | cons binding rest ih => rw [Binding.relocateAll, ih]; rfl

theorem Function.relocateAll_eq_map (functions : List Function) :
    Function.relocateAll place functions = functions.map (Function.relocate place) := by
  induction functions with
  | nil => rfl
  | cons fn rest ih => rw [Function.relocateAll, ih]; rfl

theorem Stmt.relocateAll_eq_map (stmts : List Stmt) :
    Stmt.relocateAll place stmts = stmts.map (Stmt.relocate place) := by
  induction stmts with
  | nil => rfl
  | cons stmt rest ih => rw [Stmt.relocateAll, ih]; rfl

theorem Stmt.relocate?_eq_map (stmt : Option Stmt) :
    Stmt.relocate? place stmt = stmt.map (Stmt.relocate place) := by
  cases stmt <;> rfl

theorem Expr.relocate?_eq_map (expr : Option Expr) :
    Expr.relocate? place expr = expr.map (Expr.relocate place) := by
  cases expr <;> rfl

theorem Handler.isNone_relocate? (handler : Option Handler) :
    (Handler.relocate? place handler).isNone = handler.isNone := by
  rcases handler with _ | ⟨name, body⟩ <;> rfl

theorem Block.isNone_relocate? (block : Option Block) :
    (Block.relocate? place block).isNone = block.isNone := by
  cases block <;> rfl

end Lists

/-! ## Positions left as they are -/

mutual

theorem Expr.relocate_id : ∀ expr : Expr, expr.relocate id = expr
  | .literal .. | .ident .. | .super_ .. => rfl
  | .template pos parts => congrArg (Expr.template pos) (TemplatePart.relocateAll_id parts)
  | .array pos items => congrArg (Expr.array pos) (Expr.relocateAll_id items)
  | .record pos entries => congrArg (Expr.record pos) (Entry.relocateAll_id entries)
  | .binary pos op left right => by
      rw [Expr.relocate, Expr.relocate_id left, Expr.relocate_id right, id]
  | .unary pos op operand => congrArg (Expr.unary pos op) (Expr.relocate_id operand)
  | .ternary pos cond yes no => by
      rw [Expr.relocate, Expr.relocate_id cond, Expr.relocate_id yes, Expr.relocate_id no, id]
  | .call pos callee args => by
      rw [Expr.relocate, Expr.relocate_id callee, Expr.relocateAll_id args, id]
  | .member pos object name optional => by rw [Expr.relocate, Expr.relocate_id object, id]
  | .index pos object index => by
      rw [Expr.relocate, Expr.relocate_id object, Expr.relocate_id index, id]
  | .function pos fn => congrArg (Expr.function pos) (Function.relocate_id fn)
  | .spread pos inner => congrArg (Expr.spread pos) (Expr.relocate_id inner)
  | .match_ pos subject arms => by
      rw [Expr.relocate, Expr.relocate_id subject, Arm.relocateAll_id arms, id]
  | .arrayOf pos element clauses => by
      rw [Expr.relocate, Expr.relocate_id element, Clause.relocateAll_id clauses, id]
  | .recordOf pos key value clauses => by
      rw [Expr.relocate, Expr.relocate_id key, Expr.relocate_id value,
        Clause.relocateAll_id clauses, id]

theorem Expr.relocateAll_id : ∀ items : List Expr, Expr.relocateAll id items = items
  | [] => rfl
  | expr :: rest => by rw [Expr.relocateAll, Expr.relocate_id expr, Expr.relocateAll_id rest]

theorem Expr.relocate?_id : ∀ expr : Option Expr, Expr.relocate? id expr = expr
  | none => rfl
  | some expr => congrArg some (Expr.relocate_id expr)

theorem TemplatePart.relocateAll_id :
    ∀ parts : List TemplatePart, TemplatePart.relocateAll id parts = parts
  | [] => rfl
  | .text value :: rest => by rw [TemplatePart.relocateAll, TemplatePart.relocateAll_id rest]
  | .hole expr :: rest => by
      rw [TemplatePart.relocateAll, Expr.relocate_id expr, TemplatePart.relocateAll_id rest]

theorem Key.relocate_id : ∀ key : Key, key.relocate id = key
  | .name _ => rfl
  | .computed key => congrArg Key.computed (Expr.relocate_id key)

theorem Entry.relocate_id : ∀ entry : Entry, entry.relocate id = entry
  | .field key value => by rw [Entry.relocate, Key.relocate_id key, Expr.relocate_id value]
  | .spread source => congrArg Entry.spread (Expr.relocate_id source)

theorem Entry.relocateAll_id : ∀ entries : List Entry, Entry.relocateAll id entries = entries
  | [] => rfl
  | entry :: rest => by rw [Entry.relocateAll, Entry.relocate_id entry, Entry.relocateAll_id rest]

theorem Arm.relocate_id : ∀ arm : Arm, arm.relocate id = arm
  | ⟨pattern, guard, body⟩ => by
      rw [Arm.relocate, Expr.relocate?_id guard, Expr.relocate_id body]

theorem Arm.relocateAll_id : ∀ arms : List Arm, Arm.relocateAll id arms = arms
  | [] => rfl
  | arm :: rest => by rw [Arm.relocateAll, Arm.relocate_id arm, Arm.relocateAll_id rest]

theorem Clause.relocate_id : ∀ clause : Clause, clause.relocate id = clause
  | .each name source => congrArg (Clause.each name) (Expr.relocate_id source)
  | .only cond => congrArg Clause.only (Expr.relocate_id cond)

theorem Clause.relocateAll_id : ∀ clauses : List Clause, Clause.relocateAll id clauses = clauses
  | [] => rfl
  | clause :: rest => by
      rw [Clause.relocateAll, Clause.relocate_id clause, Clause.relocateAll_id rest]

theorem Binding.relocate_id : ∀ binding : Binding, binding.relocate id = binding
  | ⟨name, value⟩ => congrArg (Binding.mk name) (Expr.relocate?_id value)

theorem Binding.relocateAll_id :
    ∀ bindings : List Binding, Binding.relocateAll id bindings = bindings
  | [] => rfl
  | binding :: rest => by
      rw [Binding.relocateAll, Binding.relocate_id binding, Binding.relocateAll_id rest]

theorem Function.relocate_id : ∀ fn : Function, fn.relocate id = fn
  | ⟨name, params, body, pos⟩ => by
      rw [Function.relocate, Binding.relocateAll_id params, Body.relocate_id body, id]

theorem Function.relocateAll_id :
    ∀ functions : List Function, Function.relocateAll id functions = functions
  | [] => rfl
  | fn :: rest => by
      rw [Function.relocateAll, Function.relocate_id fn, Function.relocateAll_id rest]

theorem Body.relocate_id : ∀ body : Body, body.relocate id = body
  | .block block => congrArg Body.block (Block.relocate_id block)
  | .value expr => congrArg Body.value (Expr.relocate_id expr)

theorem Block.relocate_id : ∀ block : Block, block.relocate id = block
  | ⟨stmts, pos⟩ => by rw [Block.relocate, Stmt.relocateAll_id stmts, id]

theorem Block.relocate?_id : ∀ block : Option Block, Block.relocate? id block = block
  | none => rfl
  | some block => congrArg some (Block.relocate_id block)

theorem Stmt.relocate_id : ∀ stmt : Stmt, stmt.relocate id = stmt
  | .break_ _ | .continue_ _ | .import_ .. => rfl
  | .expr pos expr => congrArg (Stmt.expr pos) (Expr.relocate_id expr)
  | .declare pos constant bindings =>
      congrArg (Stmt.declare pos constant) (Binding.relocateAll_id bindings)
  | .destructure pos constant names value =>
      congrArg (Stmt.destructure pos constant names) (Expr.relocate_id value)
  | .assign pos target op value => by
      rw [Stmt.relocate, Expr.relocate_id target, Expr.relocate_id value, id]
  | .function pos fn => congrArg (Stmt.function pos) (Function.relocate_id fn)
  | .class_ pos decl => congrArg (Stmt.class_ pos) (ClassDecl.relocate_id decl)
  | .if_ pos cond yes no => by
      rw [Stmt.relocate, Expr.relocate_id cond, Block.relocate_id yes, Stmt.relocate?_id no, id]
  | .while_ pos cond body => by
      rw [Stmt.relocate, Expr.relocate_id cond, Block.relocate_id body, id]
  | .for_ pos init cond post body => by
      rw [Stmt.relocate, Stmt.relocate?_id init, Expr.relocate?_id cond, Stmt.relocate?_id post,
        Block.relocate_id body, id]
  | .forIn pos name source body => by
      rw [Stmt.relocate, Expr.relocate_id source, Block.relocate_id body, id]
  | .block pos block => congrArg (Stmt.block pos) (Block.relocate_id block)
  | .return_ pos value => congrArg (Stmt.return_ pos) (Expr.relocate?_id value)
  | .try_ pos body handler cleanup => by
      rw [Stmt.relocate, Block.relocate_id body, Handler.relocate?_id handler,
        Block.relocate?_id cleanup, id]
  | .throw_ pos value => congrArg (Stmt.throw_ pos) (Expr.relocate_id value)

theorem Stmt.relocateAll_id : ∀ stmts : List Stmt, Stmt.relocateAll id stmts = stmts
  | [] => rfl
  | stmt :: rest => by rw [Stmt.relocateAll, Stmt.relocate_id stmt, Stmt.relocateAll_id rest]

theorem Stmt.relocate?_id : ∀ stmt : Option Stmt, Stmt.relocate? id stmt = stmt
  | none => rfl
  | some stmt => congrArg some (Stmt.relocate_id stmt)

theorem Handler.relocate?_id : ∀ handler : Option Handler, Handler.relocate? id handler = handler
  | none => rfl
  | some ⟨name, body⟩ => by rw [Handler.relocate?, Block.relocate_id body]

theorem ClassDecl.relocate_id : ∀ decl : ClassDecl, decl.relocate id = decl
  | ⟨name, parent, fields, methods, pos⟩ => by
      rw [ClassDecl.relocate, Binding.relocateAll_id fields, Function.relocateAll_id methods, id]

end

end Rill

import Rill.Position
import Rill.Syntax.Operator

/-!
# Syntax trees

Expressions stand for values and statements for effects. Every node carries the position that
messages about it name.
-/

set_option autoImplicit false

namespace Rill

inductive Literal where
  | number (value : Float)
  | text (value : String)
  | bool (value : Bool)
  | nil

/-- What an arm of a `match` asks of a value. -/
inductive Pattern where
  | wildcard
  | binding (name : String)
  | literal (value : Literal)
  /-- So many elements, or at least so many when the others are bound to `rest`. -/
  | array (elements : List Pattern) (rest : Option String)
  | record (fields : List (String × Pattern))

inductive Destructure where
  /-- Names by place; `none` passes over a place. -/
  | array (names : List (Option String))
  /-- Keys bound to variables of the same name. -/
  | record (names : List String)

mutual

inductive Expr where
  | literal (pos : Position) (value : Literal)
  | template (pos : Position) (parts : List TemplatePart)
  | ident (pos : Position) (name : String)
  | array (pos : Position) (items : List Expr)
  | record (pos : Position) (entries : List Entry)
  | binary (pos : Position) (op : BinaryOp) (left right : Expr)
  | unary (pos : Position) (op : UnaryOp) (operand : Expr)
  | ternary (pos : Position) (cond yes no : Expr)
  | call (pos : Position) (callee : Expr) (args : List Expr)
  | member (pos : Position) (object : Expr) (name : String) (optional : Bool)
  | index (pos : Position) (object index : Expr)
  | function (pos : Position) (fn : Function)
  | spread (pos : Position) (inner : Expr)
  | match_ (pos : Position) (subject : Expr) (arms : List Arm)
  | arrayOf (pos : Position) (element : Expr) (clauses : List Clause)
  | recordOf (pos : Position) (key value : Expr) (clauses : List Clause)
  /-- The parent's method of the same name, or the named one. -/
  | super_ (pos : Position) (name : Option String)

inductive TemplatePart where
  | text (value : String)
  | hole (expr : Expr)

inductive Entry where
  | field (key : Key) (value : Expr)
  | spread (source : Expr)

inductive Key where
  | name (text : String)
  | computed (key : Expr)

structure Arm where
  pattern : Pattern
  guard : Option Expr
  body : Expr

inductive Clause where
  | each (name : String) (source : Expr)
  | only (cond : Expr)

/-- A name with an optional value: a variable, a parameter or a field. -/
structure Binding where
  name : String
  value : Option Expr

structure Function where
  name : Option String
  params : List Binding
  body : Body
  pos : Position

/-- What a function does: run a block, or give the value of an expression. -/
inductive Body where
  | block (block : Block)
  | value (expr : Expr)

structure Block where
  stmts : List Stmt
  pos : Position

inductive Stmt where
  | expr (pos : Position) (expr : Expr)
  | declare (pos : Position) (constant : Bool) (bindings : List Binding)
  | destructure (pos : Position) (constant : Bool) (names : Destructure) (value : Expr)
  | assign (pos : Position) (target : Expr) (op : AssignOp) (value : Expr)
  | function (pos : Position) (fn : Function)
  | class_ (pos : Position) (decl : ClassDecl)
  | if_ (pos : Position) (cond : Expr) (yes : Block) (no : Option Stmt)
  | while_ (pos : Position) (cond : Expr) (body : Block)
  | for_ (pos : Position) (init : Option Stmt) (cond : Option Expr) (post : Option Stmt)
      (body : Block)
  | forIn (pos : Position) (name : String) (source : Expr) (body : Block)
  | block (pos : Position) (block : Block)
  | return_ (pos : Position) (value : Option Expr)
  | break_ (pos : Position)
  | continue_ (pos : Position)
  | try_ (pos : Position) (body : Block) (handler : Option Handler) (cleanup : Option Block)
  | throw_ (pos : Position) (value : Expr)
  | import_ (pos : Position) (path : String) (name : Option String)

structure Handler where
  name : String
  body : Block

structure ClassDecl where
  name : String
  parent : Option String
  fields : List Binding
  methods : List Function
  pos : Position

end

/-- A parsed source text, with the directory its imports start from. -/
structure Program where
  body : List Stmt
  baseDir : String

namespace Expr

def pos : Expr → Position
  | literal pos _ | template pos _ | ident pos _ | array pos _ | record pos _ | binary pos _ _ _
  | unary pos _ _ | ternary pos _ _ _ | call pos _ _ | member pos _ _ _ | index pos _ _
  | function pos _ | spread pos _ | match_ pos _ _ | arrayOf pos _ _ | recordOf pos _ _ _
  | super_ pos _ => pos

end Expr

namespace Stmt

def pos : Stmt → Position
  | expr pos _ | declare pos _ _ | destructure pos _ _ _ | assign pos _ _ _ | function pos _
  | class_ pos _ | if_ pos _ _ _ | while_ pos _ _ | for_ pos _ _ _ _ | forIn pos _ _ _
  | block pos _ | return_ pos _ | break_ pos | continue_ pos | try_ pos _ _ _ | throw_ pos _
  | import_ pos _ _ => pos

end Stmt

namespace Function

def label (fn : Function) : String := fn.name.getD "<anonymous>"

end Function

end Rill

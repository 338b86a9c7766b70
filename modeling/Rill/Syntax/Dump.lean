import Rill.Number.Format
import Rill.Syntax
import Rill.Text.Quoted

/-!
# Compact listing of syntax trees

A syntax tree on one line per statement, operators first. Listings show the shape of a tree, so
parentheses of the source do not appear in them.
-/

set_option autoImplicit false

namespace Rill

def braced (text : String) : String := "\x7b" ++ text ++ "\x7d"

namespace Literal

def dump : Literal → String
  | number value => Number.format value
  | text value => Text.quote value
  | bool value => if value then "true" else "false"
  | nil => "nil"

end Literal

namespace Destructure

def dump : Destructure → String
  | array names => "[" ++ " ".intercalate (names.map (fun name => name.getD "_")) ++ "]"
  | record names => braced (" ".intercalate names)

end Destructure

mutual

def Pattern.dump : Pattern → String
  | .wildcard => "_"
  | .binding name => name
  | .literal value => value.dump
  | .array elements rest =>
      let shown := Pattern.dumpAll elements ++ (match rest with
        | some name => ["..." ++ name]
        | none => [])
      "[" ++ " ".intercalate shown ++ "]"
  | .record fields => braced (" ".intercalate (Pattern.dumpFields fields))

def Pattern.dumpAll : List Pattern → List String
  | [] => []
  | pattern :: rest => pattern.dump :: Pattern.dumpAll rest

def Pattern.dumpFields : List (String × Pattern) → List String
  | [] => []
  | (key, pattern) :: rest => (key ++ ": " ++ pattern.dump) :: Pattern.dumpFields rest

end

mutual

def Expr.dump : Expr → String
  | .literal _ value => value.dump
  | .template _ parts => "(template" ++ TemplatePart.dumpAll parts ++ ")"
  | .ident _ name => name
  | .array _ items => "[" ++ " ".intercalate (Expr.dumpAll items) ++ "]"
  | .record _ entries => braced (", ".intercalate (Entry.dumpAll entries))
  | .binary _ op left right => "(" ++ op.symbol ++ " " ++ left.dump ++ " " ++ right.dump ++ ")"
  | .unary _ op operand => "(" ++ op.symbol ++ " " ++ operand.dump ++ ")"
  | .ternary _ cond yes no => "(? " ++ cond.dump ++ " " ++ yes.dump ++ " " ++ no.dump ++ ")"
  | .call _ callee args => "(" ++ " ".intercalate ("call" :: callee.dump :: Expr.dumpAll args) ++ ")"
  | .member _ object name optional =>
      "(" ++ (if optional then "?." else ".") ++ " " ++ object.dump ++ " " ++ name ++ ")"
  | .index _ object index => "(index " ++ object.dump ++ " " ++ index.dump ++ ")"
  | .function _ fn => fn.dump
  | .spread _ inner => "(... " ++ inner.dump ++ ")"
  | .match_ _ subject arms => "(match " ++ subject.dump ++ Arm.dumpAll arms ++ ")"
  | .arrayOf _ element clauses => "(array-comp " ++ element.dump ++ Clause.dumpAll clauses ++ ")"
  | .recordOf _ key value clauses =>
      "(record-comp " ++ key.dump ++ " " ++ value.dump ++ Clause.dumpAll clauses ++ ")"
  | .super_ _ none => "super"
  | .super_ _ (some name) => "super." ++ name

def Expr.dumpAll : List Expr → List String
  | [] => []
  | expr :: rest => expr.dump :: Expr.dumpAll rest

def TemplatePart.dumpAll : List TemplatePart → String
  | [] => ""
  | .text value :: rest => " " ++ Text.quote value ++ TemplatePart.dumpAll rest
  | .hole expr :: rest => " " ++ expr.dump ++ TemplatePart.dumpAll rest

def Entry.dumpAll : List Entry → List String
  | [] => []
  | .field (.name text) value :: rest => (text ++ ": " ++ value.dump) :: Entry.dumpAll rest
  | .field (.computed key) value :: rest =>
      ("[" ++ key.dump ++ "]: " ++ value.dump) :: Entry.dumpAll rest
  | .spread source :: rest => ("..." ++ source.dump) :: Entry.dumpAll rest

def Arm.dumpAll : List Arm → String
  | [] => ""
  | ⟨pattern, none, body⟩ :: rest =>
      " (case " ++ pattern.dump ++ " => " ++ body.dump ++ ")" ++ Arm.dumpAll rest
  | ⟨pattern, some guard, body⟩ :: rest =>
      " (case " ++ pattern.dump ++ " if " ++ guard.dump ++ " => " ++ body.dump ++ ")"
        ++ Arm.dumpAll rest

def Clause.dumpAll : List Clause → String
  | [] => ""
  | .each name source :: rest => " (for " ++ name ++ " " ++ source.dump ++ ")" ++ Clause.dumpAll rest
  | .only cond :: rest => " (if " ++ cond.dump ++ ")" ++ Clause.dumpAll rest

def Binding.dumpAll : List Binding → List String
  | [] => []
  | ⟨name, none⟩ :: rest => name :: Binding.dumpAll rest
  | ⟨name, some value⟩ :: rest => (name ++ "=" ++ value.dump) :: Binding.dumpAll rest

def Function.dump : Function → String
  | ⟨name, params, body, _⟩ =>
      "(func " ++ (match name with
        | some text => text ++ " "
        | none => "")
        ++ "(" ++ " ".intercalate (Binding.dumpAll params) ++ ") " ++ body.dump ++ ")"

def Function.dumpAll : List Function → String
  | [] => ""
  | fn :: rest => " " ++ fn.dump ++ Function.dumpAll rest

def Body.dump : Body → String
  | .block block => block.dump
  | .value expr => "=> " ++ expr.dump

def Block.dump : Block → String
  | ⟨stmts, _⟩ => braced ("; ".intercalate (Stmt.dumpAll stmts))

def Stmt.dump : Stmt → String
  | .expr _ expr => expr.dump
  | .declare _ constant bindings =>
      "(" ++ (if constant then "const " else "let ")
        ++ " ".intercalate (Binding.dumpAll bindings) ++ ")"
  | .destructure _ constant names value =>
      "(" ++ (if constant then "const " else "let ") ++ names.dump ++ " = " ++ value.dump ++ ")"
  | .assign _ target op value => "(" ++ op.symbol ++ " " ++ target.dump ++ " " ++ value.dump ++ ")"
  | .function _ fn => fn.dump
  | .class_ _ decl => decl.dump
  | .if_ _ cond yes no =>
      "(if " ++ cond.dump ++ " " ++ yes.dump ++ (match no with
        | some other => " else " ++ other.dump
        | none => "")
        ++ ")"
  | .while_ _ cond body => "(while " ++ cond.dump ++ " " ++ body.dump ++ ")"
  | .for_ _ init cond post body =>
      "(for " ++ (match init with
        | some stmt => stmt.dump
        | none => "_")
        ++ "; " ++ (match cond with
        | some expr => expr.dump
        | none => "_")
        ++ "; " ++ (match post with
        | some stmt => stmt.dump
        | none => "_")
        ++ " " ++ body.dump ++ ")"
  | .forIn _ name source body =>
      "(for " ++ name ++ " in " ++ source.dump ++ " " ++ body.dump ++ ")"
  | .block _ block => block.dump
  | .return_ _ none => "(return)"
  | .return_ _ (some value) => "(return " ++ value.dump ++ ")"
  | .break_ _ => "(break)"
  | .continue_ _ => "(continue)"
  | .try_ _ body handler cleanup =>
      "(try " ++ body.dump ++ (match handler with
        | some ⟨name, block⟩ => " catch " ++ name ++ " " ++ block.dump
        | none => "")
        ++ (match cleanup with
        | some block => " finally " ++ block.dump
        | none => "")
        ++ ")"
  | .throw_ _ value => "(throw " ++ value.dump ++ ")"
  | .import_ _ path name =>
      "(import " ++ Text.quote path ++ (match name with
        | some name => " as " ++ name
        | none => "")
        ++ ")"

def Stmt.dumpAll : List Stmt → List String
  | [] => []
  | stmt :: rest => stmt.dump :: Stmt.dumpAll rest

def ClassDecl.dump : ClassDecl → String
  | ⟨name, parent, fields, methods, _⟩ =>
      "(class " ++ name ++ (match parent with
        | some text => " : " ++ text
        | none => "")
        ++ String.join ((Binding.dumpAll fields).map (fun field => " (let " ++ field ++ ")"))
        ++ Function.dumpAll methods ++ ")"

end

/-- The listing of a program: one statement after another, on lines of their own. -/
def Program.dump (program : Program) : String := "\n".intercalate (Stmt.dumpAll program.body)

end Rill

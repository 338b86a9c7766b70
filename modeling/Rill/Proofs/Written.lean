import Rill.Proofs.Legible.Templates

/-!
# How programs are written

A relation between syntax trees and the words that they are written with: every operand in
parentheses unless it is a single word, strings and templates with their characters escaped, every
number by a text with its value. An arm with a guard is not written at all, since an arrow behind a
parenthesis would make the guard the parameters of a function.
-/

set_option autoImplicit false

namespace Rill

namespace Word

/-! ## Rows of words -/

def enclosed (m m' : Mark) (words : List Token) : List Token := mark m :: (words ++ [mark m'])

abbrev paren (words : List Token) : List Token := enclosed .openParen .closeParen words

abbrev bracket (words : List Token) : List Token := enclosed .openBracket .closeBracket words

abbrev brace (words : List Token) : List Token := enclosed .openBrace .closeBrace words

def joined : List (List Token) → List Token
  | [] => []
  | item :: items => item ++ items.flatMap (mark .comma :: ·)

def ended (items : List (List Token)) : List Token := items.flatMap (· ++ [mark .semicolon])

end Word

open Word (paren bracket brace joined ended)

namespace BinaryOp

def mark : BinaryOp → Mark
  | add => .plus | sub => .minus | mul => .star | div => .slash | mod => .percent
  | eq => .equal | notEq => .notEqual | less => .less | lessEq => .lessEqual
  | greater => .greater | greaterEq => .greaterEqual
  | and => .andAnd | or => .orOr | coalesce => .questionQuestion
  | bitAnd => .amp | bitOr => .pipe | bitXor => .caret | shiftLeft => .shiftLeft
  | shiftRight => .shiftRight | pipe => .pipeArrow

end BinaryOp

namespace UnaryOp

def mark : UnaryOp → Mark
  | neg => .minus | plus => .plus | not => .bang | bitNot => .tilde

end UnaryOp

namespace AssignOp

def mark : AssignOp → Mark
  | set => .assign | add => .plusEq | sub => .minusEq | mul => .starEq | div => .slashEq
  | mod => .percentEq

end AssignOp

/-! ## Parts without expressions -/

/-- A key is written as a string or, if it can name a member, as it is. -/
inductive Word.IsKey : String → Token → Prop
  | text {key : String} : IsKey key (text key)
  | name {key : String} (nameable : Nameable key) : IsKey key (name key)

mutual

/-- How a pattern is written. A number with a sign must stand where the sign belongs to it. -/
inductive Pattern.Written : Bool → Pattern → List Token → Prop
  | wildcard {signed : Bool} : Pattern.Written signed .wildcard [Word.name "_"]
  | binding {signed : Bool} {name : String} (named : Identifier name) (bound : name ≠ "_") :
      Pattern.Written signed (.binding name) [Word.name name]
  | number {signed : Bool} {text : String} {x : Float} (numeral : Numeral signed text x) :
      Pattern.Written signed (.literal (.number x)) [Word.number text]
  | negative {signed : Bool} {text : String} {x : Float} (numeral : Numeral false text x) :
      Pattern.Written signed (.literal (.number (-x))) [Word.mark .minus, Word.number text]
  | text {signed : Bool} {content : String} :
      Pattern.Written signed (.literal (.text content)) [Word.text content]
  | true_ {signed : Bool} : Pattern.Written signed (.literal (.bool true)) [Word.keyword .true_]
  | false_ {signed : Bool} : Pattern.Written signed (.literal (.bool false)) [Word.keyword .false_]
  | nil {signed : Bool} : Pattern.Written signed (.literal .nil) [Word.keyword .nil_]
  | array {signed : Bool} {rows : List (Pattern × List Token)}
      (all : ∀ row ∈ rows, Pattern.Written true row.1 row.2) :
      Pattern.Written signed (.array (rows.map Prod.fst) none) (bracket (joined (rows.map Prod.snd)))
  | arrayRest {signed : Bool} {rows : List (Pattern × List Token)} {rest : String}
      (all : ∀ row ∈ rows, Pattern.Written true row.1 row.2) (named : Identifier rest) :
      Pattern.Written signed (.array (rows.map Prod.fst) (some rest))
        (bracket (joined (rows.map Prod.snd ++ [[Word.mark .ellipsis, Word.name rest]])))
  | record {signed : Bool} {rows : List ((String × Pattern) × List Token)}
      (all : ∀ row ∈ rows, Pattern.FieldWritten row.1 row.2) :
      Pattern.Written signed (.record (rows.map Prod.fst)) (brace (joined (rows.map Prod.snd)))

/-- How a field of a record pattern is written. A key alone binds the variable of that name. -/
inductive Pattern.FieldWritten : String × Pattern → List Token → Prop
  | alone {key : String} {word : Token} (keyed : Word.IsKey key word) :
      Pattern.FieldWritten (key, .binding key) [word]
  | paired {key : String} {word : Token} {pattern : Pattern} {words : List Token}
      (keyed : Word.IsKey key word) (value : Pattern.Written true pattern words) :
      Pattern.FieldWritten (key, pattern) (word :: Word.mark .colon :: words)

end

inductive Destructure.Written : Destructure → List Token → Prop
  | array {names : List (Option String)}
      (named : ∀ name, some name ∈ names → Identifier name ∧ name ≠ "_") :
      Destructure.Written (.array names)
        (bracket (joined (names.map fun name => [Word.name (name.getD "_")])))
  | record {names : List String} (named : ∀ name ∈ names, Identifier name) :
      Destructure.Written (.record names) (brace (joined (names.map fun name => [Word.name name])))

/-- How an expression of one word is written. -/
inductive Expr.Atom : Bool → Expr → Token → Prop
  | ident {signed : Bool} {pos : Position} {name : String} (named : Identifier name) :
      Expr.Atom signed (.ident pos name) (Word.name name)
  | number {signed : Bool} {pos : Position} {text : String} {x : Float}
      (numeral : Numeral signed text x) :
      Expr.Atom signed (.literal pos (.number x)) (Word.number text)
  | text {signed : Bool} {pos : Position} {content : String} :
      Expr.Atom signed (.literal pos (.text content)) (Word.text content)
  | true_ {signed : Bool} {pos : Position} :
      Expr.Atom signed (.literal pos (.bool true)) (Word.keyword .true_)
  | false_ {signed : Bool} {pos : Position} :
      Expr.Atom signed (.literal pos (.bool false)) (Word.keyword .false_)
  | nil {signed : Bool} {pos : Position} :
      Expr.Atom signed (.literal pos .nil) (Word.keyword .nil_)

def TemplatePart.cooked? : TemplatePart → Option String
  | .text value => some value
  | .hole _ => none

/-! ## Expressions and statements -/

mutual

/-- How an expression is written inside parentheses. -/
inductive Expr.Form : Expr → List Token → Prop
  | atom {expr : Expr} {word : Token} (atom : expr.Atom true word) : Expr.Form expr [word]
  | template {pos : Position} {rows : List (TemplatePart × TemplatePiece)}
      (alternate : Alternates false (rows.map (·.1.cooked?)))
      (all : ∀ row ∈ rows, TemplatePart.Written row.1 row.2) :
      Expr.Form (.template pos (rows.map Prod.fst)) [Word.template (rows.map Prod.snd)]
  | array {pos : Position} {rows : List (Expr × List Token)}
      (all : ∀ row ∈ rows, Expr.Written row.1 row.2) :
      Expr.Form (.array pos (rows.map Prod.fst)) (bracket (joined (rows.map Prod.snd)))
  | record {pos : Position} {rows : List (Entry × List Token)}
      (all : ∀ row ∈ rows, Entry.Written row.1 row.2) :
      Expr.Form (.record pos (rows.map Prod.fst)) (brace (joined (rows.map Prod.snd)))
  | binary {pos : Position} {op : BinaryOp} {left right : Expr} {front back : List Token}
      (first : left.Written front) (second : right.Written back) :
      Expr.Form (.binary pos op left right) (front ++ Word.mark op.mark :: back)
  | unary {pos : Position} {op : UnaryOp} {operand : Expr} {words : List Token}
      (inner : operand.Written words) :
      Expr.Form (.unary pos op operand) (Word.mark op.mark :: words)
  | ternary {pos : Position} {cond yes no : Expr} {front middle back : List Token}
      (test : cond.Written front) (here : yes.Written middle) (there : no.Written back) :
      Expr.Form (.ternary pos cond yes no)
        (front ++ Word.mark .question :: (middle ++ Word.mark .colon :: back))
  | call {pos : Position} {callee : Expr} {front : List Token}
      {rows : List (Expr × List Token)} (first : callee.Written front)
      (all : ∀ row ∈ rows, Expr.Written row.1 row.2) :
      Expr.Form (.call pos callee (rows.map Prod.fst))
        (front ++ paren (joined (rows.map Prod.snd)))
  | member {pos : Position} {object : Expr} {name : String} {optional : Bool} {front : List Token}
      (first : object.Written front) (nameable : Nameable name) :
      Expr.Form (.member pos object name optional)
        (front ++ [Word.mark (if optional then .questionDot else .dot), Word.name name])
  | index {pos : Position} {object index : Expr} {front back : List Token}
      (first : object.Written front) (second : index.Written back) :
      Expr.Form (.index pos object index) (front ++ bracket back)
  | function {pos pos' : Position} {params : List Binding} {body : Body} {words : List Token}
      (rest : Function.Rest ⟨none, params, body, pos'⟩ words) :
      Expr.Form (.function pos ⟨none, params, body, pos'⟩) (Word.keyword .func_ :: words)
  | namedFunction {pos : Position} {fn : Function} {words : List Token} (method : fn.Method words) :
      Expr.Form (.function pos fn) words
  | arrow {pos pos' : Position} {value : Expr} {rows : List (Binding × List Token)}
      {words : List Token} (all : ∀ row ∈ rows, Binding.Written row.1 row.2)
      (body : value.Written words) :
      Expr.Form (.function pos ⟨none, rows.map Prod.fst, .value value, pos'⟩)
        (paren (joined (rows.map Prod.snd)) ++ Word.mark .fatArrow :: words)
  | spread {pos : Position} {inner : Expr} {words : List Token} (source : inner.Written words) :
      Expr.Form (.spread pos inner) (Word.mark .ellipsis :: words)
  | match_ {pos : Position} {subject : Expr} {front : List Token}
      {rows : List (Arm × List Token)} (first : subject.Written front)
      (all : ∀ row ∈ rows, Arm.Written row.1 row.2) :
      Expr.Form (.match_ pos subject (rows.map Prod.fst))
        (Word.keyword .match_ :: (front ++ brace (joined (rows.map Prod.snd))))
  | arrayOf {pos : Position} {element source : Expr} {name : String} {front middle : List Token}
      {rows : List (Clause × List Token)} (first : element.Written front)
      (each : Clause.Written (.each name source) middle)
      (all : ∀ row ∈ rows, Clause.Written row.1 row.2) :
      Expr.Form (.arrayOf pos element (.each name source :: rows.map Prod.fst))
        (bracket (front ++ (middle ++ (rows.map Prod.snd).flatten)))
  | recordOf {pos : Position} {key value source : Expr} {name : String} {front middle : List Token}
      {rows : List (Clause × List Token)} (first : Entry.Keyed key value front)
      (each : Clause.Written (.each name source) middle)
      (all : ∀ row ∈ rows, Clause.Written row.1 row.2) :
      Expr.Form (.recordOf pos key value (.each name source :: rows.map Prod.fst))
        (brace (front ++ (middle ++ (rows.map Prod.snd).flatten)))
  | super_ {pos : Position} : Expr.Form (.super_ pos none) [Word.keyword .super_]
  | superMember {pos : Position} {name : String} (nameable : Nameable name) :
      Expr.Form (.super_ pos (some name)) [Word.keyword .super_, Word.mark .dot, Word.name name]

/-- How an operand is written: one word, or a form in parentheses. -/
inductive Expr.Written : Expr → List Token → Prop
  | bare {expr : Expr} {word : Token} (atom : expr.Atom false word) : Expr.Written expr [word]
  | group {expr : Expr} {words : List Token} (form : expr.Form words) :
      Expr.Written expr (paren words)

inductive TemplatePart.Written : TemplatePart → TemplatePiece → Prop
  | text {value : String} : TemplatePart.Written (.text value) (.text value)
  | hole {expr : Expr} {words : List Token} (inner : expr.Written words) :
      TemplatePart.Written (.hole expr) (.hole (Token.respell words) .unknown)

inductive Entry.Written : Entry → List Token → Prop
  | named {key : String} {word : Token} {value : Expr} {words : List Token}
      (keyed : Word.IsKey key word) (inner : value.Written words) :
      Entry.Written (.field (.name key) value) (word :: Word.mark .colon :: words)
  | shorthand {key : String} {pos : Position} (nameable : Nameable key) :
      Entry.Written (.field (.name key) (.ident pos key)) [Word.name key]
  | computed {key value : Expr} {front back : List Token} (first : key.Written front)
      (second : value.Written back) :
      Entry.Written (.field (.computed key) value) (bracket front ++ Word.mark .colon :: back)
  | spread {source : Expr} {words : List Token} (inner : source.Written words) :
      Entry.Written (.spread source) (Word.mark .ellipsis :: words)

/-- How the key and the value of a record comprehension are written. A bare name is a variable
there, even if it is a keyword. -/
inductive Entry.Keyed : Expr → Expr → List Token → Prop
  | computed {key value : Expr} {front back : List Token} (first : key.Written front)
      (second : value.Written back) :
      Entry.Keyed key value (bracket front ++ Word.mark .colon :: back)
  | named {pos : Position} {name : String} {value : Expr} {words : List Token}
      (nameable : Nameable name) (inner : value.Written words) :
      Entry.Keyed (.ident pos name) value (Word.name name :: Word.mark .colon :: words)
  | shorthand {pos pos' : Position} {name : String} (nameable : Nameable name) :
      Entry.Keyed (.ident pos name) (.ident pos' name) [Word.name name]

inductive Arm.Written : Arm → List Token → Prop
  | mk {pattern : Pattern} {body : Expr} {front back : List Token}
      (first : pattern.Written false front) (second : body.Written back) :
      Arm.Written ⟨pattern, none, body⟩
        (Word.keyword .case_ :: (front ++ Word.mark .fatArrow :: back))

inductive Clause.Written : Clause → List Token → Prop
  | each {name : String} {source : Expr} {words : List Token} (named : Identifier name)
      (inner : source.Written words) :
      Clause.Written (.each name source)
        (Word.keyword .for_ :: Word.name name :: Word.keyword .in_ :: words)
  | only {cond : Expr} {words : List Token} (inner : cond.Written words) :
      Clause.Written (.only cond) (Word.keyword .if_ :: words)

inductive Binding.Written : Binding → List Token → Prop
  | bare {name : String} (named : Identifier name) : Binding.Written ⟨name, none⟩ [Word.name name]
  | init {name : String} {value : Expr} {words : List Token} (named : Identifier name)
      (inner : value.Written words) :
      Binding.Written ⟨name, some value⟩ (Word.name name :: Word.mark .assign :: words)

/-- How the parameters and the block of a function are written. -/
inductive Function.Rest : Function → List Token → Prop
  | mk {name : Option String} {block : Block} {pos : Position}
      {rows : List (Binding × List Token)} {words : List Token}
      (all : ∀ row ∈ rows, Binding.Written row.1 row.2) (body : block.Written words) :
      Function.Rest ⟨name, rows.map Prod.fst, .block block, pos⟩
        (paren (joined (rows.map Prod.snd)) ++ words)

inductive Function.Method : Function → List Token → Prop
  | mk {name : String} {params : List Binding} {body : Body} {pos : Position} {words : List Token}
      (named : Identifier name) (rest : Function.Rest ⟨some name, params, body, pos⟩ words) :
      Function.Method ⟨some name, params, body, pos⟩
        (Word.keyword .func_ :: Word.name name :: words)

inductive Block.Written : Block → List Token → Prop
  | mk {pos : Position} {rows : List (Stmt × List Token)}
      (all : ∀ row ∈ rows, Stmt.Written row.1 row.2) :
      Block.Written ⟨rows.map Prod.fst, pos⟩ (brace (ended (rows.map Prod.snd)))

/-- How a statement that may stand in the head of a `for` is written. -/
inductive Stmt.Simple : Stmt → List Token → Prop
  | expr {pos : Position} {expr : Expr} {words : List Token} (inner : expr.Written words) :
      Stmt.Simple (.expr pos expr) words
  | declare {pos : Position} {constant : Bool} {rows : List (Binding × List Token)}
      (nonempty : rows ≠ []) (valued : constant = true → ∀ row ∈ rows, row.1.value ≠ none)
      (all : ∀ row ∈ rows, Binding.Written row.1 row.2) :
      Stmt.Simple (.declare pos constant (rows.map Prod.fst))
        (Word.keyword (if constant then .const_ else .let_) :: joined (rows.map Prod.snd))
  | destructure {pos : Position} {constant : Bool} {names : Destructure} {value : Expr}
      {front back : List Token} (first : names.Written front) (second : value.Written back) :
      Stmt.Simple (.destructure pos constant names value)
        (Word.keyword (if constant then .const_ else .let_)
          :: (front ++ Word.mark .assign :: back))
  | assign {pos : Position} {target value : Expr} {op : AssignOp} {front back : List Token}
      (legal : Grammar.isTarget target = true) (first : target.Written front)
      (second : value.Written back) :
      Stmt.Simple (.assign pos target op value) (front ++ Word.mark op.mark :: back)
  | increment {pos pos' : Position} {target : Expr} {words : List Token}
      (legal : Grammar.isTarget target = true) (first : target.Written words) :
      Stmt.Simple (.assign pos target .add (.literal pos' (.number 1.0)))
        (words ++ [Word.mark .plusPlus])
  | decrement {pos pos' : Position} {target : Expr} {words : List Token}
      (legal : Grammar.isTarget target = true) (first : target.Written words) :
      Stmt.Simple (.assign pos target .sub (.literal pos' (.number 1.0)))
        (words ++ [Word.mark .minusMinus])

/-- How an `if` is written with all its `else if` parts. -/
inductive Stmt.Branch : Stmt → List Token → Prop
  | alone {pos : Position} {cond : Expr} {yes : Block} {front back : List Token}
      (test : cond.Written front) (here : yes.Written back) :
      Stmt.Branch (.if_ pos cond yes none) (Word.keyword .if_ :: (front ++ back))
  | otherwise {pos pos' : Position} {cond : Expr} {yes no : Block} {front middle back : List Token}
      (test : cond.Written front) (here : yes.Written middle) (there : no.Written back) :
      Stmt.Branch (.if_ pos cond yes (some (.block pos' no)))
        (Word.keyword .if_ :: (front ++ (middle ++ Word.keyword .else_ :: back)))
  | chained {pos : Position} {cond : Expr} {yes : Block} {no : Stmt} {front middle back : List Token}
      (test : cond.Written front) (here : yes.Written middle) (there : no.Branch back) :
      Stmt.Branch (.if_ pos cond yes (some no))
        (Word.keyword .if_ :: (front ++ (middle ++ Word.keyword .else_ :: back)))

inductive Handler.Written : Handler → List Token → Prop
  | mk {name : String} {body : Block} {words : List Token} (named : Identifier name)
      (inner : body.Written words) :
      Handler.Written ⟨name, body⟩ (Word.keyword .catch_ :: (paren [Word.name name] ++ words))

inductive Stmt.Written : Stmt → List Token → Prop
  | simple {stmt : Stmt} {words : List Token} (simple : stmt.Simple words) : Stmt.Written stmt words
  | branch {stmt : Stmt} {words : List Token} (branch : stmt.Branch words) : Stmt.Written stmt words
  | function {pos : Position} {fn : Function} {words : List Token} (method : fn.Method words) :
      Stmt.Written (.function pos fn) words
  | class_ {pos pos' : Position} {name : String} {parent : Option String}
      {fields : List (Binding × List Token)} {methods : List (Function × List Token)}
      (named : Identifier name) (extends_ : ∀ name ∈ parent, Identifier name)
      (valued : ∀ row ∈ fields, Binding.Written row.1 row.2)
      (called : ∀ row ∈ methods, Function.Method row.1 row.2) :
      Stmt.Written (.class_ pos ⟨name, parent, fields.map Prod.fst, methods.map Prod.fst, pos'⟩)
        (Word.keyword .class_ :: Word.name name
          :: ((parent.elim [] fun parent => [Word.keyword .extends_, Word.name parent])
            ++ brace (ended (fields.map (Word.keyword .let_ :: ·.2) ++ methods.map Prod.snd))))
  | while_ {pos : Position} {cond : Expr} {body : Block} {front back : List Token}
      (test : cond.Written front) (inner : body.Written back) :
      Stmt.Written (.while_ pos cond body) (Word.keyword .while_ :: (front ++ back))
  | for_ {pos : Position} {init post : Option (Stmt × List Token)}
      {cond : Option (Expr × List Token)} {body : Block} {words : List Token}
      (first : ∀ row ∈ init, Stmt.Simple row.1 row.2)
      (test : ∀ row ∈ cond, Expr.Written row.1 row.2)
      (last : ∀ row ∈ post, Stmt.Simple row.1 row.2) (inner : body.Written words) :
      Stmt.Written (.for_ pos (init.map Prod.fst) (cond.map Prod.fst) (post.map Prod.fst) body)
        (Word.keyword .for_ :: (paren (init.elim [] Prod.snd ++ Word.mark .semicolon
          :: (cond.elim [] Prod.snd ++ Word.mark .semicolon :: post.elim [] Prod.snd)) ++ words))
  | forIn {pos : Position} {name : String} {source : Expr} {body : Block} {front back : List Token}
      (named : Identifier name) (first : source.Written front) (inner : body.Written back) :
      Stmt.Written (.forIn pos name source body)
        (Word.keyword .for_ :: (paren (Word.name name :: Word.keyword .in_ :: front) ++ back))
  | block {pos : Position} {block : Block} {words : List Token} (inner : block.Written words) :
      Stmt.Written (.block pos block) words
  | return_ {pos : Position} : Stmt.Written (.return_ pos none) [Word.keyword .return_]
  | returnValue {pos : Position} {value : Expr} {words : List Token} (inner : value.Written words) :
      Stmt.Written (.return_ pos (some value)) (Word.keyword .return_ :: words)
  | break_ {pos : Position} : Stmt.Written (.break_ pos) [Word.keyword .break_]
  | continue_ {pos : Position} : Stmt.Written (.continue_ pos) [Word.keyword .continue_]
  | try_ {pos : Position} {body : Block} {handler : Option (Handler × List Token)}
      {cleanup : Option (Block × List Token)} {words : List Token}
      (followed : ¬ (handler = none ∧ cleanup = none)) (inner : body.Written words)
      (caught : ∀ row ∈ handler, Handler.Written row.1 row.2)
      (last : ∀ row ∈ cleanup, Block.Written row.1 row.2) :
      Stmt.Written (.try_ pos body (handler.map Prod.fst) (cleanup.map Prod.fst))
        (Word.keyword .try_ :: (words ++ (handler.elim [] Prod.snd
          ++ cleanup.elim [] (Word.keyword .finally_ :: ·.2))))
  | throw_ {pos : Position} {value : Expr} {words : List Token} (inner : value.Written words) :
      Stmt.Written (.throw_ pos value) (Word.keyword .throw_ :: words)
  | import_ {pos : Position} {path : String} {name : Option String}
      (named : ∀ given ∈ name, Identifier given) :
      Stmt.Written (.import_ pos path name)
        (Word.keyword .import_ :: Word.text path
          :: name.elim [] fun name => [Word.keyword .as_, Word.name name])

end

/-- The text is a spelling of the program: its statements, each with a semicolon after it, as words
with a space between each two. -/
def Program.Renders (program : Program) (text : String) : Prop :=
  ∃ rows : List (Stmt × List Token), program.body = rows.map Prod.fst ∧
    (∀ row ∈ rows, Stmt.Written row.1 row.2) ∧ text = Token.respell (ended (rows.map Prod.snd))

/-- An operation stands in parentheses, a name by itself. -/
example : Program.Renders ⟨[.expr .unknown (.unary .unknown .neg (.ident .unknown "a"))], ""⟩
    "( - a ) ;" := by
  have named : Identifier "a" := ⟨.of_chars rfl (by decide) rfl, rfl⟩
  have written : Stmt.Written (.expr .unknown (.unary .unknown .neg (.ident .unknown "a"))) _ :=
    .simple (.expr (.group (.unary (.bare (.ident named)))))
  exact ⟨[(_, _)], rfl, List.forall_mem_singleton.mpr written, by decide⟩

end Rill

import Rill.Grammar.Stream
import Rill.Syntax

/-!
# Goals of the grammar

The productions that refer back to themselves are goals. Every other production is an ordinary
function that is given a way to reach a goal, and it asks for one only after taking a token.
-/

set_option autoImplicit false

namespace Rill

/-- The productions that refer back to themselves, each with the type of what it reads. -/
inductive Goal : Type → Type where
  | statement : Goal Stmt
  /-- An `if` with all its `else if` parts. -/
  | conditional : Goal Stmt
  | expression : Goal Expr
  /-- Operands joined by operators that bind tighter than `power`. -/
  | operation (power : Nat) : Goal Expr
  /-- An operand with the operators before it. -/
  | operand : Goal Expr
  | pattern : Goal Pattern

abbrev Reach := {α : Type} → Goal α → Parser α

namespace Grammar

/-- Statements between braces; the opening brace may stand on a later line. -/
def block (reach : Reach) : Parser Block := do
  Parser.skipNewlines
  let opening ← Parser.expect (.mark .openBrace)
  let stmts ← Parser.loop (fun done => do
    Parser.skipSeparators
    if ← Parser.eat (.mark .closeBrace) then return .done done.reverse
    if ← Parser.check .endOfInput then Parser.unexpected (.token (.mark .closeBrace))
    let stmt ← reach .statement
    return .again (stmt :: done)) []
  return ⟨stmts, opening.pos⟩

def initialiser (reach : Reach) : Parser (Option Expr) := do
  if ← Parser.eat (.mark .assign) then
    Parser.skipNewlines
    return some (← reach .expression)
  else return none

def params (reach : Reach) : Parser (List Binding) := do
  let _ ← Parser.expect (.mark .openParen)
  Parser.listed .closeParen do
    let name ← Parser.identifier
    return ⟨name, ← initialiser reach⟩

/-- The parameters and the block of a function whose name has been read. -/
def functionRest (reach : Reach) (name : Option String) (pos : Position) : Parser Function := do
  let params ← params reach
  let body ← block reach
  return ⟨name, params, .block body, pos⟩

def numberValue (token : Token) : Parser Float :=
  match Number.read token.text with
  | some value => return value
  | none => Parser.fail (.invalid token.pos (.malformedNumber token.text))

end Grammar

end Rill

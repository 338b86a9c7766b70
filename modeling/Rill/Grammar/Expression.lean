import Rill.Grammar.Collection
import Rill.Grammar.Pattern

/-!
# Expressions

Operands with what comes before and after them, and the operators that join them. Operators of one
level group to the left; a right operand takes in only what binds tighter.
-/

set_option autoImplicit false

namespace Rill

namespace BinaryOp

def ofKind? : TokenKind → Option BinaryOp
  | .mark .plus => some .add
  | .mark .minus => some .sub
  | .mark .star => some .mul
  | .mark .slash => some .div
  | .mark .percent => some .mod
  | .mark .equal => some .eq
  | .mark .notEqual => some .notEq
  | .mark .less => some .less
  | .mark .lessEqual => some .lessEq
  | .mark .greater => some .greater
  | .mark .greaterEqual => some .greaterEq
  | .mark .andAnd => some .and
  | .mark .orOr => some .or
  | .mark .questionQuestion => some .coalesce
  | .mark .amp => some .bitAnd
  | .mark .pipe => some .bitOr
  | .mark .caret => some .bitXor
  | .mark .shiftLeft => some .shiftLeft
  | .mark .shiftRight => some .shiftRight
  | .mark .pipeArrow => some .pipe
  | _ => none

end BinaryOp

namespace UnaryOp

def ofKind? : TokenKind → Option UnaryOp
  | .mark .minus => some .neg
  | .mark .plus => some .plus
  | .mark .bang => some .not
  | .mark .tilde => some .bitNot
  | _ => none

end UnaryOp

namespace Grammar

/-- Whether the bracket that closes `depth` open ones is directly followed by an arrow. -/
def arrowAfterClose (depth : Nat) : List Token → Bool
  | [] => false
  | token :: rest =>
      match token.kind with
      | .mark .openParen | .mark .openBracket | .mark .openBrace =>
          arrowAfterClose (depth + 1) rest
      | .mark .closeParen | .mark .closeBracket | .mark .closeBrace =>
          if depth = 0 then false
          else if depth = 1 then rest.head?.map Token.kind == some (.mark .fatArrow)
          else arrowAfterClose (depth - 1) rest
      | _ => arrowAfterClose depth rest

def arrowAhead : Parser Bool := fun stream => .ok (arrowAfterClose 0 stream.ahead, stream)

/-- The body of an arrow function: a block or an expression. -/
def arrowBody (reach : Reach) (params : List Binding) (pos : Position) : Parser Expr := do
  Parser.skipNewlines
  let body ←
    if ← Parser.check (.mark .openBrace) then pure (Body.block (← block reach))
    else pure (Body.value (← reach .expression))
  return .function pos ⟨none, params, body, pos⟩

/-- What starts with a parenthesis: an arrow function or a grouped expression. -/
def parenthesised (reach : Reach) (pos : Position) : Parser Expr := do
  if ← arrowAhead then
    let params ← params reach
    let _ ← Parser.expect (.mark .fatArrow)
    arrowBody reach params pos
  else
    let _ ← Parser.advance
    Parser.skipNewlines
    let inner ← reach .expression
    Parser.skipNewlines
    let _ ← Parser.expect (.mark .closeParen)
    return inner

/-- What starts with an identifier: an arrow function of one parameter, or the name. -/
def named (reach : Reach) (token : Token) : Parser Expr := do
  let _ ← Parser.advance
  if ← Parser.eat (.mark .fatArrow) then arrowBody reach [⟨token.text, none⟩] token.pos
  else return .ident token.pos token.text

def functionLiteral (reach : Reach) (pos : Position) : Parser Expr := do
  let name ← if ← Parser.check .ident then pure (some (← Parser.identifier)) else pure none
  return .function pos (← functionRest reach name pos)

def superReference (pos : Position) : Parser Expr := do
  let name ← if ← Parser.eat (.mark .dot) then pure (some (← Parser.memberName)) else pure none
  return .super_ pos name

def primary (reach : Reach) : Parser Expr := do
  let token ← Parser.current
  let pos := token.pos
  match token.kind with
  | .number =>
      let _ ← Parser.advance
      return .literal pos (.number (← numberValue token))
  | .text =>
      let _ ← Parser.advance
      return .literal pos (.text token.text)
  | .template pieces =>
      let _ ← Parser.advance
      return .template pos (← templateParts reach pieces)
  | .ident => named reach token
  | .keyword .true_ =>
      let _ ← Parser.advance
      return .literal pos (.bool true)
  | .keyword .false_ =>
      let _ ← Parser.advance
      return .literal pos (.bool false)
  | .keyword .nil_ =>
      let _ ← Parser.advance
      return .literal pos .nil
  | .keyword .func_ =>
      let _ ← Parser.advance
      functionLiteral reach pos
  | .keyword .match_ =>
      let _ ← Parser.advance
      matching reach pos
  | .keyword .super_ =>
      let _ ← Parser.advance
      superReference pos
  | .mark .openParen => parenthesised reach pos
  | .mark .openBracket =>
      let _ ← Parser.advance
      array reach pos
  | .mark .openBrace =>
      let _ ← Parser.advance
      record reach pos
  | _ => Parser.fail (.expected .expression token)

def memberAccess (object : Expr) (pos : Position) (optional : Bool) : Parser Expr := do
  let _ ← Parser.advance
  return .member pos object (← Parser.memberName) optional

/-- One link of a chain of calls, members and indices, if one follows. A chain may go on with a
dot on a later line. -/
def link (reach : Reach) (object : Expr) : Parser (Parser.Round Expr Expr) := do
  let token ← Parser.current
  match token.kind with
  | .mark .openParen =>
      let _ ← Parser.advance
      let args ← Parser.listed .closeParen (reach .expression)
      return .again (.call token.pos object args)
  | .mark .dot => return .again (← memberAccess object token.pos false)
  | .mark .questionDot => return .again (← memberAccess object token.pos true)
  | .mark .openBracket =>
      let _ ← Parser.advance
      Parser.skipNewlines
      let index ← reach .expression
      Parser.skipNewlines
      let _ ← Parser.expect (.mark .closeBracket)
      return .again (.index token.pos object index)
  | .newline =>
      let next ← Parser.pastNewlines
      if next.kind = .mark .dot ∨ next.kind = .mark .questionDot then
        Parser.skipNewlines
        return .again object
      else return .done object
  | _ => return .done object

def chain (reach : Reach) : Parser Expr := do
  let object ← primary reach
  Parser.loop (link reach) object

def operand (reach : Reach) : Parser Expr := do
  let token ← Parser.current
  if token.kind = .mark .ellipsis then
    let _ ← Parser.advance
    return .spread token.pos (← reach .operand)
  match UnaryOp.ofKind? token.kind with
  | some op =>
      let _ ← Parser.advance
      return .unary token.pos op (← reach .operand)
  | none => chain reach

/-- Take in one more operator and its right operand, if the operator binds tighter than `power`. -/
def climb (reach : Reach) (power : Nat) (left : Expr) : Parser (Parser.Round Expr Expr) := do
  match BinaryOp.ofKind? (← Parser.current).kind with
  | none => return .done left
  | some op =>
      if op.power ≤ power then return .done left
      let _ ← Parser.advance
      Parser.skipNewlines
      let right ← reach (.operation op.power)
      return .again (.binary left.pos op left right)

def operation (reach : Reach) (power : Nat) : Parser Expr := do
  let left ← operand reach
  Parser.loop (climb reach power) left

/-- An expression: operands and operators, and perhaps a choice between two others. -/
def expression (reach : Reach) : Parser Expr := do
  let cond ← operation reach 0
  if ← Parser.eat (.mark .question) then
    Parser.skipNewlines
    let yes ← reach .expression
    Parser.skipNewlines
    let _ ← Parser.expect (.mark .colon)
    Parser.skipNewlines
    let no ← reach .expression
    return .ternary cond.pos cond yes no
  else return cond

end Grammar

end Rill

import Rill.Grammar.Goal

/-!
# Patterns and matches

The patterns of a `match` and its arms.
-/

set_option autoImplicit false

namespace Rill.Grammar

/-- An array pattern after its opening bracket: patterns, then perhaps a name for the rest. -/
def arrayPattern (reach : Reach) : Parser Pattern :=
  Parser.loop (fun done => do
    Parser.skipNewlines
    if ← Parser.eat (.mark .closeBracket) then return .done (.array done.reverse none)
    if ← Parser.eat (.mark .ellipsis) then
      let rest ← Parser.identifier
      Parser.skipNewlines
      let _ ← Parser.expect (.mark .closeBracket)
      return .done (.array done.reverse (some rest))
    let element ← reach .pattern
    Parser.skipNewlines
    if ← Parser.eat (.mark .comma) then return .again (element :: done)
    Parser.skipNewlines
    let _ ← Parser.expect (.mark .closeBracket)
    return .done (.array (element :: done).reverse none)) []

/-- One field of a record pattern. A key alone binds the variable of that name. -/
def patternField (reach : Reach) : Parser (String × Pattern) := do
  let key ←
    if ← Parser.check .text then pure (← Parser.advance).text else Parser.memberName
  if ← Parser.eat (.mark .colon) then return (key, ← reach .pattern)
  return (key, .binding key)

def pattern (reach : Reach) : Parser Pattern := do
  let token ← Parser.current
  match token.kind with
  | .ident =>
      let _ ← Parser.advance
      return if token.text = "_" then .wildcard else .binding token.text
  | .number =>
      let _ ← Parser.advance
      return .literal (.number (← numberValue token))
  | .mark .minus =>
      if (← Parser.peek).kind = .number then
        let _ ← Parser.advance
        let number ← Parser.advance
        return .literal (.number (-(← numberValue number)))
      else Parser.fail (.expected .pattern token)
  | .text =>
      let _ ← Parser.advance
      return .literal (.text token.text)
  | .keyword .true_ =>
      let _ ← Parser.advance
      return .literal (.bool true)
  | .keyword .false_ =>
      let _ ← Parser.advance
      return .literal (.bool false)
  | .keyword .nil_ =>
      let _ ← Parser.advance
      return .literal .nil
  | .mark .openBracket =>
      let _ ← Parser.advance
      arrayPattern reach
  | .mark .openBrace =>
      let _ ← Parser.advance
      return .record (← Parser.listed .closeBrace (patternField reach))
  | _ => Parser.fail (.expected .pattern token)

/-- One arm of a `match`: pattern, guard and body. -/
def arm (reach : Reach) : Parser Arm := do
  let _ ← Parser.expect (.keyword .case_)
  let pattern ← reach .pattern
  let guard ←
    if ← Parser.eat (.keyword .if_) then pure (some (← reach .expression)) else pure none
  let _ ← Parser.expect (.mark .fatArrow)
  Parser.skipNewlines
  let body ← reach .expression
  return ⟨pattern, guard, body⟩

def matching (reach : Reach) (pos : Position) : Parser Expr := do
  let subject ← reach .expression
  Parser.skipNewlines
  let _ ← Parser.expect (.mark .openBrace)
  let arms ← Parser.loop (fun done => do
    Parser.skipEntrySeparators
    if ← Parser.eat (.mark .closeBrace) then return .done done.reverse
    let next ← arm reach
    return .again (next :: done)) []
  return .match_ pos subject arms

end Rill.Grammar

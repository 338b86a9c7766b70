import Rill.Grammar.Expression

/-!
# Statements and declarations

A statement is known by its first token; any other token starts an expression, which an assignment
may follow.
-/

set_option autoImplicit false

namespace Rill

namespace AssignOp

def ofKind? : TokenKind → Option AssignOp
  | .mark .assign => some .set
  | .mark .plusEq => some .add
  | .mark .minusEq => some .sub
  | .mark .starEq => some .mul
  | .mark .slashEq => some .div
  | .mark .percentEq => some .mod
  | _ => none

def ofStep? : TokenKind → Option AssignOp
  | .mark .plusPlus => some .add
  | .mark .minusMinus => some .sub
  | _ => none

end AssignOp

namespace Grammar

def destructure : Parser Destructure := do
  let opening ← Parser.advance
  if opening.kind = .mark .openBracket then
    let names ← Parser.listed .closeBracket Parser.identifier
    return .array (names.map fun name => if name = "_" then none else some name)
  else return .record (← Parser.listed .closeBrace Parser.identifier)

/-- The variables of a declaration, with commas between them. A constant needs a value. -/
def declared (reach : Reach) (constant : Bool) : Parser (List Binding) :=
  Parser.loop (fun done => do
    let token ← Parser.current
    let name ← Parser.identifier
    let value ← initialiser reach
    if constant && value.isNone then
      Parser.fail (.invalid token.pos (.uninitialisedConstant name))
    let found : List Binding := ⟨name, value⟩ :: done
    if ← Parser.eat (.mark .comma) then
      Parser.skipNewlines
      return .again found
    else return .done found.reverse) []

def declaration (reach : Reach) (constant : Bool) (pos : Position) : Parser Stmt := do
  let _ ← Parser.advance
  let token ← Parser.current
  if token.kind = .mark .openBracket ∨ token.kind = .mark .openBrace then
    let names ← destructure
    let _ ← Parser.expect (.mark .assign)
    Parser.skipNewlines
    let value ← reach .expression
    return .destructure pos constant names value
  else return .declare pos constant (← declared reach constant)

def isTarget : Expr → Bool
  | .ident _ _ | .index _ _ _ | .member _ _ _ false => true
  | _ => false

/-- Stop unless the expression can be assigned to. -/
def checkTarget (target : Expr) : Parser Unit :=
  if isTarget target then return () else Parser.fail (.invalid target.pos .badTarget)

def assignment (reach : Reach) (pos : Position) : Parser Stmt := do
  let target ← expression reach
  let token ← Parser.current
  match AssignOp.ofStep? token.kind, AssignOp.ofKind? token.kind with
  | some op, _ =>
      let _ ← Parser.advance
      checkTarget target
      return .assign pos target op (.literal token.pos (.number 1.0))
  | none, some op =>
      let _ ← Parser.advance
      checkTarget target
      Parser.skipNewlines
      return .assign pos target op (← reach .expression)
  | none, none => return .expr pos target

/-- A declaration, an expression or an assignment: what the head of a `for` may hold. -/
def simple (reach : Reach) : Parser Stmt := do
  let token ← Parser.current
  match token.kind with
  | .keyword .let_ => declaration reach false token.pos
  | .keyword .const_ => declaration reach true token.pos
  | _ => assignment reach token.pos

def conditional (reach : Reach) : Parser Stmt := do
  let opening ← Parser.advance
  let cond ← reach .expression
  let yes ← block reach
  if (← Parser.pastNewlines).kind = .keyword .else_ then
    Parser.skipNewlines
    let other ← Parser.advance
    if ← Parser.check (.keyword .if_) then
      return .if_ opening.pos cond yes (some (← reach .conditional))
    else
      let no ← block reach
      return .if_ opening.pos cond yes (some (.block other.pos no))
  else return .if_ opening.pos cond yes none

/-- A part of a `for` head that is left out when `stop` comes next. -/
def optional {α : Type} (stop : Mark) (part : Parser α) : Parser (Option α) := do
  if ← Parser.check (.mark stop) then return none else return some (← part)

def counting (reach : Reach) (pos : Position) (inParens : Bool) : Parser Stmt := do
  let init ← optional .semicolon (simple reach)
  let _ ← Parser.expect (.mark .semicolon)
  let cond ← optional .semicolon (reach .expression)
  let _ ← Parser.expect (.mark .semicolon)
  let post ← optional (if inParens then .closeParen else .openBrace) (simple reach)
  if inParens then
    let _ ← Parser.expect (.mark .closeParen)
  let body ← block reach
  return .for_ pos init cond post body

def forLoop (reach : Reach) : Parser Stmt := do
  let opening ← Parser.advance
  let inParens ← Parser.eat (.mark .openParen)
  if (← Parser.check .ident) && (← Parser.peek).kind = .keyword .in_ then
    let name ← Parser.identifier
    let _ ← Parser.advance
    let source ← reach .expression
    if inParens then
      let _ ← Parser.expect (.mark .closeParen)
    let body ← block reach
    return .forIn opening.pos name source body
  else counting reach opening.pos inParens

def defaultCaught : String := "$e"

def caughtName : Parser String := do
  if ← Parser.eat (.mark .openParen) then
    let name ← Parser.identifier
    let _ ← Parser.expect (.mark .closeParen)
    return name
  else if ← Parser.check .ident then Parser.identifier
  else return defaultCaught

def guarded (reach : Reach) : Parser Stmt := do
  let opening ← Parser.advance
  let body ← block reach
  let handler ←
    if (← Parser.pastNewlines).kind = .keyword .catch_ then
      Parser.skipNewlines
      let _ ← Parser.advance
      let name ← caughtName
      pure (some (Handler.mk name (← block reach)))
    else pure none
  let cleanup ←
    if (← Parser.pastNewlines).kind = .keyword .finally_ then
      Parser.skipNewlines
      let _ ← Parser.advance
      pure (some (← block reach))
    else pure none
  if handler.isNone && cleanup.isNone then Parser.fail (.invalid opening.pos .bareTry)
  return .try_ opening.pos body handler cleanup

def method (reach : Reach) (pos : Position) : Parser Function := do
  let name ← Parser.identifier
  functionRest reach (some name) pos

def fields (reach : Reach) : Parser (List Binding) :=
  Parser.loop (fun done => do
    let name ← Parser.identifier
    let value ← initialiser reach
    let found : List Binding := ⟨name, value⟩ :: done
    if ← Parser.eat (.mark .comma) then return .again found
    else return .done found.reverse) []

/-- One member of a class, or its closing brace. The state holds the fields and the methods read
so far. -/
def classMember (reach : Reach) (done : List Binding × List Function) :
    Parser (Parser.Round (List Binding × List Function) (List Binding × List Function)) := do
  Parser.skipSeparators
  let token ← Parser.current
  match token.kind with
  | .mark .closeBrace =>
      let _ ← Parser.advance
      return .done done
  | .keyword .let_ | .keyword .const_ =>
      let _ ← Parser.advance
      return .again (done.1 ++ (← fields reach), done.2)
  | .keyword .func_ =>
      let _ ← Parser.advance
      return .again (done.1, done.2 ++ [← method reach token.pos])
  | .ident =>
      let next ← Parser.peek
      if token.text = "method" ∧ next.kind = .ident then
        let _ ← Parser.advance
        return .again (done.1, done.2 ++ [← method reach token.pos])
      else if next.kind = .mark .openParen then
        return .again (done.1, done.2 ++ [← method reach token.pos])
      else Parser.fail (.expected .classMember token)
  | _ => Parser.fail (.expected .classMember token)

def classDeclaration (reach : Reach) : Parser ClassDecl := do
  let opening ← Parser.advance
  let name ← Parser.identifier
  let parent ←
    if ← Parser.eat (.keyword .extends_) then pure (some (← Parser.identifier)) else pure none
  Parser.skipNewlines
  let _ ← Parser.expect (.mark .openBrace)
  let (fields, methods) ← Parser.loop (classMember reach) ([], [])
  return ⟨name, parent, fields, methods, opening.pos⟩

def importing (pos : Position) : Parser Stmt := do
  let path ← Parser.expect .text
  let name ←
    if ← Parser.eat (.keyword .as_) then pure (some (← Parser.identifier)) else pure none
  return .import_ pos path.text name

def statement (reach : Reach) : Parser Stmt := do
  let token ← Parser.current
  let pos := token.pos
  match token.kind with
  | .keyword .let_ => declaration reach false pos
  | .keyword .const_ => declaration reach true pos
  | .keyword .func_ =>
      if (← Parser.peek).kind = .ident then
        let _ ← Parser.advance
        return .function pos (← method reach pos)
      else assignment reach pos
  | .keyword .class_ => return .class_ pos (← classDeclaration reach)
  | .keyword .if_ => conditional reach
  | .keyword .while_ =>
      let _ ← Parser.advance
      let cond ← reach .expression
      return .while_ pos cond (← block reach)
  | .keyword .for_ => forLoop reach
  | .keyword .return_ =>
      let _ ← Parser.advance
      if (← Parser.current).kind.isTerminator then return .return_ pos none
      else return .return_ pos (some (← reach .expression))
  | .keyword .break_ =>
      let _ ← Parser.advance
      return .break_ pos
  | .keyword .continue_ =>
      let _ ← Parser.advance
      return .continue_ pos
  | .keyword .try_ => guarded reach
  | .keyword .throw_ =>
      let _ ← Parser.advance
      return .throw_ pos (← reach .expression)
  | .keyword .import_ =>
      let _ ← Parser.advance
      importing pos
  | .mark .openBrace => return .block pos (← block reach)
  | _ => assignment reach pos

end Grammar

end Rill

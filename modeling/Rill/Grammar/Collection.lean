import Rill.Grammar.Goal

/-!
# Arrays, records and templates

Literals that hold other expressions, and the comprehensions that look like them.
-/

set_option autoImplicit false

namespace Rill.Grammar

/-- The clauses of a comprehension: one `for` at least, then any mixture of `for` and `if`. -/
def clauses (reach : Reach) : Parser (List Clause) :=
  Parser.loop (fun (done : List Clause) => do
    Parser.skipNewlines
    if ← Parser.eat (.keyword .for_) then
      let name ← Parser.identifier
      let _ ← Parser.expect (.keyword .in_)
      let source ← reach .expression
      return .again (.each name source :: done)
    if !done.isEmpty then
      if ← Parser.eat (.keyword .if_) then
        let cond ← reach .expression
        return .again (.only cond :: done)
    return .done done.reverse) []

def array (reach : Reach) (pos : Position) : Parser Expr := do
  Parser.skipNewlines
  if ← Parser.eat (.mark .closeBracket) then return .array pos []
  let first ← reach .expression
  Parser.skipNewlines
  if ← Parser.check (.keyword .for_) then
    let found ← clauses reach
    Parser.skipNewlines
    let _ ← Parser.expect (.mark .closeBracket)
    return .arrayOf pos first found
  let items ← Parser.loop (fun done => do
    if ← Parser.eat (.mark .comma) then
      Parser.skipNewlines
      if ← Parser.check (.mark .closeBracket) then return .done done.reverse
      let item ← reach .expression
      Parser.skipNewlines
      return .again (item :: done)
    else return .done done.reverse) [first]
  let _ ← Parser.expect (.mark .closeBracket)
  return .array pos items

/-- The key of a record entry, and the expression it stands for in a comprehension, where a bare
name is a variable. -/
def key (reach : Reach) : Parser (Key × Expr) := do
  let token ← Parser.current
  match token.kind with
  | .mark .openBracket =>
      let _ ← Parser.advance
      Parser.skipNewlines
      let key ← reach .expression
      Parser.skipNewlines
      let _ ← Parser.expect (.mark .closeBracket)
      return (.computed key, key)
  | .text =>
      let _ ← Parser.advance
      return (.name token.text, .literal token.pos (.text token.text))
  | .number =>
      let _ ← Parser.advance
      let value := (Number.read token.text).getD (0.0 / 0.0)
      return (.name token.text, .literal token.pos (.number value))
  | _ =>
      let name ← Parser.memberName
      return (.name name, .ident token.pos name)

/-- The value of a record entry whose key has been read. Only a bare name may stand without one. -/
def entryValue (reach : Reach) : Key × Expr → Parser Expr
  | (key, meant) => do
      if ← Parser.eat (.mark .colon) then
        Parser.skipNewlines
        reach .expression
      else
        match key, meant with
        | .name _, .ident pos name => return .ident pos name
        | _, _ => Parser.unexpected (.token (.mark .colon))

def endsEntry (token : Token) : Bool :=
  token.kind = .mark .comma || token.kind = .newline || token.kind = .mark .semicolon
    || token.kind = .mark .closeBrace

/-- A record literal or comprehension after its opening brace. It is a comprehension when `for`
follows its first entry. -/
def record (reach : Reach) (pos : Position) : Parser Expr :=
  Parser.loop (fun (done : List Entry) => do
    Parser.skipEntrySeparators
    if ← Parser.eat (.mark .closeBrace) then return .done (.record pos done.reverse)
    if ← Parser.eat (.mark .ellipsis) then
      let source ← reach .expression
      return .again (.spread source :: done)
    let (key, meant) ← key reach
    let value ← entryValue reach (key, meant)
    if done.isEmpty && (← Parser.pastNewlines).kind = .keyword .for_ then
      Parser.skipNewlines
      let found ← clauses reach
      Parser.skipNewlines
      let _ ← Parser.expect (.mark .closeBrace)
      return .done (.recordOf pos meant value found)
    if endsEntry (← Parser.current) then return .again (.field key value :: done)
    Parser.unexpected .entryEnd) []

/-- The expression of a template hole, which must be all that the hole holds. -/
def holeExpression (reach : Reach) (pos : Position) : Parser Expr := do
  Parser.skipNewlines
  if ← Parser.check .endOfInput then Parser.fail (.invalid pos .emptyHole)
  let expr ← reach .expression
  Parser.skipNewlines
  if ← Parser.check .endOfInput then return expr
  Parser.unexpected (.token (.mark .closeBrace))

/-- Read the source of a hole as a stream of its own and leave the outer stream as it was. -/
def hole (reach : Reach) (source : String) (pos : Position) : Parser Expr := fun outer =>
  match tokenizeAt source pos with
  | .error error => .error (.error (.lexical error))
  | .ok tokens =>
      match holeExpression reach pos (Stream.ofTokens tokens) with
      | .error failure => .error failure
      | .ok (expr, _) => .ok (expr, outer)

def templateParts (reach : Reach) : List TemplatePiece → Parser (List TemplatePart)
  | [] => return []
  | .text cooked :: rest => return .text cooked :: (← templateParts reach rest)
  | .hole source pos :: rest => do
      let expr ← hole reach source pos
      return .hole expr :: (← templateParts reach rest)

end Rill.Grammar

import Rill.Grammar.Statement

/-!
# Programs

The grammar as a whole. A goal is reached with a bound on the depth of goals inside goals; since
every step into a goal takes a token, and a template hole is shorter than its template, the length
of the text is bound enough.
-/

set_option autoImplicit false

namespace Rill

namespace Grammar

/-- What a goal reads, given a way to reach the goals inside it. -/
def read (reach : Reach) {α : Type} : Goal α → Parser α
  | .statement => statement reach
  | .conditional => conditional reach
  | .expression => expression reach
  | .operation power => operation reach power
  | .operand => operand reach
  | .pattern => pattern reach

/-- Reach a goal through at most `depth` levels of goals inside goals. -/
def reach : Nat → {α : Type} → Goal α → Parser α
  | 0, _, _ => Parser.exhausted
  | depth + 1, _, goal => read (fun inner => reach depth inner) goal

def statements (reach : Reach) : Parser (List Stmt) :=
  Parser.loop (fun done => do
    Parser.skipSeparators
    if ← Parser.check .endOfInput then return .done done.reverse
    let stmt ← reach .statement
    return .again (stmt :: done)) []

/-- A bound on the depth of goals inside goals in a token list. -/
def depthBound (tokens : List Token) : Nat :=
  tokens.foldl (fun bound token => bound + token.text.length + 1) 1

end Grammar

namespace Program

def ofTokens (tokens : List Token) (baseDir : String) : Except ParseError Program :=
  let stream := Stream.ofTokens tokens
  let depth := Grammar.depthBound tokens
  match Grammar.statements (fun goal => Grammar.reach depth goal) stream with
  | .ok (body, _) => .ok ⟨body, baseDir⟩
  | .error (.error error) => .error error
  | .error .exhausted => .error (.invalid stream.finish.pos .tooDeep)

def parse (text : String) (baseDir : String) : Except ParseError Program :=
  match tokenize text with
  | .error error => .error (.lexical error)
  | .ok tokens => ofTokens tokens baseDir

end Program

end Rill

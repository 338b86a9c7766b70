import Rill.Grammar.Error

/-!
# Token streams

A production of the grammar reads from a stream of tokens that never runs dry: past the last token
it shows the end of input again and again. Productions that repeat go round at most once for each
token of the stream, and one time more to notice the end.
-/

set_option autoImplicit false

namespace Rill

/-- The tokens still to be read, the token that marks the end of input, and a bound on how many
tokens are left. -/
structure Stream where
  ahead : List Token
  finish : Token
  size : Nat
  length_le : ahead.length ≤ size

namespace Stream

def ofList (tokens : List Token) (finish : Token) : Stream :=
  ⟨tokens, finish, tokens.length, Nat.le_refl _⟩

/-- The stream of a token list. A list that was cut short gets a mark for the end of input where
its last token stands. -/
def ofTokens (tokens : List Token) : Stream :=
  match tokens.getLast? with
  | none => ofList [] ⟨.endOfInput, "", .unknown⟩
  | some last =>
      if last.kind = .endOfInput then ofList tokens.dropLast last
      else ofList tokens ⟨.endOfInput, "", last.pos⟩

def current (stream : Stream) : Token := stream.ahead.head?.getD stream.finish

def peek (stream : Stream) : Token := stream.ahead.tail.head?.getD stream.finish

def pastNewlines (stream : Stream) : Token :=
  (stream.ahead.dropWhile (·.kind = .newline)).head?.getD stream.finish

def tail (stream : Stream) : Stream :=
  ⟨stream.ahead.tail, stream.finish, stream.size,
    Nat.le_trans (List.tail_sublist stream.ahead).length_le stream.length_le⟩

/-- The stream without the tokens at its front that satisfy `p`. -/
def dropWhile (p : Token → Bool) (stream : Stream) : Stream :=
  ⟨stream.ahead.dropWhile p, stream.finish, stream.size,
    Nat.le_trans (List.dropWhile_sublist p).length_le stream.length_le⟩

end Stream

/-- Why a production gave no result: an error in the text, or the bound on its depth ran out. -/
inductive ParseFailure where
  | error (error : ParseError)
  | exhausted

/-- Productions: functions from a stream to a result and the rest of the stream. -/
abbrev Parser := StateT Stream (Except ParseFailure)

namespace Parser

def exhausted {α : Type} : Parser α := fun _ => .error .exhausted

def fail {α : Type} (error : ParseError) : Parser α := fun _ => .error (.error error)

def current : Parser Token := fun stream => .ok (stream.current, stream)

def peek : Parser Token := fun stream => .ok (stream.peek, stream)

/-- The first token that is not a line feed, left in the stream. -/
def pastNewlines : Parser Token := fun stream => .ok (stream.pastNewlines, stream)

def advance : Parser Token := fun stream => .ok (stream.current, stream.tail)

def check (kind : TokenKind) : Parser Bool := return (← current).kind = kind

/-- Stop because something else was wanted in place of the next token. -/
def unexpected {α : Type} (wanted : Wanted) : Parser α := do fail (.expected wanted (← current))

/-- Take the next token if it is of a kind, and say whether it was. -/
def eat (kind : TokenKind) : Parser Bool := do
  if ← check kind then
    let _ ← advance
    return true
  else return false

def expect (kind : TokenKind) : Parser Token := do
  if ← check kind then advance else unexpected (.token kind)

def skipNewlines : Parser Unit := modify (·.dropWhile (·.kind = .newline))

def skipSeparators : Parser Unit :=
  modify (·.dropWhile fun token => token.kind = .newline || token.kind = .mark .semicolon)

def skipEntrySeparators : Parser Unit :=
  modify (·.dropWhile fun token =>
    token.kind = .newline || token.kind = .mark .semicolon || token.kind = .mark .comma)

def identifier : Parser String := do
  if ← check .ident then return (← advance).text else unexpected .identifier

/-- Whether a token can name a member: identifiers and keywords can, literals cannot. -/
def isMemberName (token : Token) : Bool :=
  match token.kind with
  | .text | .template _ => false
  | _ => (token.text.toList.head?.map isNameStart).getD false

def memberName : Parser String := do
  if isMemberName (← current) then return (← advance).text else unexpected .propertyName

inductive Round (β γ : Type) where
  | again (state : β)
  | done (result : γ)

/-- Go round until a round is the last, at most `bound` times. -/
def iterate {β γ : Type} (round : β → Parser (Round β γ)) : Nat → β → Parser γ
  | 0, _ => exhausted
  | bound + 1, state => do
      match ← round state with
      | .again next => iterate round bound next
      | .done result => return result

/-- Go round until a round is the last. Each round but the last takes a token. -/
def loop {β γ : Type} (round : β → Parser (Round β γ)) (state : β) : Parser γ :=
  fun stream => iterate round (stream.size + 1) state stream

/-- What follows an item of a list in brackets: another item after a comma, or the closing mark.
Line feeds may stand anywhere between. -/
def listed {α : Type} (close : Mark) (item : Parser α) : Parser (List α) :=
  loop (fun done => do
    skipNewlines
    if ← eat (.mark close) then return .done done.reverse
    let next ← item
    skipNewlines
    if ← eat (.mark .comma) then return .again (next :: done)
    skipNewlines
    let _ ← expect (.mark close)
    return .done (next :: done).reverse) []

end Parser

end Rill

import Rill.Token.Lexer

/-!
# Syntax errors

Reading a program stops at the first error: a lexical problem, a token other than the one that
the grammar wants, or a form that is well built but not allowed.
-/

set_option autoImplicit false

namespace Rill

inductive Wanted where
  | token (kind : TokenKind)
  | identifier
  | propertyName
  | expression
  | pattern
  | classMember
  | entryEnd
deriving DecidableEq

namespace Wanted

def describe : Wanted → String
  | token kind => "`" ++ kind.name ++ "`"
  | identifier => "identifier"
  | propertyName => "property name"
  | expression => "expression"
  | pattern => "pattern"
  | classMember => "field or method declaration"
  | entryEnd => "`,` or `\x7d`"

end Wanted

namespace Token

/-- The wording of a token that was found instead. -/
def describe (token : Token) : String :=
  match token.kind with
  | .ident | .number => "`" ++ token.text ++ "`"
  | .text => "string " ++ Text.quote token.text
  | .newline | .endOfInput => token.kind.name
  | kind => "`" ++ kind.name ++ "`"

end Token

inductive Misuse where
  | uninitialisedConstant (name : String)
  | bareTry
  | badTarget
  | emptyHole
  | malformedNumber (text : String)
  | tooDeep
deriving DecidableEq

namespace Misuse

def message : Misuse → String
  | uninitialisedConstant name => "constant `" ++ name ++ "` must be initialised"
  | bareTry => "`try` needs a `catch` or `finally` clause"
  | badTarget => "invalid assignment target"
  | emptyHole => "empty `$\x7b\x7d` in template string"
  | malformedNumber text => "malformed number `" ++ text ++ "`"
  | tooDeep => "program nests too deeply"

end Misuse

inductive ParseError where
  | lexical (error : LexError)
  | expected (wanted : Wanted) (found : Token)
  | invalid (pos : Position) (misuse : Misuse)
deriving DecidableEq

namespace ParseError

def pos : ParseError → Position
  | lexical error => error.pos
  | expected _ found => found.pos
  | invalid pos _ => pos

def message : ParseError → String
  | lexical error => error.reason.message
  | expected wanted found => "expected " ++ wanted.describe ++ ", found " ++ found.describe
  | invalid _ misuse => misuse.message

def render (error : ParseError) : String := error.pos.render ++ ": " ++ error.message

end ParseError

end Rill

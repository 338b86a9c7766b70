import Rill.Position
import Rill.Text.Quoted

/-!
# Tokens

The words and marks a source text is made of. Spelling variants of one keyword share a kind, and
the token keeps the spelling that was written. A template string is one token that holds its
literal pieces and the raw source of its holes.
-/

set_option autoImplicit false

namespace Rill

inductive Keyword where
  | let_ | const_ | func_ | return_ | if_ | else_ | while_ | for_ | in_ | break_ | continue_
  | class_ | extends_ | try_ | catch_ | finally_ | throw_ | import_ | as_ | true_ | false_ | nil_
  | match_ | case_ | super_
deriving DecidableEq

namespace Keyword

def name : Keyword → String
  | let_ => "let" | const_ => "const" | func_ => "func" | return_ => "return" | if_ => "if"
  | else_ => "else" | while_ => "while" | for_ => "for" | in_ => "in" | break_ => "break"
  | continue_ => "continue" | class_ => "class" | extends_ => "extends" | try_ => "try"
  | catch_ => "catch" | finally_ => "finally" | throw_ => "throw" | import_ => "import"
  | as_ => "as" | true_ => "true" | false_ => "false" | nil_ => "nil" | match_ => "match"
  | case_ => "case" | super_ => "super"

def spellings : List (String × Keyword) := [
  ("let", let_), ("var", let_), ("const", const_), ("func", func_), ("function", func_),
  ("return", return_), ("if", if_), ("else", else_), ("while", while_), ("for", for_),
  ("in", in_), ("break", break_), ("continue", continue_), ("class", class_), ("obj", class_),
  ("extends", extends_), ("try", try_), ("catch", catch_), ("finally", finally_),
  ("throw", throw_), ("import", import_), ("as", as_), ("true", true_), ("false", false_),
  ("nil", nil_), ("null", nil_), ("match", match_), ("case", case_), ("super", super_)]

def ofWord? (word : String) : Option Keyword := spellings.lookup word

end Keyword

inductive Mark where
  | plus | minus | star | slash | percent | assign | equal | notEqual | less | lessEqual | greater
  | greaterEqual | bang | andAnd | orOr | amp | pipe | caret | tilde | shiftLeft | shiftRight
  | pipeArrow | question | questionDot | questionQuestion | fatArrow | plusPlus | minusMinus
  | plusEq | minusEq | starEq | slashEq | percentEq | ellipsis | colon | dot | comma | semicolon
  | openParen | closeParen | openBracket | closeBracket | openBrace | closeBrace
deriving DecidableEq

namespace Mark

def spelling : Mark → String
  | plus => "+" | minus => "-" | star => "*" | slash => "/" | percent => "%" | assign => "="
  | equal => "==" | notEqual => "!=" | less => "<" | lessEqual => "<=" | greater => ">"
  | greaterEqual => ">=" | bang => "!" | andAnd => "&&" | orOr => "||" | amp => "&" | pipe => "|"
  | caret => "^" | tilde => "~" | shiftLeft => "<<" | shiftRight => ">>" | pipeArrow => "|>"
  | question => "?" | questionDot => "?." | questionQuestion => "??" | fatArrow => "=>"
  | plusPlus => "++" | minusMinus => "--" | plusEq => "+=" | minusEq => "-=" | starEq => "*="
  | slashEq => "/=" | percentEq => "%=" | ellipsis => "..." | colon => ":" | dot => "."
  | comma => "," | semicolon => ";" | openParen => "(" | closeParen => ")" | openBracket => "["
  | closeBracket => "]" | openBrace => "\x7b" | closeBrace => "\x7d"

end Mark

/-- One piece of a template string: literal text with its escapes already read, or the raw source
of a hole and the position of its first character. -/
inductive TemplatePiece where
  | text (cooked : String)
  | hole (source : String) (pos : Position)
deriving DecidableEq

namespace TemplatePiece

def listing : TemplatePiece → String
  | text cooked => "Text(" ++ Text.quote cooked ++ ")"
  | hole source pos =>
      "Hole \x7b source: " ++ Text.quote source ++ ", pos: " ++ pos.render ++ " \x7d"

end TemplatePiece

inductive TokenKind where
  | number
  | text
  | template (pieces : List TemplatePiece)
  | ident
  | keyword (word : Keyword)
  | mark (mark : Mark)
  | newline
  | endOfInput
deriving DecidableEq

namespace TokenKind

def name : TokenKind → String
  | number => "number"
  | text => "string"
  | template _ => "template string"
  | ident => "identifier"
  | keyword word => word.name
  | mark m => m.spelling
  | newline => "newline"
  | endOfInput => "end of input"

/-- Whether a token of this kind ends a statement without being part of it. -/
def isTerminator (kind : TokenKind) : Bool :=
  kind = newline || kind = mark .semicolon || kind = mark .closeBrace || kind = endOfInput

def listing : TokenKind → String
  | template pieces => "Template[" ++ ", ".intercalate (pieces.map TemplatePiece.listing) ++ "]"
  | newline => "Newline"
  | endOfInput => "Eof"
  | kind => kind.name

end TokenKind

/-- A token: its kind, its text and where it starts. The text is the source spelling, except that
a string literal keeps its contents with the escapes read. -/
structure Token where
  kind : TokenKind
  text : String
  pos : Position
deriving DecidableEq

namespace Token

/-- The line of a token listing: kind, quoted text and position. -/
def listing (token : Token) : String :=
  let text :=
    if token.kind = .newline ∨ token.kind = .endOfInput then ""
    else "(" ++ Text.quote token.text ++ ")"
  token.kind.listing ++ text ++ " @ " ++ token.pos.render

end Token

end Rill

import Rill.Number.Reading
import Rill.Text.Letter
import Rill.Text.Numeral
import Rill.Token

/-!
# Lexemes

A lexeme is the stretch of characters one token is read from. Readers work on the characters that
are left and count how many of them they cover; a problem says how far from the lexeme's first
character it arose. Positions are computed from these counts later, so that none can be wrong on
its own.
-/

set_option autoImplicit false

namespace Rill

inductive LexReason where
  | unterminatedText
  | unterminatedTemplate
  | unterminatedComment
  | invalidEscape (escape : String)
  | invalidNumber (text : String)
  | unexpectedChar (c : Char)
deriving DecidableEq

namespace LexReason

def message : LexReason → String
  | unterminatedText => "unterminated string literal"
  | unterminatedTemplate => "unterminated template string"
  | unterminatedComment => "unterminated block comment"
  | invalidEscape escape => "invalid escape sequence `\\" ++ escape ++ "`"
  | invalidNumber text => "malformed number `" ++ text ++ "`"
  | unexpectedChar c => "unexpected character `" ++ String.singleton c ++ "`"

end LexReason

/-- A problem `offset` characters after the place where reading began. -/
structure LexProblem where
  reason : LexReason
  offset : Nat

/-- A template piece whose hole is known by the count of characters before it. -/
inductive RawPiece where
  | text (cooked : String)
  | hole (source : String) (offset : Nat)

/-- What was read: a kind, and for a template its pieces. -/
inductive LexemeKind where
  | plain (kind : TokenKind)
  | template (pieces : List RawPiece)

/-- A token to be: its kind, its text and the number of characters it covers. -/
structure Lexeme where
  kind : LexemeKind
  text : String
  size : Nat
  size_pos : 0 < size

def isNameStart (c : Char) : Bool :=
  c = '_' || c = '$' ||
    (if c.toNat < 128 then c.isAlpha else Text.letters.holds c)

def isNamePart (c : Char) : Bool :=
  isNameStart c || (if c.toNat < 128 then c.isDigit else Text.numerals.holds c)

namespace Lexeme

def digitFirst : List Char → Bool
  | c :: _ => c.isDigit
  | [] => false

def digitCount (chars : List Char) : Nat := (chars.takeWhile Char.isDigit).length

/-- The number of characters of a fraction: a point counts only before a digit. -/
def fractionSize : List Char → Nat
  | '.' :: rest => if digitFirst rest then 1 + digitCount rest else 0
  | _ => 0

/-- The number of characters of an exponent, which needs at least one digit after its sign. -/
def exponentSize : List Char → Nat
  | c :: rest =>
      if c = 'e' ∨ c = 'E' then
        match rest with
        | s :: more =>
            if s = '+' ∨ s = '-' then
              if digitFirst more then 2 + digitCount more else 0
            else if s.isDigit then 1 + digitCount rest else 0
        | [] => 0
      else 0
  | [] => 0

def sizeOfDigits (chars : List Char) : Nat :=
  let whole := digitCount chars
  let fraction := fractionSize (chars.drop whole)
  whole + fraction + exponentSize (chars.drop (whole + fraction))

def signSize : List Char → Nat
  | c :: _ => if c = '+' ∨ c = '-' then 1 else 0
  | [] => 0

/-- Read a number whose first character is `c`, a sign or a digit. Letters directly after it spoil
it, and so does a text that is no number. -/
def number (c : Char) (rest : List Char) : Except LexProblem Lexeme :=
  let chars := c :: rest
  let sign := signSize chars
  let size := sign + sizeOfDigits (chars.drop sign)
  let tail := chars.drop size
  if (tail.head?.map isNameStart).getD false then
    let spoiled := size + (tail.takeWhile isNamePart).length
    .error ⟨.invalidNumber (String.ofList (chars.take spoiled)), 0⟩
  else
    let text := String.ofList (chars.take size)
    match Number.read text with
    | none => .error ⟨.invalidNumber text, 0⟩
    | some _ =>
        if size_pos : 0 < size then .ok ⟨.plain .number, text, size, size_pos⟩
        else .error ⟨.invalidNumber text, 0⟩

def word (c : Char) (rest : List Char) : Lexeme :=
  let tail := rest.takeWhile isNamePart
  let text := String.ofList (c :: tail)
  let kind := match Keyword.ofWord? text with
    | some keyword => .keyword keyword
    | none => .ident
  ⟨.plain kind, text, tail.length + 1, by omega⟩

def hexValue? (c : Char) : Option Nat :=
  if c.isDigit then some (c.toNat - '0'.toNat)
  else if 'a' ≤ c ∧ c ≤ 'f' then some (c.toNat - 'a'.toNat + 10)
  else if 'A' ≤ c ∧ c ≤ 'F' then some (c.toNat - 'A'.toNat + 10)
  else none

/-- Read an escape of `count` hexadecimal digits after its letter. The digits must all be there and
name a character. -/
def hexEscape (letter : Char) (count : Nat) (chars : List Char) : Except LexReason (Char × Nat) :=
  let digits := (chars.take count).takeWhile (fun c => (hexValue? c).isSome)
  let code := digits.foldl (fun value c => 16 * value + (hexValue? c).getD 0) 0
  if digits.length = count ∧ code.isValidChar then .ok (Char.ofNat code, count + 2)
  else .error (.invalidEscape (String.ofList (letter :: digits)))

/-- Read the escape whose backslash has just been passed: the character it stands for and the
number of characters it covers, backslash included. -/
def escape : List Char → Except LexReason (Char × Nat)
  | [] => .error (.invalidEscape "")
  | 'n' :: _ => .ok ('\n', 2)
  | 't' :: _ => .ok ('\t', 2)
  | 'r' :: _ => .ok ('\r', 2)
  | '0' :: _ => .ok ('\x00', 2)
  | 'x' :: rest => hexEscape 'x' 2 rest
  | 'u' :: rest => hexEscape 'u' 4 rest
  | 'U' :: rest => hexEscape 'U' 8 rest
  | c :: _ =>
      if c = '\\' ∨ c = '"' ∨ c = '\'' ∨ c = '`' ∨ c = '$' then .ok (c, 2)
      else .error (.invalidEscape (String.singleton c))

/-- Read string contents up to the closing quote. `offset` counts the characters already covered
and `cooked` holds the contents so far, last character first. -/
def contents (quote : Char) (offset : Nat) (cooked : List Char) (chars : List Char) :
    Except LexProblem (String × Nat) :=
  match chars with
  | [] => .error ⟨.unterminatedText, 0⟩
  | c :: rest =>
      if c = quote then .ok (String.ofList cooked.reverse, offset + 1)
      else if c = '\\' then
        match escape rest with
        | .error reason => .error ⟨reason, offset⟩
        | .ok (meant, size) =>
            contents quote (offset + size) (meant :: cooked) (rest.drop (size - 1))
      else contents quote (offset + 1) (c :: cooked) rest
termination_by chars.length
decreasing_by
  · simp only [List.length_drop, List.length_cons]; omega
  · simp only [List.length_cons]; omega

def quoted (quote : Char) (rest : List Char) : Except LexProblem Lexeme := do
  let (text, size) ← contents quote 1 [] rest
  return ⟨.plain .text, text, max size 1, by omega⟩

/-- Where a reader that skips over nested material stands: in a hole with so many open braces, in
a quoted string, or in a nested template. Each knows where its string or template began. -/
inductive Nesting where
  | hole (depth : Nat) (start : Nat)
  | quoted (quote : Char) (start : Nat)
  | template (start : Nat)
deriving DecidableEq

namespace Nesting

def unterminated : Nesting → LexProblem
  | hole _ start => ⟨.unterminatedTemplate, start⟩
  | quoted _ start => ⟨.unterminatedText, start⟩
  | template start => ⟨.unterminatedTemplate, start⟩

end Nesting

/-- Skip the nested material on the stack and return the count of characters at which the last
level closes. Strings and templates inside a hole are skipped whole, so that a brace inside them
does not close the hole. -/
def skip : List Nesting → Nat → List Char → Except LexProblem Nat
  | [], offset, _ => .ok offset
  | level :: _, _, [] => .error level.unterminated
  | .hole depth start :: outer, offset, c :: rest =>
      if c = '\x7b' then skip (.hole (depth + 1) start :: outer) (offset + 1) rest
      else if c = '\x7d' then
        if depth ≤ 1 then skip outer (offset + 1) rest
        else skip (.hole (depth - 1) start :: outer) (offset + 1) rest
      else if c = '"' ∨ c = '\'' then
        skip (.quoted c offset :: .hole depth start :: outer) (offset + 1) rest
      else if c = '`' then
        skip (.template offset :: .hole depth start :: outer) (offset + 1) rest
      else skip (.hole depth start :: outer) (offset + 1) rest
  | .quoted quote start :: outer, offset, '\\' :: _ :: rest =>
      skip (.quoted quote start :: outer) (offset + 2) rest
  | .quoted quote start :: outer, offset, c :: rest =>
      if c = quote then skip outer (offset + 1) rest
      else skip (.quoted quote start :: outer) (offset + 1) rest
  | .template start :: outer, offset, '\\' :: _ :: rest =>
      skip (.template start :: outer) (offset + 2) rest
  | .template start :: outer, offset, '$' :: '\x7b' :: rest =>
      skip (.hole 1 start :: .template start :: outer) (offset + 2) rest
  | .template start :: outer, offset, c :: rest =>
      if c = '`' then skip outer (offset + 1) rest
      else skip (.template start :: outer) (offset + 1) rest

/-- The literal text gathered so far as a piece, unless it is empty. -/
def flush (cooked : List Char) : List RawPiece :=
  if cooked.isEmpty then [] else [.text (String.ofList cooked.reverse)]

/-- Read template pieces up to the closing backtick. `offset` counts the characters already
covered, `cooked` holds the literal text since the last hole and `done` the pieces before it, last
one first. -/
def pieces (offset : Nat) (cooked : List Char) (done : List RawPiece) (chars : List Char) :
    Except LexProblem (List RawPiece × Nat) :=
  match chars with
  | [] => .error ⟨.unterminatedTemplate, 0⟩
  | '`' :: _ => .ok ((flush cooked ++ done).reverse, offset + 1)
  | '\\' :: rest =>
      match escape rest with
      | .error reason => .error ⟨reason, offset⟩
      | .ok (meant, size) =>
          pieces (offset + size) (meant :: cooked) done (rest.drop (size - 1))
  | '$' :: '\x7b' :: rest =>
      match skip [.hole 1 0] (offset + 2) rest with
      | .error problem => .error problem
      | .ok finish =>
          let covered := finish - (offset + 2)
          let source := String.ofList (rest.take (covered - 1))
          pieces finish [] (.hole source (offset + 2) :: (flush cooked ++ done))
            (rest.drop covered)
  | c :: rest => pieces (offset + 1) (c :: cooked) done rest
termination_by chars.length
decreasing_by
  · simp only [List.length_drop, List.length_cons]; omega
  · simp only [List.length_drop, List.length_cons]; omega
  · simp only [List.length_cons]; omega

def template (rest : List Char) : Except LexProblem Lexeme := do
  let (found, size) ← pieces 1 [] [] rest
  return ⟨.template found, String.ofList ('`' :: rest.take (size - 1)), max size 1, by omega⟩

/-- The mark at the front, the longest that fits. A question mark and a point are two marks when a
digit follows. -/
def mark? : List Char → Option Mark
  | '.' :: '.' :: '.' :: _ => some .ellipsis
  | '.' :: _ => some .dot
  | '?' :: '.' :: rest => if digitFirst rest then some .question else some .questionDot
  | '?' :: '?' :: _ => some .questionQuestion
  | '?' :: _ => some .question
  | '=' :: '>' :: _ => some .fatArrow
  | '=' :: '=' :: _ => some .equal
  | '=' :: _ => some .assign
  | '!' :: '=' :: _ => some .notEqual
  | '!' :: _ => some .bang
  | '<' :: '=' :: _ => some .lessEqual
  | '<' :: '<' :: _ => some .shiftLeft
  | '<' :: _ => some .less
  | '>' :: '=' :: _ => some .greaterEqual
  | '>' :: '>' :: _ => some .shiftRight
  | '>' :: _ => some .greater
  | '+' :: '+' :: _ => some .plusPlus
  | '+' :: '=' :: _ => some .plusEq
  | '+' :: _ => some .plus
  | '-' :: '-' :: _ => some .minusMinus
  | '-' :: '=' :: _ => some .minusEq
  | '-' :: _ => some .minus
  | '*' :: '=' :: _ => some .starEq
  | '*' :: _ => some .star
  | '/' :: '=' :: _ => some .slashEq
  | '/' :: _ => some .slash
  | '%' :: '=' :: _ => some .percentEq
  | '%' :: _ => some .percent
  | '&' :: '&' :: _ => some .andAnd
  | '&' :: _ => some .amp
  | '|' :: '|' :: _ => some .orOr
  | '|' :: '>' :: _ => some .pipeArrow
  | '|' :: _ => some .pipe
  | '^' :: _ => some .caret
  | '~' :: _ => some .tilde
  | ':' :: _ => some .colon
  | ',' :: _ => some .comma
  | ';' :: _ => some .semicolon
  | '(' :: _ => some .openParen
  | ')' :: _ => some .closeParen
  | '[' :: _ => some .openBracket
  | ']' :: _ => some .closeBracket
  | '\x7b' :: _ => some .openBrace
  | '\x7d' :: _ => some .closeBrace
  | _ => none

def marked (c : Char) (rest : List Char) : Except LexProblem Lexeme :=
  match mark? (c :: rest) with
  | some m => .ok ⟨.plain (.mark m), m.spelling, max m.spelling.length 1, by omega⟩
  | none => .error ⟨.unexpectedChar c, 0⟩

/-- The characters after which a sign directly before a digit belongs to the number. -/
def signContext : List Char := ['(', ',', '[', '=', ':']

/-- Whether a sign before `rest` starts a number, when `last` is the nearest character before it
that is neither a space nor a tab. -/
def signed (last : Option Char) (rest : List Char) : Bool :=
  digitFirst rest && (last.map signContext.contains).getD false

def read (last : Option Char) (c : Char) (rest : List Char) : Except LexProblem Lexeme :=
  if c = '\n' then .ok ⟨.plain .newline, "\n", 1, by omega⟩
  else if c = '"' ∨ c = '\'' then quoted c rest
  else if c = '`' then template rest
  else if c.isDigit then number c rest
  else if (c = '+' ∨ c = '-') ∧ signed last rest then number c rest
  else if isNameStart c then .ok (word c rest)
  else marked c rest

end Lexeme

end Rill

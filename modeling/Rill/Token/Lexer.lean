import Rill.Token.Lexeme

/-!
# From source text to tokens

The lexer passes over blanks and comments, reads a lexeme, and goes on with the characters the
lexeme does not cover. Line feeds are tokens of their own because they separate statements.
Reading stops at the first problem; the tokens before it are kept.
-/

set_option autoImplicit false

namespace Rill

structure LexError where
  reason : LexReason
  pos : Position
deriving DecidableEq

namespace LexError

def message (error : LexError) : String :=
  error.pos.render ++ ": " ++ error.reason.message

end LexError

namespace Trivia

/-- The count of characters up to and including the end of a block comment. -/
def blockEnd (offset : Nat) : List Char → Option Nat
  | '*' :: '/' :: _ => some (offset + 2)
  | _ :: rest => blockEnd (offset + 1) rest
  | [] => none

end Trivia

/-- The characters still to be read, the position of the first of them, and the nearest character
already read that is neither a space nor a tab. -/
structure Cursor where
  rest : List Char
  pos : Position
  last : Option Char

namespace Cursor

/-- The cursor at the start of a text that is taken to begin at `pos`. -/
def start (text : String) (pos : Position) : Cursor := ⟨text.toList, pos.clamp, none⟩

/-- The last character of a run that is neither a space nor a tab, or else `last`. -/
def lastInk (last : Option Char) (chars : List Char) : Option Char :=
  chars.foldl (fun last c => if c = ' ' ∨ c = '\t' then last else some c) last

def bump (cursor : Cursor) (tally : Tally := .exact) : Cursor :=
  match cursor.rest with
  | [] => cursor
  | c :: rest => ⟨rest, cursor.pos.step c tally, lastInk cursor.last [c]⟩

def advance (cursor : Cursor) (count : Nat) (tally : Tally := .exact) : Cursor :=
  match count with
  | 0 => cursor
  | count + 1 => (cursor.bump tally).advance count tally

def leap (cursor : Cursor) (count : Nat) (tally : Tally := .exact) : Cursor where
  rest := cursor.rest.drop count
  pos := cursor.pos.leap (cursor.rest.take count) tally
  last := lastInk cursor.last (cursor.rest.take count)

theorem rest_bump (cursor : Cursor) (tally : Tally) : (cursor.bump tally).rest = cursor.rest.drop 1 := by
  unfold bump
  split
  · next all => rw [all, List.drop_nil]
  · next front => rw [front, List.drop_one, List.tail_cons]

@[simp] theorem rest_advance (cursor : Cursor) (count : Nat) (tally : Tally) :
    (cursor.advance count tally).rest = cursor.rest.drop count := by
  induction count generalizing cursor with
  | zero => rfl
  | succ count ih => rw [advance, ih, rest_bump, List.drop_drop, Nat.add_comm]

theorem length_leap (cursor : Cursor) (count : Nat) (tally : Tally) :
    (cursor.leap count tally).rest.length = cursor.rest.length - count := List.length_drop

theorem length_bump (cursor : Cursor) (tally : Tally) :
    (cursor.bump tally).rest.length = cursor.rest.length - 1 := by
  rw [rest_bump, List.length_drop]

theorem length_advance (cursor : Cursor) (count : Nat) (tally : Tally) :
    (cursor.advance count tally).rest.length = cursor.rest.length - count := by
  rw [rest_advance, List.length_drop]

abbrev Ahead (cursor : Cursor) := { here : Cursor // here.rest.length ≤ cursor.rest.length }

def Ahead.since {cursor next : Cursor} (fewer : next.rest.length ≤ cursor.rest.length)
    (here : next.Ahead) : cursor.Ahead := ⟨here.1, Nat.le_trans here.2 fewer⟩

def skipTrivia (cursor : Cursor) (tally : Tally := .exact) : Except LexError cursor.Ahead :=
  match _front : cursor.rest with
  | '/' :: '/' :: _ =>
      ((cursor.leap (cursor.rest.takeWhile (· ≠ '\n')).length tally).skipTrivia tally).map
        (.since (by rw [length_leap]; exact Nat.sub_le _ _))
  | '/' :: '*' :: rest =>
      match Trivia.blockEnd 0 rest with
      | none => .error ⟨.unterminatedComment, cursor.pos⟩
      | some count =>
          (((cursor.advance 2 tally).leap count tally).skipTrivia tally).map
            (.since (by rw [length_leap, length_advance]; omega))
  | c :: _ =>
      if c = ' ' ∨ c = '\t' ∨ c = '\r' then
        ((cursor.bump tally).skipTrivia tally).map
          (.since (by rw [length_bump]; exact Nat.sub_le _ _))
      else .ok ⟨cursor, Nat.le_refl _⟩
  | [] => .ok ⟨cursor, Nat.le_refl _⟩
termination_by cursor.rest.length
decreasing_by
  · have slash : 0 < (cursor.rest.takeWhile (· ≠ '\n')).length := by simp [_front]
    have more : 0 < cursor.rest.length := by simp [_front]
    rw [length_leap]
    omega
  · rw [length_leap, length_advance, _front, List.length_cons, List.length_cons]
    omega
  · rw [length_bump, _front, List.length_cons]
    omega

def problem (cursor : Cursor) (p : LexProblem) (tally : Tally := .exact) : LexError :=
  ⟨p.reason, (cursor.advance p.offset tally).pos⟩

def piece (cursor : Cursor) (raw : RawPiece) (tally : Tally := .exact) : TemplatePiece :=
  match raw with
  | .text cooked => .text cooked
  | .hole source offset => .hole source (cursor.advance offset tally).pos

def token (cursor : Cursor) (lexeme : Lexeme) (tally : Tally := .exact) : Token where
  kind := match lexeme.kind with
    | .plain kind => kind
    | .template pieces => .template (pieces.map (cursor.piece · tally))
  text := lexeme.text
  pos := cursor.pos

end Cursor

/-- The tokens of a text, up to the end or up to the first problem. -/
structure Lexed where
  tokens : List Token
  error : Option LexError

namespace Lexed

/-- Read tokens from the cursor on; `done` holds those already read, last one first. -/
def scan (cursor : Cursor) (done : List Token) (tally : Tally := .exact) : Lexed :=
  match cursor.skipTrivia tally with
  | .error error => ⟨done.reverse, some error⟩
  | .ok ⟨here, _fewer⟩ =>
      match _front : here.rest with
      | [] => ⟨(⟨.endOfInput, "", here.pos⟩ :: done).reverse, none⟩
      | c :: rest =>
          match Lexeme.read here.last c rest with
          | .error p => ⟨done.reverse, some (here.problem p tally)⟩
          | .ok lexeme =>
              scan (here.advance lexeme.size tally) (here.token lexeme tally :: done) tally
termination_by cursor.rest.length
decreasing_by
  have more := lexeme.size_pos
  have left : here.rest.length = rest.length + 1 := by rw [_front, List.length_cons]
  rw [Cursor.length_advance]
  omega

def toExcept (lexed : Lexed) : Except LexError (List Token) :=
  match lexed.error with
  | some error => .error error
  | none => .ok lexed.tokens

end Lexed

def lexAt (text : String) (pos : Position) (tally : Tally := .exact) : Lexed :=
  Lexed.scan (Cursor.start text pos) [] tally

/-- All tokens of a text that is taken to begin at `pos`. The last one marks the end of input. -/
def tokenizeAt (text : String) (pos : Position) (tally : Tally := .exact) :
    Except LexError (List Token) :=
  (lexAt text pos tally).toExcept

def tokenize (text : String) : Except LexError (List Token) := tokenizeAt text .start

end Rill

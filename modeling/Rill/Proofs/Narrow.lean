import Rill.Proofs.Scanning

/-!
# Counting in 32 bits

A lexer that counts lines and columns in 32 bits takes the same steps as one that counts them as they
are. Of the positions it keeps what is left modulo `UInt32.size`, whether it counts characters one by
one or many at once, for any text that is shorter than that.
-/

set_option autoImplicit false

namespace Rill

namespace Position

variable (pos : Position)

def narrow : Position := ⟨pos.line % UInt32.size, pos.column % UInt32.size⟩

def Fits : Prop := pos.line < UInt32.size ∧ pos.column < UInt32.size

variable {pos}

theorem Fits.narrow (fits : pos.Fits) : pos.narrow = pos := by
  rw [Position.narrow, Nat.mod_eq_of_lt fits.1, Nat.mod_eq_of_lt fits.2]

theorem Fits.clamp (fits : pos.Fits) : pos.clamp.Fits :=
  have one : 1 < UInt32.size := by decide
  ⟨Nat.max_lt.mpr ⟨fits.1, one⟩, Nat.max_lt.mpr ⟨fits.2, one⟩⟩

variable (pos)

theorem step_narrow (c : Char) : pos.narrow.step c .narrow = (pos.step c).narrow := by
  have sum : ∀ count, Tally.narrow.add (count % UInt32.size) 1 = (count + 1) % UInt32.size := fun count => by
    rw [Tally.narrow_add _ (by decide), Nat.mod_add_mod]
  unfold step
  split
  · simp only [narrow, sum, Tally.exact_add, Nat.mod_eq_of_lt (show 1 < UInt32.size by decide)]
  · simp only [narrow, sum, Tally.exact_add]

theorem after_narrow (chars : List Char) :
    pos.narrow.after chars .narrow = (pos.after chars).narrow := by
  induction chars generalizing pos with
  | nil => rfl
  | cons c rest ih => rw [after_cons, step_narrow, ih, after_cons]

end Position

/-! ## Tokens elsewhere -/

def TemplatePiece.relocate (f : Position → Position) : TemplatePiece → TemplatePiece
  | .text cooked => .text cooked
  | .hole source pos => .hole source (f pos)

def TokenKind.relocate (f : Position → Position) : TokenKind → TokenKind
  | .template pieces => .template (pieces.map (TemplatePiece.relocate f))
  | kind => kind

def Token.relocate (f : Position → Position) (token : Token) : Token :=
  ⟨token.kind.relocate f, token.text, f token.pos⟩

def LexError.relocate (f : Position → Position) (error : LexError) : LexError :=
  ⟨error.reason, f error.pos⟩

def Lexed.relocate (f : Position → Position) (lexed : Lexed) : Lexed :=
  ⟨lexed.tokens.map (Token.relocate f), lexed.error.map (LexError.relocate f)⟩

namespace Cursor

variable (cursor : Cursor)

def narrow : Cursor := { cursor with pos := cursor.pos.narrow }

theorem advance_narrow (count : Nat) :
    cursor.narrow.advance count .narrow = (cursor.advance count).narrow := by
  rw [advance_eq, advance_eq, narrow, Position.after_narrow]
  rfl

theorem rest_advance_narrow (count : Nat) :
    (cursor.narrow.advance count .narrow).rest = (cursor.advance count).rest := by
  rw [advance_narrow]
  rfl

theorem last_advance_narrow (count : Nat) :
    (cursor.narrow.advance count .narrow).last = (cursor.advance count).last := by
  rw [advance_narrow]
  rfl

theorem problem_narrow (p : LexProblem) :
    cursor.narrow.problem p .narrow = (cursor.problem p).relocate Position.narrow := by
  rw [problem, advance_narrow]
  rfl

theorem token_narrow {lexeme : Lexeme} (form : lexeme.Form) :
    cursor.narrow.token lexeme .narrow = (cursor.token lexeme).relocate Position.narrow := by
  cases form with
  | feed kind _ | text kind | number kind _ | mark kind _ =>
      simp only [token, Token.relocate, kind]
      rfl
  | word _ rest =>
      simp only [token, Token.relocate, Lexeme.word]
      split <;> rfl
  | @template _ found kind _ =>
      have same : found.map (cursor.narrow.piece · .narrow)
          = (found.map (cursor.piece ·)).map (TemplatePiece.relocate Position.narrow) := by
        rw [List.map_map]
        refine List.map_congr_left fun raw _ => ?_
        cases raw with
        | text cooked => rfl
        | hole source offset =>
            show TemplatePiece.hole source (cursor.narrow.advance offset .narrow).pos = _
            rw [advance_narrow]
            rfl
      simp only [token, Token.relocate, kind, same]
      rfl

end Cursor

theorem Lexed.scan_narrow (cursor : Cursor) (done : List Token)
    (small : cursor.rest.length < UInt32.size) :
    scan cursor.narrow (done.map (Token.relocate Position.narrow)) .narrow
      = (scan cursor done).relocate Position.narrow := by
  have sums : ∀ {cursor : Cursor}, cursor.rest.length < UInt32.size →
      Tally.narrow.Sums cursor.narrow.rest.length := Tally.narrow_sums
  induction cursor, done using scan_induction with
  | unclosed cursor done problem blanks =>
      have blanks' : Trivia.size 0 cursor.narrow.rest = .error problem := blanks
      rw [scan_unclosed blanks, scan_unclosed blanks' _ (sums small)]
      simp [relocate, Cursor.problem_narrow]
  | finish cursor done blank blanks all =>
      have blanks' : Trivia.size 0 cursor.narrow.rest = .ok blank := blanks
      have all' := (cursor.rest_advance_narrow blank).trans all
      rw [scan_end blanks all, scan_end blanks' all' _ (sums small), Cursor.advance_narrow]
      simp [relocate, Token.relocate, TokenKind.relocate, Cursor.narrow]
  | unread cursor done blank c rest problem blanks front read =>
      have blanks' : Trivia.size 0 cursor.narrow.rest = .ok blank := blanks
      have front' := (cursor.rest_advance_narrow blank).trans front
      rw [scan_unread blanks front read]
      rw [← cursor.last_advance_narrow] at read
      rw [scan_unread blanks' front' read _ (sums small), Cursor.advance_narrow]
      simp [relocate, Cursor.problem_narrow]
  | token cursor done blank c rest lexeme blanks front read ih =>
      have blanks' : Trivia.size 0 cursor.narrow.rest = .ok blank := blanks
      have front' := (cursor.rest_advance_narrow blank).trans front
      have left : ((cursor.advance blank).advance lexeme.size).rest.length < UInt32.size := by
        rw [Cursor.length_advance, Cursor.length_advance]
        omega
      rw [scan_token blanks front read]
      rw [← cursor.last_advance_narrow] at read
      rw [scan_token blanks' front' read _ (sums small), Cursor.advance_narrow,
        Cursor.advance_narrow, Cursor.token_narrow _ (Lexeme.read_form read).2, ← List.map_cons]
      exact ih left

theorem lexAt_narrow {text : String} {pos : Position} (small : text.length < UInt32.size)
    (fits : pos.Fits) : lexAt text pos .narrow = (lexAt text pos).relocate Position.narrow := by
  have start : Cursor.start text pos = (Cursor.start text pos).narrow := by
    rw [Cursor.narrow, Cursor.start, fits.clamp.narrow]
  rw [lexAt, start]
  exact Lexed.scan_narrow _ [] (by rwa [Cursor.start, String.length_toList])

end Rill

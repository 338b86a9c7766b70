import Rill.Proofs.Lexing

/-!
# Texts one after another

The tokens of a text as a judgement on cursors, so that a proof can follow the lexer token by token:
a text further down gives the same tokens further down, and a text with a line feed and more text
after it gives its own tokens first.
-/

set_option autoImplicit false

namespace Rill

namespace Position

def below (lines : Nat) (pos : Position) : Position := ⟨pos.line + lines, pos.column⟩

def Placed (pos : Position) : Prop := 1 ≤ pos.line ∧ 1 ≤ pos.column

theorem below_zero : below 0 = id := rfl

theorem step_below (lines : Nat) (pos : Position) (c : Char) :
    (pos.below lines).step c = (pos.step c).below lines := by
  unfold step
  split
  · simp only [below, Tally.exact_add, Nat.add_right_comm]
  · rfl

theorem after_below (lines : Nat) (pos : Position) (chars : List Char) :
    (pos.below lines).after chars = (pos.after chars).below lines := by
  induction chars generalizing pos with
  | nil => rfl
  | cons c rest ih => rw [after_cons, after_cons, step_below, ih]

theorem line_after (pos : Position) (chars : List Char) :
    (pos.after chars).line = pos.line + chars.count '\n' := by
  induction chars generalizing pos with
  | nil => rfl
  | cons c rest ih =>
      rw [after_cons, ih, step, List.count_cons]
      split
      · next feed => simp [feed]; omega
      · next plain => simp [plain]

theorem Placed.step {pos : Position} (placed : pos.Placed) (c : Char) : (pos.step c).Placed := by
  unfold Position.step
  split
  · exact ⟨by simp, Nat.le_refl 1⟩
  · exact ⟨placed.1, by simp⟩

theorem Placed.after {pos : Position} (placed : pos.Placed) (chars : List Char) :
    (pos.after chars).Placed := by
  induction chars generalizing pos with
  | nil => exact placed
  | cons c rest ih => exact ih (placed.step c)

theorem Placed.clamp {pos : Position} (placed : pos.Placed) : pos.clamp = pos := by
  rw [Position.clamp, Nat.max_eq_left placed.1, Nat.max_eq_left placed.2]

theorem clamp_placed (pos : Position) : pos.clamp.Placed :=
  ⟨Nat.le_max_right _ _, Nat.le_max_right _ _⟩

theorem Placed.below {pos : Position} (placed : pos.Placed) (lines : Nat) :
    (pos.below lines).Placed := ⟨Nat.le_add_right_of_le placed.1, placed.2⟩

end Position

namespace TemplatePiece

/-- The piece as it is in a text so many lines further down. -/
def below (lines : Nat) : TemplatePiece → TemplatePiece
  | text cooked => text cooked
  | hole source pos => hole source (pos.below lines)

end TemplatePiece

namespace TokenKind

def below (lines : Nat) : TokenKind → TokenKind
  | template pieces => template (pieces.map (TemplatePiece.below lines))
  | kind => kind

end TokenKind

namespace Token

/-- The token as it is in a text so many lines further down. -/
def below (lines : Nat) (token : Token) : Token :=
  ⟨token.kind.below lines, token.text, token.pos.below lines⟩

theorem below_zero : below 0 = id := by
  have piece : TemplatePiece.below 0 = id := funext fun piece => by cases piece <;> rfl
  funext ⟨kind, text, pos⟩
  cases kind with
  | template pieces => simp [below, TokenKind.below, piece, Position.below_zero]
  | _ => rfl

/-- A token that is read from a text, at a place in it. -/
def Genuine (token : Token) : Prop :=
  ∃ (cursor : Cursor) (last : Option Char) (c : Char) (rest : List Char) (lexeme : Lexeme),
    Lexeme.read last c rest = .ok lexeme ∧ cursor.pos.Placed ∧ token = cursor.token lexeme

end Token

theorem Position.Placed.advance {cursor : Cursor} (placed : cursor.pos.Placed) (count : Nat) :
    (cursor.advance count).pos.Placed := by
  rw [Cursor.pos_advance]
  exact placed.after _

namespace Cursor

def extend (cursor : Cursor) (more : List Char) : Cursor :=
  { cursor with rest := cursor.rest ++ more }

def finish (cursor : Cursor) : Position := cursor.pos.after cursor.rest

theorem extend_advance (cursor : Cursor) {count : Nat} (inside : count ≤ cursor.rest.length)
    (more : List Char) : (cursor.extend more).advance count = (cursor.advance count).extend more := by
  simp only [extend, advance_eq, List.drop_append_of_le_length inside,
    List.take_append_of_le_length inside]

theorem finish_advance (cursor : Cursor) (count : Nat) :
    (cursor.advance count).finish = cursor.finish := by
  rw [finish, pos_advance, rest_advance, ← Position.after_append, List.take_append_drop, finish]

theorem token_extend (cursor : Cursor) (lexeme : Lexeme) (more : List Char)
    (inside : lexeme.size ≤ cursor.rest.length) (form : lexeme.Form) :
    (cursor.extend more).token lexeme = cursor.token lexeme := by
  cases form with
  | feed kind _ | text kind | number kind _ | mark kind _ => simp only [token, kind, extend]
  | word _ rest => rfl
  | @template _ found kind holes =>
      have same : found.map ((cursor.extend more).piece ·) = found.map (cursor.piece ·) := by
        refine List.map_congr_left fun piece member => ?_
        cases piece with
        | text cooked => rfl
        | hole source offset =>
            have early : offset ≤ cursor.rest.length :=
              Nat.le_trans (holes source offset member) inside
            simp only [piece, extend_advance cursor early]
            rfl
      simp only [token, kind, same]
      rfl

theorem kind_token (cursor : Cursor) {lexeme : Lexeme} (form : lexeme.Form) :
    (cursor.token lexeme).kind ≠ .endOfInput := by
  cases form with
  | feed kind _ | text kind | template kind _ | number kind _ | mark kind _ => simp [token, kind]
  | word starts rest =>
      simp only [token, Lexeme.word]
      split <;> simp

theorem plain_of_kind_token (cursor : Cursor) {lexeme : Lexeme}
    (kind : (cursor.token lexeme).kind = .number) : lexeme.kind = .plain .number := by
  cases sort : lexeme.kind with
  | plain sort' =>
      simp only [token, sort] at kind
      rw [kind]
  | template pieces =>
      simp only [token, sort] at kind
      cases kind

/-- Two cursors at the same text, one so many lines further down than the other, that agree
whether a sign belongs to the number after it. -/
structure Below (lines : Nat) (upper lower : Cursor) : Prop where
  rest : lower.rest = upper.rest
  pos : lower.pos = upper.pos.below lines
  sign : ∀ rest, Lexeme.signed lower.last rest = Lexeme.signed upper.last rest

namespace Below

variable {lines : Nat} {upper lower : Cursor}

theorem signed_congr {last last' : Option Char}
    (same : ∀ rest, Lexeme.signed last' rest = Lexeme.signed last rest) (c : Char) :
    ∀ rest, Lexeme.signed (lastInk last' [c]) rest = Lexeme.signed (lastInk last [c]) rest := by
  intro rest
  simp only [lastInk, List.foldl_cons, List.foldl_nil]
  split
  · exact same rest
  · rfl

theorem signed_lastInk {last last' : Option Char} (chars : List Char)
    (same : ∀ rest, Lexeme.signed last' rest = Lexeme.signed last rest) :
    ∀ rest, Lexeme.signed (lastInk last' chars) rest = Lexeme.signed (lastInk last chars) rest := by
  induction chars generalizing last last' with
  | nil => exact same
  | cons c tail ih => exact ih (signed_congr same c)

theorem advance (below : Below lines upper lower) (count : Nat) :
    Below lines (upper.advance count) (lower.advance count) where
  rest := by rw [rest_advance, rest_advance, below.rest]
  pos := by
    rw [pos_advance, pos_advance, below.pos, below.rest, Position.after_below]
  sign := by
    rw [last_advance, last_advance, below.rest]
    exact signed_lastInk _ below.sign

theorem read (below : Below lines upper lower) (c : Char) (rest : List Char) :
    Lexeme.read lower.last c rest = Lexeme.read upper.last c rest := by
  unfold Lexeme.read
  rw [below.sign]

theorem token (below : Below lines upper lower) {lexeme : Lexeme} (form : lexeme.Form) :
    lower.token lexeme = (upper.token lexeme).below lines := by
  cases form with
  | feed kind _ | text kind | number kind _ | mark kind _ =>
      simp only [Cursor.token, Token.below, kind, below.pos]
      rfl
  | word _ rest =>
      simp only [Cursor.token, Token.below, Lexeme.word, below.pos]
      split <;> rfl
  | @template _ found kind _ =>
      have same : found.map (lower.piece ·)
          = (found.map (upper.piece ·)).map (TemplatePiece.below lines) := by
        rw [List.map_map]
        refine List.map_congr_left fun piece _ => ?_
        cases piece with
        | text cooked => rfl
        | hole source offset =>
            show TemplatePiece.hole source (lower.advance offset).pos = _
            rw [(below.advance offset).pos]
            rfl
      simp only [Cursor.token, Token.below, kind, below.pos, same]
      rfl

end Below

end Cursor

/-- The tokens from the cursor to the end of the text, the last of which marks that end. -/
inductive Scans : Cursor → List Token → Prop
  | finish {cursor : Cursor} {blank : Nat} (blanks : Trivia.size 0 cursor.rest = .ok blank)
      (all : (cursor.advance blank).rest = []) :
      Scans cursor [⟨.endOfInput, "", (cursor.advance blank).pos⟩]
  | token {cursor : Cursor} {blank : Nat} {c : Char} {rest : List Char} {lexeme : Lexeme}
      {tokens : List Token} (blanks : Trivia.size 0 cursor.rest = .ok blank)
      (front : (cursor.advance blank).rest = c :: rest)
      (read : Lexeme.read (cursor.advance blank).last c rest = .ok lexeme)
      (later : Scans ((cursor.advance blank).advance lexeme.size) tokens) :
      Scans cursor ((cursor.advance blank).token lexeme :: tokens)

namespace Scans

theorem scan {cursor : Cursor} {tokens : List Token} (scans : Scans cursor tokens)
    (before : List Token) : Lexed.scan cursor before = ⟨before.reverse ++ tokens, none⟩ := by
  induction scans generalizing before with
  | finish blanks all => rw [Lexed.scan_end blanks all, List.reverse_cons]
  | token blanks front read later ih =>
      rw [Lexed.scan_token blanks front read, ih, List.reverse_cons, List.append_assoc]
      rfl

theorem of_scan {cursor : Cursor} {before tokens : List Token}
    (done : Lexed.scan cursor before = ⟨tokens, none⟩) :
    ∃ found, tokens = before.reverse ++ found ∧ Scans cursor found := by
  induction cursor, before using Lexed.scan_induction with
  | unclosed cursor before problem blanks =>
      rw [Lexed.scan_unclosed blanks] at done
      cases done
  | finish cursor before blank blanks all =>
      rw [Lexed.scan_end blanks all] at done
      cases done
      exact ⟨_, by rw [List.reverse_cons], .finish blanks all⟩
  | unread cursor before blank c rest problem blanks front read =>
      rw [Lexed.scan_unread blanks front read] at done
      cases done
  | token cursor before blank c rest lexeme blanks front read ih =>
      rw [Lexed.scan_token blanks front read] at done
      obtain ⟨found, same, scans⟩ := ih done
      refine ⟨_, ?_, .token blanks front read scans⟩
      rw [same, List.reverse_cons, List.append_assoc]
      rfl

theorem tokenizeAt_eq_ok {text : String} {pos : Position} {tokens : List Token} :
    tokenizeAt text pos = .ok tokens ↔ Scans (Cursor.start text pos) tokens := by
  constructor
  · intro done
    cases lexed : lexAt text pos with
    | mk found error =>
        rw [tokenizeAt, lexed] at done
        cases error with
        | some error => exact nomatch done
        | none =>
            cases done
            obtain ⟨found, same, scans⟩ := of_scan lexed
            exact same ▸ scans
  · intro scans
    rw [tokenizeAt, lexAt, scans.scan]
    rfl

theorem lower {lines : Nat} {upper lower : Cursor} {tokens : List Token}
    (scans : Scans upper tokens) (below : Cursor.Below lines upper lower) :
    Scans lower (tokens.map (Token.below lines)) := by
  induction scans generalizing lower with
  | @finish upper blank blanks all =>
      have here := below.advance blank
      have mark := finish (below.rest ▸ blanks) (here.rest ▸ all)
      rw [here.pos] at mark
      exact mark
  | @token upper blank c rest lexeme tokens blanks front read later ih =>
      have here := below.advance blank
      rw [List.map_cons, ← here.token (Lexeme.read_form read).2]
      exact token (below.rest ▸ blanks) (here.rest ▸ front) (here.read c rest ▸ read)
        (ih (here.advance lexeme.size))

theorem append {cursor : Cursor} {tokens : List Token} (scans : Scans cursor tokens) :
    ∃ front finish feed, tokens = front ++ [⟨.endOfInput, "", finish⟩]
      ∧ ∀ more found, Scans ⟨more, cursor.finish.step '\n', some '\n'⟩ found →
        Scans (cursor.extend ('\n' :: more)) (front ++ ⟨.newline, "\n", feed⟩ :: found) := by
  induction scans with
  | @finish cursor blank blanks all =>
      obtain ⟨-, -, fits⟩ := Trivia.size_append 0 cursor.rest blanks []
      rw [Nat.zero_add] at fits
      refine ⟨[], _, (cursor.advance blank).pos, rfl, fun more found next => ?_⟩
      have here := cursor.extend_advance fits ('\n' :: more)
      have front : ((cursor.extend ('\n' :: more)).advance blank).rest = '\n' :: more := by
        rw [here, Cursor.extend, all]
        rfl
      have after : ((cursor.extend ('\n' :: more)).advance blank).advance 1
          = ⟨more, cursor.finish.step '\n', some '\n'⟩ := by
        have place := cursor.finish_advance blank
        rw [Cursor.finish, all, Position.after_nil] at place
        rw [Cursor.advance_eq, front, here, ← place]
        rfl
      have read : Lexeme.read ((cursor.extend ('\n' :: more)).advance blank).last '\n' more
          = .ok ⟨.plain .newline, "\n", 1, Nat.one_pos⟩ := rfl
      have scans := token (Trivia.size_append 0 cursor.rest blanks more).1 front read
        (after ▸ next)
      rw [here] at scans
      exact scans
  | @token cursor blank c rest lexeme tokens blanks front read later ih =>
      obtain ⟨before, finish, feed, same, next⟩ := ih
      refine ⟨_ :: before, finish, feed, by rw [same]; rfl, fun more found tail => ?_⟩
      obtain ⟨fits, form⟩ := Lexeme.read_form read
      obtain ⟨-, -, early⟩ := Trivia.size_append 0 cursor.rest blanks []
      rw [Nat.zero_add] at early
      have here := cursor.extend_advance early ('\n' :: more)
      have inside : lexeme.size ≤ (cursor.advance blank).rest.length := by rw [front]; exact fits
      have scans := next more found (by rw [Cursor.finish_advance, Cursor.finish_advance]; exact tail)
      rw [← Cursor.extend_advance _ inside, ← here] at scans
      have again := token (Trivia.size_append 0 cursor.rest blanks more).1
        (by rw [here, Cursor.extend, front]; rfl)
        (by rw [here]; exact Lexeme.read_append (Breaks.feed more).severs read) scans
      rw [here, Cursor.token_extend _ _ _ inside form] at again
      exact again

/-- Every token but the one that marks the end is read from the text, at a place in it. -/
theorem genuine {cursor : Cursor} {tokens : List Token} (scans : Scans cursor tokens)
    (placed : cursor.pos.Placed) :
    ∃ front finish, tokens = front ++ [⟨.endOfInput, "", finish⟩] ∧ ∀ token ∈ front, token.Genuine := by
  induction scans with
  | finish => exact ⟨[], _, rfl, fun _ bad => nomatch bad⟩
  | @token cursor blank c rest lexeme tokens blanks front read later ih =>
      have here : (cursor.advance blank).pos.Placed := placed.advance blank
      obtain ⟨before, finish, same, all⟩ := ih (here.advance lexeme.size)
      refine ⟨_ :: before, finish, by rw [same]; rfl, fun token member => ?_⟩
      rcases List.mem_cons.mp member with rfl | member
      · exact ⟨_, _, _, _, _, read, here, rfl⟩
      · exact all token member

end Scans

theorem tokenizeAt_below {source : String} {pos : Position} {tokens : List Token}
    (placed : pos.Placed) (done : tokenizeAt source pos = .ok tokens) (lines : Nat) :
    tokenizeAt source (pos.below lines) = .ok (tokens.map (Token.below lines)) := by
  rw [Scans.tokenizeAt_eq_ok] at done ⊢
  refine done.lower ⟨rfl, ?_, fun _ => rfl⟩
  show (pos.below lines).clamp = pos.clamp.below lines
  rw [(placed.below lines).clamp, placed.clamp]

/-- The tokens of two texts with a line feed between them: those of the first, a line feed, and
those of the second further down. -/
theorem tokenize_append {front back : String} {first second : List Token}
    (before : tokenize front = .ok first) (after : tokenize back = .ok second) :
    ∃ shown finish feed, first = shown ++ [⟨.endOfInput, "", finish⟩]
      ∧ tokenize (front ++ "\n" ++ back)
        = .ok (shown ++ ⟨.newline, "\n", feed⟩
          :: second.map (Token.below (front.toList.count '\n' + 1))) := by
  rw [tokenize, Scans.tokenizeAt_eq_ok] at before after
  obtain ⟨shown, finish, feed, same, next⟩ := before.append
  refine ⟨shown, finish, feed, same, ?_⟩
  rw [tokenize, Scans.tokenizeAt_eq_ok]
  have text : Cursor.start (front ++ "\n" ++ back) .start
      = (Cursor.start front .start).extend ('\n' :: back.toList) := by
    simp [Cursor.start, Cursor.extend]
  rw [text]
  refine next _ _ (after.lower ⟨rfl, ?_, ?_⟩)
  · have line := Position.line_after Position.start.clamp front.toList
    show Position.step (Position.start.clamp.after front.toList) '\n' = _
    rw [Position.step, if_pos rfl, line, Tally.exact_add, Nat.add_assoc]
    rfl
  · intro rest
    rfl

end Rill

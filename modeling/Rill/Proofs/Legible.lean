import Rill.Proofs.Following
import Rill.Proofs.Holes
import Rill.Proofs.Respelling

/-!
# Legible words

A word is a token without a place. It is legible after a character if the lexer reads it back from
its spelling there; only a signed number minds what stands before it. A row of legible words, written
with a space between each two, is read to these words (`tokenizeAt_words`), and if its brackets match
it can stand in a hole of a template (`words_skips`).
-/

set_option autoImplicit false

namespace Rill

/-- A sign directly before a digit belongs to the number after this character. -/
def Signable (last : Option Char) : Prop := (last.map Lexeme.signContext.contains).getD false = true

namespace Token

/-- After `last`, the spelling of the word is read to a token that is the word. -/
def Legible (last : Option Char) (word : Token) : Prop :=
  ∃ c rest lexeme, word.respelled = c :: rest ∧ Trivia.size 0 (c :: rest) = .ok 0
    ∧ Lexeme.read last c rest = .ok lexeme ∧ lexeme.size = rest.length + 1
    ∧ ∀ cursor : Cursor, (cursor.token lexeme).unplaced = word

/-- Each word is legible after what stands before it, the first one after `last`. -/
def LegibleFrom : Option Char → List Token → Prop
  | _, [] => True
  | last, word :: words =>
      word.Legible last ∧ LegibleFrom (Cursor.lastInk last word.respelled) words

/-- A word that can stand anywhere. If it is `signed`, it must stand where a sign belongs to a
number. -/
def Plain (signed : Bool) (word : Token) : Prop :=
  ∀ last, (signed = true → Signable last) → word.Legible last

variable {last : Option Char} {word : Token} {words more : List Token}

theorem LegibleFrom.append (front : LegibleFrom last words) (back : ∀ last, LegibleFrom last more) :
    LegibleFrom last (words ++ more) := by
  induction words generalizing last with
  | nil => exact back last
  | cons word words ih => exact ⟨front.1, ih front.2⟩

theorem Legible.kind_ne_end (legible : word.Legible last) : word.kind ≠ .endOfInput := by
  obtain ⟨c, rest, lexeme, -, -, read, -, same⟩ := legible
  have shown := (Cursor.start "" .start).kind_token (Lexeme.read_form read).2
  intro ends
  have kind := congrArg Token.kind (same (Cursor.start "" .start))
  rw [ends] at kind
  cases found : ((Cursor.start "" .start).token lexeme).kind with
  | endOfInput => exact shown found
  | _ => rw [unplaced, found] at kind; cases kind

theorem spaced_cons (shown : word.kind ≠ .endOfInput) (words : List Token) :
    spaced (word :: words) = ' ' :: (word.respelled ++ spaced words) := by
  simp [spaced, shown]

theorem respell_cons (shown : word.kind ≠ .endOfInput) (words : List Token) :
    (respell (word :: words)).toList = word.respelled ++ spaced words := by
  rw [respell, String.toList_ofList, List.filter_cons_of_pos (by simpa using shown), List.map_cons,
    intercalate_space, spaced, List.flatMap_map]

end Token

/-! ## Rows of words -/

open Token (LegibleFrom)

/-- Legible words with a space before each, or without the first space, are read again. -/
theorem Scans.of_words {words : List Token} (cursor : Cursor) (legible : LegibleFrom cursor.last words)
    (text : cursor.rest = Token.spaced words ∨ ' ' :: cursor.rest = Token.spaced words) :
    ∃ tokens finish, Scans cursor (tokens ++ [⟨.endOfInput, "", finish⟩])
      ∧ tokens.map Token.unplaced = words := by
  induction words generalizing cursor with
  | nil =>
      have ended : cursor.rest = [] := text.resolve_right (by rintro ⟨⟩)
      have blanks : Trivia.size 0 cursor.rest = .ok 0 := by rw [ended, Trivia.size]
      have all : (cursor.advance 0).rest = [] := ended
      exact ⟨[], _, .finish blanks all, rfl⟩
  | cons word words ih =>
      obtain ⟨here, later⟩ := legible
      rw [Token.spaced_cons here.kind_ne_end] at text
      obtain ⟨gap, space, text⟩ : ∃ gap, (gap = [] ∨ gap = [' '])
          ∧ cursor.rest = gap ++ (word.respelled ++ Token.spaced words) := by
        rcases text with text | text
        · exact ⟨[' '], .inr rfl, text⟩
        · exact ⟨[], .inl rfl, (List.cons.inj text).2⟩
      obtain ⟨c, rest, lexeme, spelled, ink, read, size, same⟩ := here
      have breaks := Token.spaced_breaks words
      obtain ⟨front, last⟩ := Cursor.last_gap space cursor text
      have blanks : Trivia.size 0 cursor.rest = .ok gap.length := by
        rw [text, spelled]
        have alone : Trivia.size 0 ((c :: rest) ++ []) = .ok 0 := by rwa [List.append_nil]
        exact Cursor.size_gap space (Trivia.size_front (List.cons_ne_nil c rest) breaks alone)
      have long : word.respelled.length = lexeme.size := by rw [spelled, size, List.length_cons]
      have left : ((cursor.advance gap.length).advance lexeme.size).rest = Token.spaced words := by
        rw [Cursor.rest_advance, front, List.drop_left' long]
      have after : ((cursor.advance gap.length).advance lexeme.size).last
          = Cursor.lastInk cursor.last word.respelled := by
        rw [Cursor.last_advance, front, last, List.take_left' long]
      obtain ⟨tokens, finish, scans, all⟩ := ih _ (by rw [after]; exact later) (.inl left)
      refine ⟨_ :: tokens, finish, .token blanks (by rw [front, spelled]; rfl) ?_ scans, ?_⟩
      · rw [last]
        exact Lexeme.read_append breaks.severs read
      · rw [List.map_cons, same, all]

theorem tokenizeAt_words {words : List Token} (legible : LegibleFrom none words) (start : Position) :
    ∃ tokens finish, tokenizeAt (Token.respell words) start
        = .ok (tokens ++ [⟨.endOfInput, "", finish⟩])
      ∧ tokens.map Token.unplaced = words := by
  obtain ⟨tokens, finish, scans, same⟩ := Scans.of_words (Cursor.start (Token.respell words) start)
    legible (Token.respell_spaced words)
  exact ⟨tokens, finish, Scans.tokenizeAt_eq_ok.mpr scans, same⟩

/-! ## Words in a hole -/

def Mark.closing? : Mark → Option Mark
  | .openParen => some .closeParen
  | .openBracket => some .closeBracket
  | .openBrace => some .closeBrace
  | _ => none

/-- Every bracket in the row has its counterpart there. -/
inductive Nested : List Token → Prop
  | nil : Nested []
  | cons {word : Token} {words : List Token} (flat : word.kind.weight = 0) (later : Nested words) :
      Nested (word :: words)
  | pair {opening closing : Token} {m m' : Mark} {inner words : List Token}
      (opens : opening.kind = .mark m) (closes : closing.kind = .mark m')
      (match_ : m.closing? = some m') (inside : Nested inner) (later : Nested words) :
      Nested (opening :: (inner ++ closing :: words))

namespace Nested

variable {words more : List Token}

theorem append (front : Nested words) (back : Nested more) : Nested (words ++ more) := by
  induction front with
  | nil => exact back
  | cons flat _ ih => exact .cons flat ih
  | pair opens closes match_ inside _ _ ih =>
      rw [List.cons_append, List.append_assoc]
      exact .pair opens closes match_ inside ih

theorem arrowAfterClose (nested : Nested words) (depth : Nat) (more : List Token) :
    Grammar.arrowAfterClose (depth + 1) (words ++ more) = Grammar.arrowAfterClose (depth + 1) more := by
  induction nested generalizing depth more with
  | nil => rfl
  | @cons word words flat _ ih =>
      rw [List.cons_append, Grammar.arrowAfterClose]
      obtain ⟨kind, text, pos⟩ := word
      cases kind with
      | mark m => cases m <;> first | exact ih depth more | exact nomatch flat
      | _ => exact ih depth more
  | @pair opening closing m m' inner words opens closes match_ _ _ inner_ih ih =>
      rw [List.cons_append, List.append_assoc, List.cons_append]
      cases m <;> cases match_ <;>
        simp only [Grammar.arrowAfterClose, opens, inner_ih, closes, ih, Nat.add_eq_right,
          Nat.add_sub_cancel, if_false, Nat.succ_ne_zero]

theorem bracesBalance (nested : Nested words) (depth : Nat) (more : List Token) :
    Token.bracesBalance depth (words ++ more) = Token.bracesBalance depth more := by
  induction nested generalizing depth more with
  | nil => rfl
  | @cons word words flat _ ih =>
      rw [List.cons_append, Token.bracesBalance_other, ih]
      · exact fun opens => by rw [opens] at flat; exact nomatch flat
      · exact fun closes => by rw [closes] at flat; exact nomatch flat
  | @pair opening closing m m' inner words opens closes match_ _ _ inner_ih ih =>
      rw [List.cons_append, List.append_assoc, List.cons_append]
      cases m <;> cases match_ <;>
        simp [Token.bracesBalance, opens, inner_ih, closes, ih]

end Nested

open Lexeme in
theorem Token.Legible.skips {last : Option Char} {word : Token} (legible : word.Legible last) :
    word.kind = .mark .openBrace ∧ word.respelled = ['\x7b']
      ∨ word.kind = .mark .closeBrace ∧ word.respelled = ['\x7d']
      ∨ word.kind ≠ .mark .openBrace ∧ word.kind ≠ .mark .closeBrace
        ∧ ∀ depth start outer, Skips (.hole depth start :: outer) word.respelled
          (.hole depth start :: outer) := by
  obtain ⟨c, rest, lexeme, spelled, -, read, size, same⟩ := legible
  have whole : (c :: rest).take lexeme.size = word.respelled := by
    rw [spelled, size, List.take_of_length_le (Nat.le_of_eq (List.length_cons ..))]
  have kind {m : Mark} : word.kind = .mark m ↔ lexeme.kind = .plain (.mark m) := by
    rw [← same (Cursor.start "" .start)]
    constructor
    · intro found
      refine Cursor.kind_token_mark (Cursor.start "" .start) ?_
      cases shown : ((Cursor.start "" .start).token lexeme).kind with
      | mark m' => rw [unplaced, shown] at found; exact found
      | _ => rw [unplaced, shown] at found; cases found
    · intro found
      rw [unplaced, Cursor.kind_token_plain _ found]
      rfl
  have cases_ := read_skips read
  rw [whole] at cases_
  rw [kind, kind]
  exact cases_.imp id (.imp id fun found => ⟨fun opens => (found.1 _ (kind.mp opens)).1 rfl,
    fun closes => (found.1 _ (kind.mp closes)).2 rfl, found.2⟩)

open Lexeme in
/-- Words with a space before each, or with a space between each two, are skipped in a hole up to
where their braces balance. -/
theorem words_skips {words : List Token} {last : Option Char} (legible : LegibleFrom last words)
    {depth : Nat} (balance : Token.bracesBalance depth words = true) (start : Nat)
    (outer : List Nesting) :
    Skips (.hole (depth + 1) start :: outer) (Token.spaced words) (.hole 1 start :: outer)
      ∧ Skips (.hole (depth + 1) start :: outer) (Token.respell words).toList
        (.hole 1 start :: outer) := by
  induction words generalizing last depth with
  | nil =>
      have shut : depth = 0 := by simpa [Token.bracesBalance] using balance
      rw [shut]
      exact ⟨.nil _, .nil _⟩
  | cons word words ih =>
      obtain ⟨here, later⟩ := legible
      have others {depth' : Nat} (balance : Token.bracesBalance depth' words = true) :=
        (ih later balance).1
      have gap : Skips (.hole (depth + 1) start :: outer) [' '] (.hole (depth + 1) start :: outer) :=
        skips_calm (by simp [Calm])
      have inner : Skips (.hole (depth + 1) start :: outer) (word.respelled ++ Token.spaced words)
          (.hole 1 start :: outer) := by
        rcases here.skips with ⟨opens, brace⟩ | ⟨closes, brace⟩ | ⟨notOpen, notClose, passed⟩
        · rw [Token.bracesBalance, opens] at balance
          rw [brace]
          exact (Skips.moves fun _ _ => .opens).append (others balance)
        · rw [Token.bracesBalance, closes] at balance
          simp only [Bool.and_eq_true, decide_eq_true_eq] at balance
          obtain ⟨fewer, rfl⟩ := Nat.exists_eq_succ_of_ne_zero (Nat.ne_of_gt balance.1)
          rw [brace]
          exact (Skips.moves fun _ _ => .closesInner (by omega)).append (others balance.2)
        · rw [Token.bracesBalance_other notOpen notClose] at balance
          exact (passed _ _ _).append (others balance)
      rw [Token.spaced_cons here.kind_ne_end, Token.respell_cons here.kind_ne_end]
      exact ⟨gap.append inner, inner⟩

end Rill

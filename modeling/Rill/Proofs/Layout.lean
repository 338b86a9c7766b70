import Rill.Proofs.Narrow
import Rill.Proofs.Spelling

/-!
# Where tokens stand

A text is its tokens' spellings with blanks and comments between them. The position of a token, of a
hole and of the end is what counting on from the start of the text gives, in 32 bits as well.
-/

set_option autoImplicit false

namespace Rill

namespace Token

/-- The characters that a token is read from: a string stands between quotes, any other token is
spelled as its text says. -/
inductive Spells : Token → List Char → Prop
  | quoted {token : Token} {quote : Char} {raw : List Char} (quotes : quote = '"' ∨ quote = '\'')
      (kind : token.kind = .text) (inside : Lexeme.Contents quote raw token.text.toList) :
      Spells token (quote :: (raw ++ [quote]))
  | verbatim {token : Token} (kind : token.kind ≠ .text) : Spells token token.text.toList

/-- The holes of a token with this spelling begin where counting on from the token's position
arrives, and the source of each stands there between its opening and a closing brace. -/
def HolesIn (token : Token) (spelling : List Char) (tally : Tally := .exact) : Prop :=
  ∀ pieces, token.kind = .template pieces → ∀ source pos, .hole source pos ∈ pieces →
    ∃ before after, spelling = before ++ '$' :: '\x7b' :: (source.toList ++ '\x7d' :: after)
      ∧ pos = token.pos.after (before ++ ['$', '\x7b']) tally

end Token

/-- A stretch of text: what is passed over, the spelling of a token, and the token. -/
structure Stretch where
  trivia : List Char
  spelling : List Char
  token : Token

namespace Stretch

def chars (stretch : Stretch) : List Char := stretch.trivia ++ stretch.spelling

/-- A stretch that begins at `pos` and has `ahead` after it. -/
structure Faithful (stretch : Stretch) (pos : Position) (ahead : List Char)
    (tally : Tally := .exact) : Prop where
  blank : Trivia.Blank stretch.trivia (stretch.spelling ++ ahead)
  more : stretch.spelling ≠ []
  spells : stretch.token.Spells stretch.spelling
  place : stretch.token.pos = pos.after stretch.trivia tally
  holes : stretch.token.HolesIn stretch.spelling tally

end Stretch

namespace Cursor

theorem spells (cursor : Cursor) {lexeme : Lexeme} {spelling : List Char}
    (spells : lexeme.Spells spelling) : (cursor.token lexeme).Spells spelling := by
  cases spells with
  | quoted quotes kind inside =>
      exact .quoted quotes (by simp only [token, kind]) inside
  | template kind _ =>
      refine .verbatim fun bad => ?_
      simp only [token, kind] at bad
      cases bad
  | verbatim kind ink _ =>
      refine .verbatim fun bad => ink ?_
      simpa only [token, kind] using bad

theorem holesIn (cursor : Cursor) {lexeme : Lexeme} {spelling ahead : List Char}
    (front : cursor.rest = spelling ++ ahead) (spells : lexeme.Spells spelling) :
    (cursor.token lexeme).HolesIn spelling := by
  intro pieces template source pos inside
  cases spells with
  | quoted _ kind _ =>
      simp only [token, kind] at template
      cases template
  | verbatim kind _ whole =>
      simp only [token, kind] at template
      exact absurd template (whole pieces)
  | template kind holes =>
      simp only [token, kind, TokenKind.template.injEq] at template
      subst template
      obtain ⟨raw, member, same⟩ := List.mem_map.mp inside
      cases raw with
      | text => cases same
      | hole code offset =>
          simp only [piece, TemplatePiece.hole.injEq] at same
          obtain ⟨rfl, rfl⟩ := same
          obtain ⟨before, after, text, rfl⟩ := holes code offset member
          refine ⟨before, after, text, ?_⟩
          have size : 0 + before.length + 2 = (before ++ ['$', '\x7b']).length := by simp
          have split : cursor.rest
              = (before ++ ['$', '\x7b']) ++ (code.toList ++ '\x7d' :: after ++ ahead) := by
            rw [front, text]
            simp
          rw [pos_advance, split, size, List.take_left]
          rfl

theorem stretch (cursor : Cursor) {blank : Nat} {c : Char} {rest : List Char} {lexeme : Lexeme}
    (blanks : Trivia.size 0 cursor.rest = .ok blank)
    (front : (cursor.advance blank).rest = c :: rest)
    (read : Lexeme.read (cursor.advance blank).last c rest = .ok lexeme) :
    ∃ stretch : Stretch, stretch.token = (cursor.advance blank).token lexeme
      ∧ cursor.rest = stretch.chars ++ ((cursor.advance blank).advance lexeme.size).rest
      ∧ ((cursor.advance blank).advance lexeme.size).pos = cursor.pos.after stretch.chars
      ∧ stretch.Faithful cursor.pos ((cursor.advance blank).advance lexeme.size).rest := by
  obtain ⟨trivia, after, whole, size, blank, -⟩ := Trivia.size_blank 0 cursor.rest blanks
  rw [Nat.zero_add] at size
  subst size
  have here : (cursor.advance trivia.length).rest = after := by
    rw [rest_advance, whole, List.drop_left]
  have pos : (cursor.advance trivia.length).pos = cursor.pos.after trivia := by
    rw [pos_advance, whole, List.take_left]
  have split := List.take_append_drop lexeme.size after
  have spells := Lexeme.read_spells read
  rw [← front, here] at spells
  have tail : ((cursor.advance trivia.length).advance lexeme.size).rest = after.drop lexeme.size := by
    rw [rest_advance, here]
  refine ⟨⟨trivia, after.take lexeme.size, (cursor.advance trivia.length).token lexeme⟩, rfl,
    ?_, ?_, ?_, ?_, (cursor.advance trivia.length).spells spells, pos, ?_⟩
  · rw [whole, tail, Stretch.chars, List.append_assoc, split]
  · rw [pos_advance, pos, here, Stretch.chars, Position.after_append]
  · rw [tail, split]
    exact blank
  · have size := lexeme.size_pos
    have more : 0 < after.length := by rw [← here, front]; exact Nat.succ_pos _
    exact List.ne_nil_of_length_pos (by rw [List.length_take]; omega)
  · exact (cursor.advance trivia.length).holesIn (here.trans split.symm) spells

end Cursor

/-- The tokens lay out a text that begins at `origin`: the text is a row of stretches, one for each
token but the last, and then blank, and the last token marks the end. The stretches are faithful:
every position is where counting on from `origin` over all characters before arrives. -/
def Laid (origin : Position) (text : List Char) (tokens : List Token) (tally : Tally := .exact) :
    Prop :=
  ∃ stretches last, text = stretches.flatMap Stretch.chars ++ last
    ∧ tokens = stretches.map Stretch.token ++ [⟨.endOfInput, "", origin.after text tally⟩]
    ∧ Trivia.Blank last []
    ∧ ∀ before stretch after, stretches = before ++ stretch :: after →
        stretch.Faithful (origin.after (before.flatMap Stretch.chars) tally)
          (after.flatMap Stretch.chars ++ last) tally

theorem Scans.laid {cursor : Cursor} {tokens : List Token} (scans : Scans cursor tokens) :
    Laid cursor.pos cursor.rest tokens := by
  induction scans with
  | @finish cursor blank blanks all =>
      obtain ⟨trivia, after, whole, size, blank, -⟩ := Trivia.size_blank 0 cursor.rest blanks
      rw [Nat.zero_add] at size
      subst size
      rw [Cursor.rest_advance, whole, List.drop_left] at all
      subst all
      refine ⟨[], trivia, whole.trans (List.append_nil _), ?_, blank, fun before stretch after same => ?_⟩
      · show [_] = [_]
        rw [whole, List.append_nil, Cursor.pos_advance, whole, List.append_nil, List.take_length]
      · exact absurd same (by simp)
  | @token cursor blank c rest lexeme tokens blanks front read later ih =>
      obtain ⟨first, token, split, pos, faithful⟩ := cursor.stretch blanks front read
      obtain ⟨stretches, last, rest, more, blank, all⟩ := ih
      refine ⟨first :: stretches, last, ?_, ?_, blank, ?_⟩
      · rw [split, rest, List.flatMap_cons, List.append_assoc]
      · rw [more, ← token, pos, ← Position.after_append, ← split]
        rfl
      · intro before stretch after same
        cases before with
        | nil =>
            cases same
            rw [← rest]
            exact faithful
        | cons head before =>
            cases same
            rw [List.flatMap_cons, Position.after_append, ← pos]
            exact all before stretch after rfl

/-! ## In 32 bits -/

namespace Token

variable {token : Token} {spelling : List Char}

theorem Spells.relocate (spells : token.Spells spelling) (f : Position → Position) :
    (token.relocate f).Spells spelling := by
  obtain ⟨kind, text, pos⟩ := token
  cases spells with
  | quoted quotes same inside =>
      obtain rfl : kind = .text := same
      exact .quoted quotes rfl inside
  | verbatim other =>
      refine .verbatim fun same => other ?_
      cases kind with
      | text => rfl
      | _ => cases same

theorem HolesIn.narrow (holes : token.HolesIn spelling) :
    (token.relocate Position.narrow).HolesIn spelling .narrow := by
  obtain ⟨kind, text, pos⟩ := token
  intro pieces template source place member
  cases kind with
  | template found =>
      obtain rfl : found.map (TemplatePiece.relocate Position.narrow) = pieces :=
        TokenKind.template.inj template
      obtain ⟨piece, inside, same⟩ := List.mem_map.mp member
      cases piece with
      | text => cases same
      | hole source' place' =>
          cases same
          obtain ⟨before, after, split, rfl⟩ := holes found rfl source place' inside
          exact ⟨before, after, split, (Position.after_narrow _ _).symm⟩
  | _ => cases template

end Token

namespace Stretch

def narrow (stretch : Stretch) : Stretch :=
  { stretch with token := stretch.token.relocate Position.narrow }

theorem Faithful.narrow {stretch : Stretch} {pos : Position} {ahead : List Char}
    (faithful : stretch.Faithful pos ahead) : stretch.narrow.Faithful pos.narrow ahead .narrow where
  blank := faithful.blank
  more := faithful.more
  spells := faithful.spells.relocate Position.narrow
  place := by
    rw [Position.after_narrow]
    exact congrArg Position.narrow faithful.place
  holes := faithful.holes.narrow

end Stretch

theorem Laid.narrow {origin : Position} {text : List Char} {tokens : List Token}
    (laid : Laid origin text tokens) :
    Laid origin.narrow text (tokens.map (Token.relocate Position.narrow)) .narrow := by
  obtain ⟨stretches, last, split, rfl, blank, faithful⟩ := laid
  have chars : ∀ stretches : List Stretch,
      (stretches.map Stretch.narrow).flatMap Stretch.chars = stretches.flatMap Stretch.chars :=
    fun stretches => by rw [List.flatMap_map]; rfl
  refine ⟨stretches.map Stretch.narrow, last, by rw [chars, split], ?_, blank, ?_⟩
  · rw [List.map_append, List.map_map, List.map_map, Position.after_narrow]
    rfl
  · intro before stretch after same
    obtain ⟨front, rest, rfl, rfl, tail⟩ := List.map_eq_append_iff.mp same
    obtain ⟨found, back, rfl, rfl, rfl⟩ := List.map_eq_cons_iff.mp tail
    rw [chars, chars, Position.after_narrow]
    exact (faithful front found back rfl).narrow

/-- The lexer loses nothing, and its positions are true. A reading starts at line one and column one
at least and counts in 32 bits, as the step from character to character does. Where the counts are kept
as they are, the same tokens are read, and what 32 bits hold of their positions is the same. -/
theorem tokenizeAt_laid {text : String} {start : Position} {tokens : List Token}
    (small : text.length < UInt32.size) (fits : start.Fits)
    (done : tokenizeAt text start .narrow = .ok tokens) :
    Laid start.clamp text.toList tokens .narrow ∧
      ∃ exact, tokenizeAt text start = .ok exact ∧ Laid start.clamp text.toList exact ∧
        tokens = exact.map (Token.relocate Position.narrow) := by
  rw [tokenizeAt, lexAt_narrow small fits] at done
  cases lexed : lexAt text start with
  | mk found error =>
      rw [lexed] at done
      cases error with
      | some error => cases done
      | none =>
          obtain rfl : found.map (Token.relocate Position.narrow) = tokens := Except.ok.inj done
          have read : tokenizeAt text start = .ok found := by rw [tokenizeAt, lexed]; rfl
          have laid : Laid start.clamp text.toList found := (Scans.tokenizeAt_eq_ok.mp read).laid
          have narrow := laid.narrow
          rw [fits.clamp.narrow] at narrow
          exact ⟨narrow, found, read, laid, rfl⟩

/-- A comment is passed over at once, so its line may be longer than 32 bits can count. -/
theorem tokenizeAt_laid_comment :
    tokenizeAt "/* é\n */ x + `$\x7by\x7d`" ⟨7, 4294967293⟩ .narrow
      = .ok [⟨.ident, "x", ⟨8, 5⟩⟩, ⟨.mark .plus, "+", ⟨8, 7⟩⟩,
        ⟨.template [.hole "y" ⟨8, 12⟩], "`$\x7by\x7d`", ⟨8, 9⟩⟩, ⟨.endOfInput, "", ⟨8, 15⟩⟩]
    ∧ Laid ⟨7, 4294967293⟩ "/* é\n */ x + `$\x7by\x7d`".toList
      [⟨.ident, "x", ⟨8, 5⟩⟩, ⟨.mark .plus, "+", ⟨8, 7⟩⟩,
        ⟨.template [.hole "y" ⟨8, 12⟩], "`$\x7by\x7d`", ⟨8, 9⟩⟩, ⟨.endOfInput, "", ⟨8, 15⟩⟩]
      .narrow := by
  have read : tokenizeAt "/* é\n */ x + `$\x7by\x7d`" ⟨7, 4294967293⟩ .narrow
      = .ok [⟨.ident, "x", ⟨8, 5⟩⟩, ⟨.mark .plus, "+", ⟨8, 7⟩⟩,
        ⟨.template [.hole "y" ⟨8, 12⟩], "`$\x7by\x7d`", ⟨8, 9⟩⟩, ⟨.endOfInput, "", ⟨8, 15⟩⟩] := by cbv
  exact ⟨read, (tokenizeAt_laid (by decide) ⟨by decide, by decide⟩ read).1⟩

/-- Where a reading is said to start at line zero and column zero, the tokens are not laid out from
there. -/
theorem not_laid_from_nowhere :
    ∃ tokens, tokenizeAt "a" ⟨0, 0⟩ .narrow = .ok tokens ∧ ¬ Laid ⟨0, 0⟩ "a".toList tokens .narrow := by
  refine ⟨[⟨.ident, "a", ⟨1, 1⟩⟩, ⟨.endOfInput, "", ⟨1, 2⟩⟩], by cbv, ?_⟩
  rintro ⟨stretches, last, -, tokens, -⟩
  have ends := congrArg List.getLast? tokens
  rw [List.getLast?_concat] at ends
  exact absurd ends (by decide)

end Rill

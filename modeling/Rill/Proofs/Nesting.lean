import Rill.Grammar.Error
import Rill.Proofs.Layout
import Rill.Proofs.LexErrors

/-!
# Sources inside sources

The holes of templates are cut out and read as texts of their own, from the position at which they
stand, and so are the holes in these. However deep a source lies, its tokens stand in the outermost
text where their positions say.
-/

set_option autoImplicit false

namespace Rill

/-- A source that lies in a text, and the position it is read from: the text itself, or the hole of
a template among the tokens of such a source. -/
inductive Inside (text : String) : String → Position → Prop
  | whole : Inside text text .start
  | hole {outer source : String} {start pos : Position} {tokens : List Token} {token : Token}
      {pieces : List TemplatePiece} (within : Inside text outer start)
      (read : tokenizeAt outer start = .ok tokens) (member : token ∈ tokens)
      (template : token.kind = .template pieces) (piece : .hole source pos ∈ pieces) :
      Inside text source pos

/-- A token of a text or of a hole in it, to any depth. -/
def Token.Nested (text : String) (token : Token) : Prop :=
  ∃ source start tokens, Inside text source start ∧ tokenizeAt source start = .ok tokens
    ∧ token ∈ tokens

/-- Counting on from the start of the text, the position is that of a character at which a token of
the text or of a hole in it starts. -/
def StartsToken (text : String) (pos : Position) : Prop :=
  ∃ (token : Token) (before spelling after : List Char), token.Nested text ∧ token.pos = pos
    ∧ text.toList = before ++ (spelling ++ after) ∧ spelling ≠ [] ∧ token.Spells spelling
    ∧ pos = Position.start.after before

/-- The source of a hole stands in the text after its opening and before a closing brace. -/
structure HoleAt (text source : String) (before after : List Char) : Prop where
  inside : Inside text source (Position.start.after before)
  opening : ['$', '\x7b'] <:+ before
  split : text.toList = before ++ (source.toList ++ '\x7d' :: after)

/-- A token among those of a text stands in it, unless it marks the end. -/
theorem Laid.mem {origin : Position} {text : List Char} {tokens : List Token}
    (laid : Laid origin text tokens) {token : Token} (member : token ∈ tokens) :
    token = ⟨.endOfInput, "", origin.after text⟩
      ∨ ∃ before spelling after, text = before ++ (spelling ++ after) ∧ spelling ≠ []
        ∧ token.Spells spelling ∧ token.pos = origin.after before ∧ token.HolesIn spelling := by
  obtain ⟨stretches, last, whole, rfl, -, faithful⟩ := laid
  rcases List.mem_append.mp member with shown | finish
  · obtain ⟨stretch, inside, rfl⟩ := List.mem_map.mp shown
    obtain ⟨front, back, rfl⟩ := List.append_of_mem inside
    have here := faithful front stretch back rfl
    refine .inr ⟨front.flatMap Stretch.chars ++ stretch.trivia, stretch.spelling,
      back.flatMap Stretch.chars ++ last, ?_, here.more, here.spells, ?_, here.holes⟩
    · rw [whole, List.flatMap_append, List.flatMap_cons, Stretch.chars]
      simp only [List.append_assoc]
    · rw [here.place, Position.after_append]
  · exact .inl (List.mem_singleton.mp finish)

theorem tokenizeAt_mem {source : String} {before : List Char} {tokens : List Token} {token : Token}
    (read : tokenizeAt source (Position.start.after before) = .ok tokens) (member : token ∈ tokens) :
    token = ⟨.endOfInput, "", Position.start.after (before ++ source.toList)⟩
      ∨ ∃ front spelling after, source.toList = front ++ (spelling ++ after) ∧ spelling ≠ []
        ∧ token.Spells spelling ∧ token.pos = Position.start.after (before ++ front)
        ∧ token.HolesIn spelling := by
  have placed : (Position.start.after before).Placed :=
    Position.Placed.after ⟨Nat.le_refl 1, Nat.le_refl 1⟩ before
  have laid : Laid (Position.start.after before).clamp source.toList tokens :=
    (Scans.tokenizeAt_eq_ok.mp read).laid
  rw [placed.clamp] at laid
  rw [Position.after_append]
  rcases laid.mem member with finish | ⟨front, spelling, after, split, more, spells, pos, holes⟩
  · exact .inl finish
  · exact .inr ⟨front, spelling, after, split, more, spells,
      by rw [pos, Position.after_append], holes⟩

theorem Inside.holeAt {text outer source : String} {front back : List Char} {pos : Position}
    {tokens : List Token} {token : Token} {pieces : List TemplatePiece}
    (split : text.toList = front ++ (outer.toList ++ back))
    (within : Inside text outer (Position.start.after front))
    (read : tokenizeAt outer (Position.start.after front) = .ok tokens) (member : token ∈ tokens)
    (template : token.kind = .template pieces) (piece : .hole source pos ∈ pieces) :
    ∃ before after, HoleAt text source before after ∧ pos = Position.start.after before := by
  rcases tokenizeAt_mem read member with rfl | ⟨before, spelling, after, whole, -, -, place, holes⟩
  · exact nomatch template
  · obtain ⟨early, late, rfl, rfl⟩ := holes pieces template source pos piece
    have count : token.pos.after (early ++ ['$', '\x7b'])
        = Position.start.after (front ++ before ++ early ++ ['$', '\x7b']) := by
      rw [place, ← Position.after_append]
      simp only [List.append_assoc]
    refine ⟨front ++ before ++ early ++ ['$', '\x7b'], late ++ after ++ back,
      ⟨?_, List.suffix_append _ _, ?_⟩, count⟩
    · exact count ▸ .hole within read member template piece
    · rw [split, whole]
      simp

theorem Inside.stands {text source : String} {pos : Position} (inside : Inside text source pos) :
    (source = text ∧ pos = .start)
      ∨ ∃ before after, HoleAt text source before after ∧ pos = Position.start.after before := by
  induction inside with
  | whole => exact .inl ⟨rfl, rfl⟩
  | hole within read member template piece ih =>
      rcases ih with ⟨rfl, rfl⟩ | ⟨front, back, hole, rfl⟩
      · have split : ∀ text : String, text.toList = [] ++ (text.toList ++ []) := by simp
        exact .inr (Inside.holeAt (split _) within read member template piece)
      · exact .inr (Inside.holeAt hole.split within read member template piece)

theorem Inside.split {text source : String} {pos : Position} (inside : Inside text source pos) :
    ∃ before after, text.toList = before ++ (source.toList ++ after)
      ∧ pos = Position.start.after before := by
  rcases inside.stands with ⟨rfl, rfl⟩ | ⟨before, after, hole, rfl⟩
  · exact ⟨[], [], by simp, rfl⟩
  · exact ⟨before, _, hole.split, rfl⟩

theorem Token.Nested.stands {text : String} {token : Token} (nested : token.Nested text) :
    StartsToken text token.pos
      ∨ token.kind = .endOfInput ∧ ∃ source before, Inside text source (Position.start.after before)
        ∧ token.pos = Position.start.after (before ++ source.toList) := by
  have same := nested
  obtain ⟨source, start, tokens, inside, read, member⟩ := same
  obtain ⟨before, after, split, rfl⟩ := inside.split
  rcases tokenizeAt_mem read member with rfl | ⟨front, spelling, rest, whole, more, spells, place, -⟩
  · exact .inr ⟨rfl, source, before, inside, rfl⟩
  · refine .inl ⟨token, before ++ front, spelling, rest ++ after, nested, rfl, ?_, more, spells,
      place⟩
    rw [split, whole]
    simp only [List.append_assoc]

theorem Token.Nested.holeAt {text source : String} {token : Token} {pieces : List TemplatePiece}
    {pos : Position} (nested : token.Nested text) (template : token.kind = .template pieces)
    (piece : .hole source pos ∈ pieces) :
    ∃ before after, HoleAt text source before after ∧ pos = Position.start.after before := by
  obtain ⟨outer, start, tokens, within, read, member⟩ := nested
  obtain ⟨front, back, split, rfl⟩ := within.split
  exact Inside.holeAt split within read member template piece

/-- Where an error stands: at a nested token, at the end of the text or of a hole, at the start of a
hole, or where a source cannot be read. -/
inductive ErrorAt (text : String) : ParseError → Prop
  | token {error : ParseError} (starts : StartsToken text error.pos) : ErrorAt text error
  | finish {error : ParseError} (place : error.pos = Position.start.after text.toList) :
      ErrorAt text error
  | holeStart {error : ParseError} {source : String} {before after : List Char}
      (hole : HoleAt text source before after) (place : error.pos = Position.start.after before) :
      ErrorAt text error
  | holeFinish {error : ParseError} {source : String} {before after : List Char}
      (hole : HoleAt text source before after)
      (place : error.pos = Position.start.after (before ++ source.toList)) : ErrorAt text error
  | lexical {error : LexError} {source : String} {start : Position}
      {before front back after : List Char} (inside : Inside text source start)
      (fails : tokenizeAt source start = .error error) (whole : source.toList = front ++ back)
      (split : text.toList = before ++ (source.toList ++ after))
      (place : error.pos = Position.start.after (before ++ front))
      (shows : error.reason.ShowsAt back) : ErrorAt text (.lexical error)

theorem Token.Nested.errorAt {text : String} {token : Token} (nested : token.Nested text)
    {error : ParseError} (place : error.pos = token.pos) : ErrorAt text error := by
  rcases nested.stands with starts | ⟨-, source, before, inside, finish⟩
  · exact .token (place ▸ starts)
  · rw [finish] at place
    rcases inside.stands with ⟨rfl, start⟩ | ⟨before', after, hole, start⟩
    · rw [Position.after_append, start] at place
      exact .finish place
    · rw [Position.after_append, start, ← Position.after_append] at place
      exact .holeFinish hole place

theorem Inside.errorAt {text source : String} {start : Position} (inside : Inside text source start)
    {error : LexError} (fails : tokenizeAt source start = .error error) :
    ErrorAt text (.lexical error) := by
  obtain ⟨before, after, split, rfl⟩ := inside.split
  obtain ⟨front, back, whole, place, shows⟩ := tokenizeAt_shows fails
  have placed : (Position.start.after before).Placed :=
    Position.Placed.after ⟨Nat.le_refl 1, Nat.le_refl 1⟩ before
  rw [placed.clamp, ← Position.after_append] at place
  exact .lexical inside fails whole split place shows

end Rill

import Rill.Proofs.Layout
import Rill.Proofs.Skipping

/-!
# Where a hole ends

The braces that the lexer finds in a text are the braces that the scanner counts in a hole, since
strings and templates are passed over whole and other tokens hold no brace, quote or backtick
(`Lexeme.read_skips`). So a hole with balanced braces ends where it should
(`tokenizeAt_hole`), as long as the scanner, which knows no comments, finds nothing in them that it
takes for a brace, a quote or a backtick.
-/

set_option autoImplicit false

namespace Rill

def Calm (c : Char) : Prop := c ∉ ['\x7b', '\x7d', '"', '\'', '`']

instance : DecidablePred Calm := fun _ => inferInstanceAs (Decidable (¬ _))

namespace Calm

variable {c : Char}

theorem of_numeric (numeric : Lexeme.Numeric c) : Calm c := by
  intro special
  simp only [List.mem_cons, List.not_mem_nil, or_false] at special
  rcases special with rfl | rfl | rfl | rfl | rfl <;> exact absurd numeric (by decide)

theorem of_isNamePart (inside : isNamePart c = true) : Calm c := by
  intro special
  simp only [List.mem_cons, List.not_mem_nil, or_false] at special
  rcases special with rfl | rfl | rfl | rfl | rfl <;> exact absurd inside (by decide)

end Calm

namespace Lexeme

/-! ## Tokens in a hole -/

section Skips

variable {depth start : Nat} {outer : List Nesting}

theorem skips_calm {chars : List Char} (calm : ∀ c ∈ chars, Calm c) :
    Skips (.hole depth start :: outer) chars (.hole depth start :: outer) := by
  refine .all fun c inside => .moves fun _ _ => ?_
  have plain := calm c inside
  simp only [Calm, List.mem_cons, List.not_mem_nil, or_false, not_or] at plain
  obtain ⟨notOpen, notClose, notDouble, notSingle, notTick⟩ := plain
  exact .code notOpen notClose (not_or.mpr ⟨notDouble, notSingle⟩) notTick

theorem skips_quoted {quote : Char} {raw cooked : List Char} (quotes : quote = '"' ∨ quote = '\'')
    (inside : Contents quote raw cooked) :
    Skips (.hole depth start :: outer) (quote :: (raw ++ [quote])) (.hole depth start :: outer) := by
  intro offset after
  have opening : skip (.hole depth start :: outer) offset ([quote] ++ ((raw ++ [quote]) ++ after))
      = skip (.quoted quote offset :: .hole depth start :: outer) (offset + 1)
          ((raw ++ [quote]) ++ after) := (Moves.quote quotes).skip
  refine opening.trans ((inside.skips quotes (offset + 1) after).trans ?_)
  rw [List.length_cons, Nat.add_assoc, Nat.add_comm 1]

theorem skips_template {front : List Char}
    (inside : ∀ start outer, Skips (.template start :: outer) front outer) :
    Skips (.hole depth start :: outer) ('`' :: front) (.hole depth start :: outer) := by
  intro offset after
  have opening : skip (.hole depth start :: outer) offset (['`'] ++ (front ++ after))
      = skip (.template offset :: .hole depth start :: outer) (offset + 1) (front ++ after) :=
    Moves.tick.skip
  refine opening.trans ((inside offset _ (offset + 1) after).trans ?_)
  rw [List.length_cons, Nat.add_assoc, Nat.add_comm 1]

end Skips

theorem spelling_calm {m : Mark} (notOpen : m ≠ .openBrace) (notClose : m ≠ .closeBrace) :
    ∀ c ∈ m.spelling.toList, Calm c := by
  cases m with
  | openBrace => exact absurd rfl notOpen
  | closeBrace => exact absurd rfl notClose
  | _ => simp [Mark.spelling, Calm]

theorem read_skips {last : Option Char} {c : Char} {rest : List Char} {lexeme : Lexeme}
    (done : read last c rest = .ok lexeme) :
    lexeme.kind = .plain (.mark .openBrace) ∧ (c :: rest).take lexeme.size = ['\x7b']
      ∨ lexeme.kind = .plain (.mark .closeBrace) ∧ (c :: rest).take lexeme.size = ['\x7d']
      ∨ (∀ m, lexeme.kind = .plain (.mark m) → m ≠ .openBrace ∧ m ≠ .closeBrace) ∧
        ∀ depth start outer, Skips (.hole depth start :: outer) ((c :: rest).take lexeme.size)
          (.hole depth start :: outer) := by
  unfold read at done
  split at done
  · next feed =>
    cases done
    refine .inr (.inr ⟨by simp, fun depth start outer => skips_calm fun d inside => ?_⟩)
    rw [List.take_succ_cons, List.take_zero, List.mem_singleton] at inside
    rw [inside, feed]
    decide
  split at done
  · next quote =>
    obtain ⟨kind, raw, tail, rfl, size, inside⟩ := quoted_spells done
    have whole : (c :: (raw ++ c :: tail)).take lexeme.size = c :: (raw ++ [c]) := by
      rw [size, List.take_succ_cons, List.append_cons, List.take_left' (by simp)]
    rw [whole, kind]
    exact .inr (.inr ⟨by simp, fun depth start outer => skips_quoted quote inside⟩)
  split at done
  · next tick =>
    obtain ⟨-, -, found, -, -, -, -, kind, -⟩ := template_front done
    obtain ⟨front, after, rfl, size, inside⟩ := template_skips done
    rw [tick, size, List.take_succ_cons, List.take_left, kind]
    exact .inr (.inr ⟨by simp, fun depth start outer => skips_template inside⟩)
  split at done
  · have kind := ((number_eq_ok c rest lexeme).mp done).2.2.1
    rw [kind]
    exact .inr (.inr ⟨by simp, fun depth start outer => skips_calm fun d inside =>
      .of_numeric (number_numeric done d inside)⟩)
  split at done
  · have kind := ((number_eq_ok c rest lexeme).mp done).2.2.1
    rw [kind]
    exact .inr (.inr ⟨by simp, fun depth start outer => skips_calm fun d inside =>
      .of_numeric (number_numeric done d inside)⟩)
  split at done
  · next starts =>
    cases done
    rw [word_kind]
    refine .inr (.inr ⟨fun m bad => ?_, fun depth start outer => skips_calm fun d inside =>
      .of_isNamePart (word_parts starts rest d inside)⟩)
    split at bad <;> cases bad
  · have text := marked_text done
    unfold marked at done
    split at done
    · next m found =>
      cases done
      rw [← text]
      by_cases opens : m = .openBrace
      · subst opens
        exact .inl ⟨rfl, rfl⟩
      by_cases closes : m = .closeBrace
      · subst closes
        exact .inr (.inl ⟨rfl, rfl⟩)
      · refine .inr (.inr ⟨fun other same => ?_, fun depth start outer =>
          skips_calm (spelling_calm opens closes)⟩)
        cases same
        exact ⟨opens, closes⟩
    · cases done

end Lexeme

/-! ## A text in a hole -/

namespace Token

/-- Every closing brace closes one of the braces before it, or of `depth` braces that were open, and
none is left open. -/
def bracesBalance : Nat → List Token → Bool
  | depth, [] => depth = 0
  | depth, token :: tokens =>
      match token.kind with
      | .mark .openBrace => bracesBalance (depth + 1) tokens
      | .mark .closeBrace => decide (0 < depth) && bracesBalance (depth - 1) tokens
      | _ => bracesBalance depth tokens

theorem bracesBalance_other {token : Token} (notOpen : token.kind ≠ .mark .openBrace)
    (notClose : token.kind ≠ .mark .closeBrace) (depth : Nat) (tokens : List Token) :
    bracesBalance depth (token :: tokens) = bracesBalance depth tokens := by
  rw [bracesBalance]
  split
  · next opens => exact absurd opens notOpen
  · next closes => exact absurd closes notClose
  · rfl

end Token

/-- What the lexer passes over before a token or before the end, from a cursor on. -/
inductive Cursor.Gap : Cursor → List Char → Prop where
  | here {cursor : Cursor} {blank : Nat} (blanks : Trivia.size 0 cursor.rest = .ok blank) :
      Gap cursor (cursor.rest.take blank)
  | later {cursor : Cursor} {blank : Nat} {c : Char} {rest gap : List Char} {lexeme : Lexeme}
      (blanks : Trivia.size 0 cursor.rest = .ok blank)
      (front : (cursor.advance blank).rest = c :: rest)
      (read : Lexeme.read (cursor.advance blank).last c rest = .ok lexeme)
      (later : Gap ((cursor.advance blank).advance lexeme.size) gap) : Gap cursor gap

theorem Trivia.Blank.calm {front after : List Char} (blank : Blank front after)
    (plain : '/' ∉ front) : ∀ c ∈ front, Calm c := by
  induction blank with
  | none => exact fun _ inside => nomatch inside
  | space blank _ ih =>
      intro d inside
      rcases List.mem_cons.mp inside with rfl | inside
      · rcases blank with rfl | rfl | rfl <;> decide
      · exact ih (fun slash => plain (List.mem_cons_of_mem _ slash)) d inside
  | line | block => exact absurd List.mem_cons_self plain

/-- Without a slash there is no comment, and nothing for the scanner in the gaps. -/
theorem Cursor.Gap.calm {cursor : Cursor} {gap : List Char} (found : cursor.Gap gap)
    (plain : '/' ∉ cursor.rest) : ∀ c ∈ gap, Calm c := by
  induction found with
  | @here cursor blank blanks =>
      obtain ⟨front, after, whole, rfl, blank, -⟩ := Trivia.size_blank 0 _ blanks
      rw [whole] at plain ⊢
      rw [Nat.zero_add, List.take_left]
      exact blank.calm fun slash => plain (List.mem_append_left _ slash)
  | later _ _ _ _ ih =>
      refine ih fun slash => plain ?_
      rw [Cursor.rest_advance, Cursor.rest_advance] at slash
      exact List.mem_of_mem_drop (List.mem_of_mem_drop slash)

theorem Cursor.kind_token_plain (cursor : Cursor) {lexeme : Lexeme} {kind : TokenKind}
    (plain : lexeme.kind = .plain kind) : (cursor.token lexeme).kind = kind := by
  simp only [Cursor.token, plain]

theorem Cursor.kind_token_mark (cursor : Cursor) {lexeme : Lexeme} {m : Mark}
    (mark : (cursor.token lexeme).kind = .mark m) : lexeme.kind = .plain (.mark m) := by
  simp only [Cursor.token] at mark
  split at mark
  · next kind plain => rw [plain, mark]
  · cases mark

open Lexeme in
/-- A text with balanced braces is skipped in a hole, if the scanner sees nothing in what the lexer
passes over. -/
theorem Scans.skips {cursor : Cursor} {tokens : List Token} (scans : Scans cursor tokens)
    (calm : ∀ gap, cursor.Gap gap → ∀ c ∈ gap, Calm c) {depth : Nat}
    (balance : Token.bracesBalance depth tokens = true) (start : Nat) (outer : List Nesting) :
    Skips (.hole (depth + 1) start :: outer) cursor.rest (.hole 1 start :: outer) := by
  induction scans generalizing depth with
  | @finish cursor blank blanks all =>
      have shut : depth = 0 := by simpa [Token.bracesBalance] using balance
      have whole : cursor.rest.take blank = cursor.rest :=
        List.take_of_length_le (List.drop_eq_nil_iff.mp (cursor.rest_advance _ _ ▸ all))
      have gap := calm _ (.here blanks)
      rw [whole] at gap
      rw [shut]
      exact skips_calm gap
  | @token cursor blank c rest lexeme tokens blanks front read later ih =>
      have gap : Skips (.hole (depth + 1) start :: outer) (cursor.rest.take blank)
          (.hole (depth + 1) start :: outer) := skips_calm (calm _ (.here blanks))
      have split : cursor.rest = cursor.rest.take blank ++ ((c :: rest).take lexeme.size
          ++ ((cursor.advance blank).advance lexeme.size).rest) := by
        rw [Cursor.rest_advance, front, List.take_append_drop, ← front, Cursor.rest_advance,
          List.take_append_drop]
      have others {depth' : Nat} (balance : Token.bracesBalance depth' tokens = true) :=
        ih (fun gap inside => calm gap (.later blanks front read inside)) balance
      rw [split]
      refine gap.append ?_
      rcases read_skips read with ⟨opens, brace⟩ | ⟨closes, brace⟩ | ⟨other, passed⟩
      · rw [Token.bracesBalance, Cursor.kind_token_plain _ opens] at balance
        rw [brace]
        exact (Skips.moves fun _ _ => .opens).append (others balance)
      · rw [Token.bracesBalance, Cursor.kind_token_plain _ closes] at balance
        simp only [Bool.and_eq_true, decide_eq_true_eq] at balance
        obtain ⟨fewer, rfl⟩ := Nat.exists_eq_succ_of_ne_zero (Nat.ne_of_gt balance.1)
        rw [brace]
        exact (Skips.moves fun _ _ => .closesInner (by omega)).append (others balance.2)
      · rw [Token.bracesBalance_other] at balance
        · exact (passed _ _ _).append (others balance)
        · exact fun opens => (other _ (Cursor.kind_token_mark _ opens)).1 rfl
        · exact fun closes => (other _ (Cursor.kind_token_mark _ closes)).2 rfl

open Lexeme in
theorem template_hole {chars : List Char} (skips : Skips [.hole 1 0] chars [.hole 1 0]) :
    ∃ lexeme, template ('$' :: '\x7b' :: (chars ++ ['\x7d', '`'])) = .ok lexeme ∧
      lexeme.kind = .template [.hole (String.ofList chars) 3] ∧
      lexeme.text.toList = '`' :: '$' :: '\x7b' :: (chars ++ ['\x7d', '`']) ∧
      lexeme.size = lexeme.text.toList.length := by
  have skipped : skip [.hole 1 0] (1 + 2) (chars ++ ['\x7d', '`']) = .ok (3 + chars.length + 1) := by
    have closing : skip [.hole 1 0] (3 + chars.length) (['\x7d'] ++ ['`'])
        = skip [] (3 + chars.length + 1) ['`'] := (Moves.closes (Nat.le_refl 1)).skip
    exact (skips 3 ['\x7d', '`']).trans (closing.trans (by rw [skip]))
  have covered : 3 + chars.length + 1 - (1 + 2) = chars.length + 1 := by omega
  have read : pieces 1 [] [] ('$' :: '\x7b' :: (chars ++ ['\x7d', '`']))
      = .ok ([.hole (String.ofList chars) 3], chars.length + 5) := by
    rw [pieces, skipped]
    simp only [covered, Nat.add_sub_cancel, List.take_left, flush, List.isEmpty_nil, if_true,
      List.nil_append]
    rw [show chars ++ ['\x7d', '`'] = (chars ++ ['\x7d']) ++ ['`'] by simp,
      show chars.length + 1 = (chars ++ ['\x7d']).length by simp, List.drop_left, pieces]
    simp only [flush, List.isEmpty_nil, if_true, List.nil_append, List.reverse_singleton]
    congr 2
    omega
  simp only [template, read]
  have length : ('$' :: '\x7b' :: (chars ++ ['\x7d', '`'])).length = chars.length + 5 - 1 := by
    simp
  have text : (String.ofList
      ('`' :: ('$' :: '\x7b' :: (chars ++ ['\x7d', '`'])).take (chars.length + 5 - 1))).toList
      = '`' :: '$' :: '\x7b' :: (chars ++ ['\x7d', '`']) := by
    rw [String.toList_ofList, ← length, List.take_length]
  refine ⟨_, rfl, rfl, text, ?_⟩
  change max (chars.length + 5) 1 = _
  rw [text, List.length_cons, length]
  omega

theorem Cursor.advance_zero (cursor : Cursor) : cursor.advance 0 = cursor := rfl

theorem Scans.single {cursor : Cursor} {c : Char} {rest : List Char} {lexeme : Lexeme}
    (front : cursor.rest = c :: rest) (ink : Trivia.size 0 cursor.rest = .ok 0)
    (read : Lexeme.read cursor.last c rest = .ok lexeme)
    (all : lexeme.size = cursor.rest.length) :
    Scans cursor [cursor.token lexeme, ⟨.endOfInput, "", cursor.finish⟩] := by
  have ends : (cursor.advance lexeme.size).rest = [] := by
    rw [Cursor.rest_advance, all, List.drop_length]
  have last : (cursor.advance lexeme.size).pos = cursor.finish := by
    rw [Cursor.pos_advance, all, List.take_length, Cursor.finish]
  have finish : Scans (cursor.advance lexeme.size)
      [⟨.endOfInput, "", ((cursor.advance lexeme.size).advance 0).pos⟩] :=
    .finish (by rw [ends, Trivia.size]) (by rw [Cursor.rest_advance, ends, List.drop_nil])
  rw [Cursor.advance_zero, last] at finish
  have token := Scans.token ink (cursor.advance_zero.symm ▸ front)
    (cursor.advance_zero.symm ▸ read) (cursor.advance_zero.symm ▸ finish)
  rwa [Cursor.advance_zero] at token

/-- A hole ends at its own closing brace: a text that can be read, with balanced braces and with no
brace, quote or backtick in its comments, is the source of a hole when it stands in one. -/
theorem tokenizeAt_hole {text : String} {pos : Position} {tokens : List Token}
    (done : tokenizeAt text pos = .ok tokens) (balance : Token.bracesBalance 0 tokens = true)
    (calm : ∀ gap, (Cursor.start text pos).Gap gap → ∀ c ∈ gap, Calm c) (origin : Position) :
    tokenizeAt ("`$\x7b" ++ text ++ "\x7d`") origin =
      .ok [⟨.template [.hole text (origin.clamp.after ['`', '$', '\x7b'])],
          "`$\x7b" ++ text ++ "\x7d`", origin.clamp⟩,
        ⟨.endOfInput, "", origin.clamp.after ("`$\x7b" ++ text ++ "\x7d`").toList⟩] := by
  have skips : Lexeme.Skips [.hole 1 0] text.toList [.hole 1 0] :=
    (Scans.tokenizeAt_eq_ok.mp done).skips calm balance 0 []
  obtain ⟨lexeme, read, kind, spelling, size⟩ := template_hole skips
  have whole : ("`$\x7b" ++ text ++ "\x7d`").toList
      = '`' :: '$' :: '\x7b' :: (text.toList ++ ['\x7d', '`']) := by simp
  generalize "`$\x7b" ++ text ++ "\x7d`" = source at whole ⊢
  have same : lexeme.text = source := String.toList_inj.mp (spelling.trans whole.symm)
  have blanks : Trivia.size 0 source.toList = .ok 0 := by
    rw [whole, Trivia.size.eq_3 _ _ _ (by simp) (by simp), if_neg (by decide)]
  have scans : Scans (Cursor.start source origin) _ :=
    .single whole blanks read (by rw [size, same]; rfl)
  have first : (Cursor.start source origin).token lexeme
      = ⟨.template [.hole text (origin.clamp.after ['`', '$', '\x7b'])], source, origin.clamp⟩ := by
    have taken : (Cursor.start source origin).rest.take 3 = ['`', '$', '\x7b'] := by
      change source.toList.take 3 = _
      rw [whole]
      rfl
    simp only [Cursor.token, kind, same, List.map_cons, List.map_nil, Cursor.piece,
      Cursor.pos_advance, taken, String.ofList_toList]
    rfl
  rw [first] at scans
  exact Scans.tokenizeAt_eq_ok.mpr scans

theorem tokenizeAt_hole_nested :
    tokenizeAt ("`$\x7b" ++ "\x7b a: '\x7d' + `$\x7b\"\x7b\"\x7d` \x7d" ++ "\x7d`") .start =
      .ok [⟨.template [.hole "\x7b a: '\x7d' + `$\x7b\"\x7b\"\x7d` \x7d" ⟨1, 4⟩],
          "`$\x7b" ++ "\x7b a: '\x7d' + `$\x7b\"\x7b\"\x7d` \x7d" ++ "\x7d`", ⟨1, 1⟩⟩,
        ⟨.endOfInput, "", ⟨1, 27⟩⟩] := by
  have read : tokenizeAt "\x7b a: '\x7d' + `$\x7b\"\x7b\"\x7d` \x7d" .start =
      .ok [⟨.mark .openBrace, "\x7b", ⟨1, 1⟩⟩, ⟨.ident, "a", ⟨1, 3⟩⟩, ⟨.mark .colon, ":", ⟨1, 4⟩⟩,
        ⟨.text, "\x7d", ⟨1, 6⟩⟩, ⟨.mark .plus, "+", ⟨1, 10⟩⟩,
        ⟨.template [.hole "\"\x7b\"" ⟨1, 15⟩], "`$\x7b\"\x7b\"\x7d`", ⟨1, 12⟩⟩,
        ⟨.mark .closeBrace, "\x7d", ⟨1, 21⟩⟩, ⟨.endOfInput, "", ⟨1, 22⟩⟩] := by cbv
  exact tokenizeAt_hole read (by rfl) (fun gap found => found.calm (by simp [Cursor.start])) .start

end Rill

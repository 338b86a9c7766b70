import Rill.Proofs.Spelling

/-!
# Where lexical errors are

A text that is no row of tokens has a first place where reading goes wrong: a string, a template or
a comment that is left open, an escape or a number that is none, or a character that starts no
token. The error points there.
-/

set_option autoImplicit false

namespace Rill

namespace LexReason

def ShowsAt : LexReason → List Char → Prop
  | unterminatedText, chars => ∃ quote rest, chars = quote :: rest ∧ (quote = '"' ∨ quote = '\'')
  | unterminatedTemplate, chars => ∃ rest, chars = '`' :: rest
  | unterminatedComment, chars => ∃ rest, chars = '/' :: '*' :: rest ∧ ¬ ['*', '/'] <:+: rest
  | invalidEscape text, chars => ∃ rest, chars = '\\' :: (text.toList ++ rest)
  | invalidNumber text, chars => text ≠ "" ∧ ∃ rest, chars = text.toList ++ rest
  | unexpectedChar c, chars => ∃ rest, chars = c :: rest

end LexReason

def LexProblem.Shows (problem : LexProblem) (chars : List Char) : Prop :=
  problem.reason.ShowsAt (chars.drop problem.offset)

namespace Trivia

theorem blockEnd_none (offset : Nat) (chars : List Char) (open_ : blockEnd offset chars = none) :
    ¬ ['*', '/'] <:+: chars := by
  fun_induction blockEnd offset chars with
  | case1 => cases open_
  | case2 offset c rest far ih =>
    intro bad
    obtain front | later := List.infix_cons_iff.mp bad
    · obtain ⟨rfl, tail, rfl⟩ := List.cons_prefix_cons.mp front
      exact far tail rfl rfl
    · exact ih open_ later
  | case3 => simp

theorem size_shows (offset : Nat) (chars : List Char) {problem : LexProblem}
    (failed : size offset chars = .error problem) :
    offset ≤ problem.offset ∧ problem.reason.ShowsAt (chars.drop (problem.offset - offset)) := by
  fun_induction size offset chars with
  | case1 offset rest line ih =>
    obtain ⟨later, shows⟩ := ih failed
    refine ⟨by omega, ?_⟩
    rw [List.drop_drop] at shows
    obtain ⟨far, same⟩ := Nat.exists_eq_add_of_le later
    rw [same, show offset + 2 + line + far - offset = far + line + 2 by omega]
    rw [same, Nat.add_sub_cancel_left, Nat.add_comm] at shows
    exact shows
  | case2 offset rest open_ =>
    cases failed
    refine ⟨Nat.le_refl _, ?_⟩
    rw [Nat.sub_self]
    exact ⟨rest, rfl, blockEnd_none 0 rest open_⟩
  | case3 offset rest block found ih =>
    obtain ⟨later, shows⟩ := ih failed
    refine ⟨by omega, ?_⟩
    rw [List.drop_drop] at shows
    obtain ⟨far, same⟩ := Nat.exists_eq_add_of_le later
    rw [same, show offset + 2 + block + far - offset = far + block + 2 by omega]
    rw [same, Nat.add_sub_cancel_left, Nat.add_comm] at shows
    exact shows
  | case4 offset c rest _ _ _ ih =>
    obtain ⟨later, shows⟩ := ih failed
    refine ⟨by omega, ?_⟩
    rw [show problem.offset - offset = problem.offset - (offset + 1) + 1 by omega]
    exact shows
  | case5 => cases failed
  | case6 => cases failed

end Trivia

namespace Lexeme

/-! ## Strings and templates -/

theorem hexEscape_shows {letter : Char} {count : Nat} {chars : List Char} {reason : LexReason}
    (failed : hexEscape letter count chars = .error reason) :
    reason.ShowsAt ('\\' :: letter :: chars) := by
  simp only [hexEscape] at failed
  split at failed
  · cases failed
  · cases failed
    have front : (chars.take count).takeWhile (fun c => (hexValue? c).isSome) <+: chars :=
      (List.takeWhile_prefix _).trans (List.take_prefix count chars)
    obtain ⟨rest, same⟩ := front
    exact ⟨rest, by rw [String.toList_ofList, List.cons_append, same]⟩

theorem escape_shows {chars : List Char} {reason : LexReason}
    (failed : escape chars = .error reason) : reason.ShowsAt ('\\' :: chars) := by
  unfold escape at failed
  split at failed
  case h_1 => cases failed; exact ⟨[], rfl⟩
  case h_6 | h_7 | h_8 => exact hexEscape_shows failed
  case h_9 c tail _ _ _ _ _ _ _ =>
    split at failed
    · cases failed
    · cases failed
      exact ⟨tail, by simp⟩
  all_goals cases failed

theorem contents_shows (quote : Char) (quotes : quote = '"' ∨ quote = '\'') (whole : List Char)
    (offset : Nat) (before chars : List Char) {problem : LexProblem}
    (here : (quote :: whole).drop offset = chars)
    (failed : contents quote offset before chars = .error problem) :
    problem.Shows (quote :: whole) := by
  fun_induction contents quote offset before chars with
  | case1 =>
    cases failed
    exact ⟨quote, whole, rfl, quotes⟩
  | case2 => cases failed
  | case3 offset before rest reason bad =>
    cases failed
    rw [LexProblem.Shows, here]
    exact escape_shows bad
  | case4 offset before rest meant size read notQuote ih =>
    obtain ⟨spelling, tail, rfl, same, -⟩ := escape_spells read
    simp only at same
    subst same
    refine ih ?_ failed
    rw [← List.drop_drop, here, List.drop_succ_cons, Nat.add_sub_cancel]
  | case5 offset before c rest notQuote notEscape ih =>
    refine ih ?_ failed
    rw [← List.drop_drop, here]
    rfl

def Opened (whole : List Char) (stack : List Nesting) : Prop :=
  ∀ level ∈ stack, level.unterminated.Shows whole

theorem Moves.opened {offset : Nat} {stack later : List Nesting} {passed ahead whole : List Char}
    (moves : Moves offset stack passed ahead later)
    (here : whole.drop offset = passed ++ ahead) (opened : Opened whole stack) :
    Opened whole later := by
  have outer : ∀ {level : Nesting} {rest : List Nesting}, Opened whole (level :: rest) →
      Opened whole rest := fun opened other inside => opened other (List.mem_cons_of_mem _ inside)
  have push : ∀ {level : Nesting} {rest : List Nesting}, level.unterminated.Shows whole →
      Opened whole rest → Opened whole (level :: rest) := by
    intro level rest shows opened other inside
    rcases List.mem_cons.mp inside with rfl | later
    · exact shows
    · exact opened other later
  have top : ∀ {level : Nesting} {rest : List Nesting}, Opened whole (level :: rest) →
      level.unterminated.Shows whole := fun opened => opened _ List.mem_cons_self
  cases moves with
  | opens | closesInner =>
      have start := top opened
      exact push start (outer opened)
  | closes | unquote | untick => exact outer opened
  | quote quote =>
      refine push ?_ opened
      show LexReason.ShowsAt _ (whole.drop offset)
      rw [here]
      exact ⟨_, _, rfl, quote⟩
  | tick =>
      refine push ?_ opened
      show LexReason.ShowsAt _ (whole.drop offset)
      rw [here]
      exact ⟨_, rfl⟩
  | hole =>
      have start := top opened
      exact push start opened
  | code | quotedEscape | quoted | templateEscape | template => exact opened

theorem skip_shows (whole : List Char) (stack : List Nesting) (offset : Nat) (chars : List Char)
    (quotes : Quotes stack) (opened : Opened whole stack) (here : whole.drop offset = chars)
    {problem : LexProblem} (failed : skip stack offset chars = .error problem) :
    problem.Shows whole := by
  induction size : chars.length using Nat.strong_induction_on generalizing stack offset chars with
  | _ count ih =>
  cases stack with
  | nil =>
      rw [skip] at failed
      cases failed
  | cons level outer =>
      obtain bad | ⟨passed, ahead, later, rfl, more, moves⟩ := skip_step quotes offset chars
      · rw [bad] at failed
        cases failed
        exact opened level List.mem_cons_self
      · have shorter : ahead.length < count := by
          have := List.length_pos_iff.mpr more
          rw [← size, List.length_append]
          omega
        rw [moves.skip] at failed
        refine ih _ shorter later _ ahead (moves.quotes quotes) (moves.opened here opened) ?_ failed
          rfl
        rw [← List.drop_drop, here, List.drop_left]

theorem pieces_shows (whole : List Char) (offset : Nat) (cooked : List Char)
    (before : List RawPiece) (chars : List Char) (here : ('`' :: whole).drop offset = chars)
    {problem : LexProblem} (failed : pieces offset cooked before chars = .error problem) :
    problem.Shows ('`' :: whole) := by
  fun_induction pieces offset cooked before chars with
  | case1 =>
    cases failed
    exact ⟨whole, rfl⟩
  | case2 => cases failed
  | case3 offset cooked before rest reason bad =>
    cases failed
    rw [LexProblem.Shows, here]
    exact escape_shows bad
  | case4 offset cooked before rest meant size read ih =>
    obtain ⟨spelling, tail, rfl, same, -⟩ := escape_spells read
    simp only at same
    subst same
    refine ih ?_ failed
    rw [← List.drop_drop, here, List.drop_succ_cons, Nat.add_sub_cancel]
  | case5 offset cooked before rest problem' bad =>
    cases failed
    refine skip_shows ('`' :: whole) [.hole 1 0] (offset + 2) rest (.hole 1 0) ?_ ?_ bad
    · intro level inside
      rw [List.mem_singleton.mp inside]
      exact ⟨whole, rfl⟩
    · rw [← List.drop_drop, here]
      rfl
  | case6 offset cooked before rest finish skipped covered source ih =>
    obtain ⟨-, low, -⟩ := skip_append _ _ _ (.hole 1 0) skipped []
    refine ih ?_ failed
    rw [show finish = offset + 2 + covered by omega, ← List.drop_drop, ← List.drop_drop, here]
    rfl
  | case7 offset cooked before c rest notTick notEscape far ih =>
    refine ih ?_ failed
    rw [← List.drop_drop, here]
    rfl

/-! ## Numbers and other tokens -/

theorem number_shows {c : Char} {rest : List Char} {problem : LexProblem}
    (long : 0 < numberSize (c :: rest)) (failed : number c rest = .error problem) :
    problem.Shows (c :: rest) := by
  have front : ∀ count, 0 < count →
      LexProblem.Shows ⟨.invalidNumber (String.ofList ((c :: rest).take count)), 0⟩ (c :: rest) := by
    intro count far
    refine ⟨?_, (c :: rest).drop count, by simp⟩
    obtain ⟨count, rfl⟩ := Nat.exists_eq_add_one_of_ne_zero far.ne'
    simp
  simp only [number, ← numberSize.eq_def] at failed
  split at failed
  · cases failed
    exact front _ (by omega)
  · split at failed
    · cases failed
      exact front _ long
    · cases failed

theorem read_shows {last : Option Char} {c : Char} {rest : List Char} {problem : LexProblem}
    (failed : read last c rest = .error problem) : problem.Shows (c :: rest) := by
  unfold read at failed
  split at failed
  · cases failed
  split at failed
  · next quote =>
    cases bad : contents c 1 [] rest with
    | ok found =>
        simp only [quoted, bad] at failed
        cases failed
    | error problem' =>
        simp only [quoted, bad] at failed
        cases failed
        exact contents_shows c quote rest 1 [] rest rfl bad
  split at failed
  · next tick =>
    subst tick
    cases bad : pieces 1 [] [] rest with
    | ok found =>
        simp only [template, bad] at failed
        cases failed
    | error problem' =>
        simp only [template, bad] at failed
        cases failed
        exact pieces_shows rest 1 [] [] rest rfl bad
  split at failed
  · next digit =>
    refine number_shows ?_ failed
    have nonempty : 0 < digitCount (c :: rest) := digitCount_pos digit
    have sign : signSize (c :: rest) = 0 := by
      refine if_neg ?_
      rintro (rfl | rfl) <;> exact absurd digit (by decide)
    rw [numberSize, sign, List.drop_zero, sizeOfDigits]
    omega
  split at failed
  · next sign =>
    refine number_shows ?_ failed
    have one : signSize (c :: rest) = 1 := if_pos sign.1
    rw [numberSize, one]
    omega
  split at failed
  · cases failed
  · unfold marked at failed
    split at failed
    · cases failed
    · cases failed
      exact ⟨rest, rfl⟩

end Lexeme

/-! ## Any text -/

theorem Lexed.scan_shows (cursor : Cursor) (before : List Token) {found : List Token}
    {error : LexError} (failed : Lexed.scan cursor before = ⟨found, some error⟩) :
    ∃ front back, cursor.rest = front ++ back ∧ error.pos = cursor.pos.after front
      ∧ error.reason.ShowsAt back := by
  have place : ∀ (cursor : Cursor) (problem : LexProblem), problem.Shows cursor.rest →
      ∃ front back, cursor.rest = front ++ back
        ∧ (cursor.problem problem).pos = cursor.pos.after front
        ∧ (cursor.problem problem).reason.ShowsAt back := fun cursor problem shows =>
    ⟨_, _, (List.take_append_drop problem.offset cursor.rest).symm, cursor.pos_advance .exact _, shows⟩
  have further : ∀ (cursor : Cursor) (count : Nat), (∃ front back,
      (cursor.advance count).rest = front ++ back
        ∧ error.pos = (cursor.advance count).pos.after front ∧ error.reason.ShowsAt back) →
      ∃ front back, cursor.rest = front ++ back ∧ error.pos = cursor.pos.after front
        ∧ error.reason.ShowsAt back := by
    rintro cursor count ⟨front, back, split, pos, shows⟩
    refine ⟨cursor.rest.take count ++ front, back, ?_, ?_, shows⟩
    · rw [List.append_assoc, ← split, Cursor.rest_advance, List.take_append_drop]
    · rw [pos, Position.after_append, Cursor.pos_advance]
  induction cursor, before using Lexed.scan_induction with
  | unclosed cursor before problem blanks =>
      rw [Lexed.scan_unclosed blanks] at failed
      cases failed
      exact place cursor problem (Trivia.size_shows 0 cursor.rest blanks).2
  | finish cursor before blank blanks all =>
      rw [Lexed.scan_end blanks all] at failed
      cases failed
  | unread cursor before blank c rest problem blanks front read =>
      rw [Lexed.scan_unread blanks front read] at failed
      cases failed
      refine further cursor blank (place _ problem ?_)
      rw [front]
      exact Lexeme.read_shows read
  | token cursor before blank c rest lexeme blanks front read ih =>
      rw [Lexed.scan_token blanks front read] at failed
      exact further cursor blank (further _ lexeme.size (ih failed))

theorem tokenizeAt_shows {text : String} {start : Position} {error : LexError}
    (failed : tokenizeAt text start = .error error) :
    ∃ front back, text.toList = front ++ back ∧ error.pos = start.clamp.after front
      ∧ error.reason.ShowsAt back := by
  cases lexed : lexAt text start with
  | mk found stop =>
      rw [tokenizeAt, lexed] at failed
      cases stop with
      | none => cases failed
      | some error' =>
          cases failed
          exact Lexed.scan_shows _ _ lexed

end Rill

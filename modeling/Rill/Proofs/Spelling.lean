import Mathlib
import Rill.Proofs.Lexing

/-!
# How tokens are spelled

The characters that the lexer passes over between tokens, and those that it reads a token from. A
token of any kind but one is spelled as its text says. A string is spelled by its contents between
quotes, some of them escaped, and a hole of a template stands in the template as it is.
-/

set_option autoImplicit false

namespace Rill

/-! ## Between tokens -/

namespace Trivia

/-- Characters that mean nothing where they stand before `after`: spaces, tabs, carriage returns
and whole comments. A comment that ends with its line reaches to the line feed or to the end. -/
inductive Blank : List Char → List Char → Prop
  | none (after : List Char) : Blank [] after
  | space {c : Char} {front after : List Char} (blank : c = ' ' ∨ c = '\t' ∨ c = '\r')
      (later : Blank front after) : Blank (c :: front) after
  | line {text after : List Char} (inside : '\n' ∉ text)
      (ends : after = [] ∨ ∃ more, after = '\n' :: more) : Blank ('/' :: '/' :: text) after
  | block {text front after : List Char} (inside : ¬ ['*', '/'] <:+: text)
      (later : Blank front after) : Blank ('/' :: '*' :: (text ++ '*' :: '/' :: front)) after

theorem blockEnd_spells (offset : Nat) (chars : List Char) {finish : Nat}
    (done : blockEnd offset chars = some finish) :
    ∃ text rest, chars = text ++ '*' :: '/' :: rest ∧ finish = offset + text.length + 2
      ∧ ¬ ['*', '/'] <:+: text := by
  fun_induction blockEnd offset chars with
  | case1 offset rest =>
    cases done
    exact ⟨[], rest, rfl, rfl, by simp⟩
  | case2 offset c rest far ih =>
    obtain ⟨text, after, rfl, rfl, inside⟩ := ih done
    refine ⟨c :: text, after, rfl, by simp only [List.length_cons]; omega, fun bad => ?_⟩
    obtain front | later := List.infix_cons_iff.mp bad
    · obtain ⟨rfl, next⟩ := List.cons_prefix_cons.mp front
      obtain ⟨tail, rfl⟩ := next
      exact far _ rfl rfl
    · exact inside later
  | case3 => cases done

theorem size_feed (offset : Nat) (more : List Char) : size offset ('\n' :: more) = .ok offset := by
  rw [size.eq_3 _ '\n' more (fun _ bad _ => absurd bad (by decide))
    (fun _ bad _ => absurd bad (by decide)), if_neg (by decide)]

theorem line_spells (rest : List Char) :
    ∃ text after, rest = text ++ after ∧ text.length = (rest.takeWhile (fun c => c ≠ '\n')).length
      ∧ rest.drop text.length = after ∧ '\n' ∉ text
      ∧ (after = [] ∨ ∃ more, after = '\n' :: more) := by
  induction rest with
  | nil => exact ⟨[], [], rfl, rfl, rfl, by simp, .inl rfl⟩
  | cons c rest ih =>
      by_cases feed : c = '\n'
      · subst feed
        exact ⟨[], _, rfl, by simp, rfl, by simp, .inr ⟨rest, rfl⟩⟩
      · obtain ⟨text, after, rfl, size, left, inside, ends⟩ := ih
        refine ⟨c :: text, after, rfl, ?_, left, ?_, ends⟩
        · simp [feed, size]
        · simp [inside, Ne.symm feed]

theorem size_blank (offset : Nat) (chars : List Char) {finish : Nat}
    (done : size offset chars = .ok finish) :
    ∃ front after, chars = front ++ after ∧ finish = offset + front.length
      ∧ Blank front after ∧ size finish after = .ok finish := by
  fun_induction size offset chars with
  | case1 offset rest line ih =>
    obtain ⟨text, after, whole, size, left, inside, ends⟩ := line_spells rest
    have size : text.length = line := size
    rw [← size, left] at done
    -- A line comment ends before a line feed or at the end of the text, where no blank follows.
    have stops : Trivia.size (offset + 2 + text.length) after = .ok (offset + 2 + text.length) := by
      rcases ends with rfl | ⟨more, rfl⟩
      · rw [Trivia.size]
      · exact size_feed _ _
    rw [stops] at done
    cases done
    refine ⟨'/' :: '/' :: text, after, by rw [whole]; rfl, ?_, .line inside ends, stops⟩
    simp only [List.length_cons]
    omega
  | case2 => cases done
  | case3 offset rest block found ih =>
    obtain ⟨text, tail, rfl, rfl, inside⟩ := blockEnd_spells 0 rest found
    have left : (text ++ '*' :: '/' :: tail).drop (0 + text.length + 2) = tail := by
      rw [Nat.zero_add, ← List.drop_drop, List.drop_left]
      rfl
    rw [left] at ih done
    obtain ⟨front, after, rfl, rfl, later, stops⟩ := ih done
    refine ⟨'/' :: '*' :: (text ++ '*' :: '/' :: front), after, by simp, ?_, .block inside later,
      stops⟩
    simp only [List.length_cons, List.length_append]
    omega
  | case4 offset c rest _ _ blank ih =>
    obtain ⟨front, after, rfl, rfl, later, stops⟩ := ih done
    exact ⟨c :: front, after, rfl, by simp only [List.length_cons]; omega, .space blank later, stops⟩
  | case5 offset c rest notLine notBlock ink =>
    cases done
    exact ⟨[], c :: rest, rfl, rfl, .none _, by rw [size.eq_3 _ _ _ notLine notBlock, if_neg ink]⟩
  | case6 offset =>
    cases done
    exact ⟨[], [], rfl, rfl, .none _, by rw [size]⟩

end Trivia

/-! ## Strings -/

namespace Lexeme

def hexNumber (digits : List Char) : Nat :=
  digits.foldl (fun value c => 16 * value + (hexValue? c).getD 0) 0

/-- What the characters after a backslash stand for. -/
inductive Escape : List Char → Char → Prop
  | feed : Escape ['n'] '\n'
  | tab : Escape ['t'] '\t'
  | return_ : Escape ['r'] '\r'
  | zero : Escape ['0'] '\x00'
  | self {c : Char} (plain : c ∈ ['\\', '"', '\'', '`', '$']) : Escape [c] c
  | code {letter : Char} {count : Nat} {digits : List Char}
      (form : (letter, count) ∈ [('x', 2), ('u', 4), ('U', 8)]) (full : digits.length = count)
      (hex : ∀ c ∈ digits, (hexValue? c).isSome) (valid : (hexNumber digits).isValidChar) :
      Escape (letter :: digits) (Char.ofNat (hexNumber digits))

/-- What characters between two quotes stand for. -/
inductive Contents (quote : Char) : List Char → List Char → Prop
  | nil : Contents quote [] []
  | plain {c : Char} {raw cooked : List Char} (notQuote : c ≠ quote) (notEscape : c ≠ '\\')
      (later : Contents quote raw cooked) : Contents quote (c :: raw) (c :: cooked)
  | escape {spelling raw cooked : List Char} {meant : Char} (escape : Escape spelling meant)
      (later : Contents quote raw cooked) :
      Contents quote ('\\' :: (spelling ++ raw)) (meant :: cooked)

theorem hexEscape_spells {letter : Char} {count : Nat} {chars : List Char} {found : Char × Nat}
    (form : (letter, count) ∈ [('x', 2), ('u', 4), ('U', 8)])
    (done : hexEscape letter count chars = .ok found) :
    ∃ digits rest, chars = digits ++ rest ∧ found.2 = digits.length + 2
      ∧ Escape (letter :: digits) found.1 := by
  simp only [hexEscape] at done
  split at done
  · next full =>
    cases done
    have all : (chars.take count).takeWhile (fun c => (hexValue? c).isSome) = chars.take count := by
      refine (List.takeWhile_prefix _).eq_of_length ?_
      have taken := (List.takeWhile_prefix (fun c => (hexValue? c).isSome)
        (l := chars.take count)).length_le
      rw [full.1, List.length_take] at taken
      rw [full.1, List.length_take]
      omega
    rw [all] at full ⊢
    refine ⟨chars.take count, chars.drop count, (List.take_append_drop _ _).symm,
      by rw [full.1], .code form full.1 (List.takeWhile_eq_self_iff.mp all) full.2⟩
  · cases done

theorem escape_spells {chars : List Char} {found : Char × Nat} (done : escape chars = .ok found) :
    ∃ spelling rest, chars = spelling ++ rest ∧ found.2 = spelling.length + 1
      ∧ Escape spelling found.1 := by
  unfold escape at done
  split at done
  case h_1 => cases done
  case h_6 | h_7 | h_8 =>
    obtain ⟨digits, rest, rfl, size, spells⟩ := hexEscape_spells (by simp) done
    exact ⟨_ :: digits, rest, rfl, size, spells⟩
  case h_9 c tail _ _ _ _ _ _ _ =>
    split at done
    · next plain =>
      cases done
      exact ⟨[c], tail, rfl, rfl, .self (by simpa using plain)⟩
    · cases done
  case h_2 tail => cases done; exact ⟨_, tail, rfl, rfl, .feed⟩
  case h_3 tail => cases done; exact ⟨_, tail, rfl, rfl, .tab⟩
  case h_4 tail => cases done; exact ⟨_, tail, rfl, rfl, .return_⟩
  case h_5 tail => cases done; exact ⟨_, tail, rfl, rfl, .zero⟩

theorem contents_spells (quote : Char) (offset : Nat) (before chars : List Char)
    {found : String × Nat} (done : contents quote offset before chars = .ok found) :
    ∃ raw cooked rest, chars = raw ++ quote :: rest ∧ found.2 = offset + raw.length + 1
      ∧ found.1.toList = before.reverse ++ cooked ∧ Contents quote raw cooked := by
  fun_induction contents quote offset before chars with
  | case1 => cases done
  | case2 offset before rest =>
    cases done
    exact ⟨[], [], rest, rfl, rfl, by simp, .nil⟩
  | case3 => cases done
  | case4 offset before rest meant size read notQuote ih =>
    obtain ⟨spelling, tail, rfl, same, spells⟩ := escape_spells read
    simp only at same
    subst same
    rw [Nat.add_sub_cancel, List.drop_left] at ih done
    obtain ⟨raw, cooked, after, rfl, size, text, later⟩ := ih done
    refine ⟨'\\' :: (spelling ++ raw), meant :: cooked, after, by simp, ?_, ?_, .escape spells later⟩
    · simp only [size, List.length_cons, List.length_append]
      omega
    · simp [text]
  | case5 offset before c rest notQuote notEscape ih =>
    obtain ⟨raw, cooked, after, rfl, size, text, later⟩ := ih done
    refine ⟨c :: raw, c :: cooked, after, rfl, ?_, ?_, .plain notQuote notEscape later⟩
    · simp only [size, List.length_cons]
      omega
    · simp [text]

theorem quoted_spells {quote : Char} {rest : List Char} {lexeme : Lexeme}
    (done : quoted quote rest = .ok lexeme) :
    lexeme.kind = .plain .text ∧ ∃ raw tail, rest = raw ++ quote :: tail
      ∧ lexeme.size = raw.length + 2 ∧ Contents quote raw lexeme.text.toList := by
  cases read : contents quote 1 [] rest with
  | error problem =>
      simp only [quoted, read] at done
      cases done
  | ok found =>
      obtain ⟨raw, cooked, tail, whole, size, text, spells⟩ := contents_spells quote 1 [] rest read
      simp only [quoted, read] at done
      cases done
      refine ⟨rfl, raw, tail, whole, ?_, ?_⟩
      · show max found.2 1 = _
        omega
      · rw [show found.1.toList = cooked from text]
        exact spells

/-! ## Other tokens -/

theorem word_kind (c : Char) (rest : List Char) :
    (word c rest).kind = .plain (match Keyword.ofWord? (word c rest).text with
      | some keyword => .keyword keyword
      | none => .ident) := rfl

theorem word_text (c : Char) (rest : List Char) :
    (word c rest).text.toList = (c :: rest).take (word c rest).size := by
  have front := List.prefix_iff_eq_take.mp (List.takeWhile_prefix isNamePart (l := rest))
  show (String.ofList (c :: rest.takeWhile isNamePart)).toList
    = (c :: rest).take ((rest.takeWhile isNamePart).length + 1)
  rw [String.toList_ofList, List.take_succ_cons, ← front]

theorem number_text {c : Char} {rest : List Char} {lexeme : Lexeme}
    (done : number c rest = .ok lexeme) :
    lexeme.text.toList = (c :: rest).take lexeme.size := by
  obtain ⟨-, -, -, text, size⟩ := (number_eq_ok c rest lexeme).mp done
  rw [text, size, String.toList_ofList]

def Numeric (c : Char) : Prop := c.isDigit = true ∨ c ∈ ['.', 'e', 'E', '+', '-']

instance : DecidablePred Numeric := fun _ => inferInstanceAs (Decidable (_ ∨ _))

theorem digitCount_numeric (chars : List Char) :
    ∀ c ∈ chars.take (digitCount chars), Numeric c := by
  intro c inside
  rw [digitCount, ← List.prefix_iff_eq_take.mp (List.takeWhile_prefix _)] at inside
  exact .inl (List.mem_takeWhile_imp inside)

theorem fractionSize_numeric (chars : List Char) :
    ∀ c ∈ chars.take (fractionSize chars), Numeric c := by
  unfold fractionSize
  split
  · next rest =>
    split
    · intro c inside
      rw [Nat.add_comm, List.take_succ_cons] at inside
      rcases List.mem_cons.mp inside with rfl | digit
      · exact .inr (by decide)
      · exact digitCount_numeric rest c digit
    · simp
  · simp

theorem exponentSize_numeric (chars : List Char) :
    ∀ c ∈ chars.take (exponentSize chars), Numeric c := by
  unfold exponentSize
  split
  · next e rest =>
    split
    · next letter =>
      have first : Numeric e := by rcases letter with rfl | rfl <;> exact .inr (by decide)
      split
      · next s more =>
        split
        · next sign =>
          have second : Numeric s := by rcases sign with rfl | rfl <;> exact .inr (by decide)
          split
          · intro c inside
            rw [Nat.add_comm, List.take_succ_cons, List.take_succ_cons] at inside
            rcases List.mem_cons.mp inside with rfl | inside
            · exact first
            rcases List.mem_cons.mp inside with rfl | digit
            · exact second
            · exact digitCount_numeric more c digit
          · simp
        · split
          · intro c inside
            rw [Nat.add_comm, List.take_succ_cons] at inside
            rcases List.mem_cons.mp inside with rfl | digit
            · exact first
            · exact digitCount_numeric _ c digit
          · simp
      · simp
    · simp
  · simp

theorem sizeOfDigits_numeric (chars : List Char) :
    ∀ c ∈ chars.take (sizeOfDigits chars), Numeric c := by
  intro c inside
  rw [sizeOfDigits, List.take_add, List.take_add] at inside
  simp only [List.mem_append] at inside
  rcases inside with (whole | fraction) | exponent
  · exact digitCount_numeric _ c whole
  · exact fractionSize_numeric _ c fraction
  · exact exponentSize_numeric _ c exponent

theorem number_numeric {c : Char} {rest : List Char} {lexeme : Lexeme}
    (done : number c rest = .ok lexeme) : ∀ d ∈ (c :: rest).take lexeme.size, Numeric d := by
  obtain ⟨-, -, -, -, size⟩ := (number_eq_ok c rest lexeme).mp done
  intro d inside
  rw [size, numberSize, List.take_add] at inside
  rcases List.mem_append.mp inside with sign | digits
  · simp only [signSize] at sign
    split at sign
    · next signed =>
      rw [List.take_succ_cons, List.take_zero, List.mem_singleton] at sign
      subst sign
      rcases signed with rfl | rfl <;> exact .inr (by decide)
    · simp at sign
  · exact sizeOfDigits_numeric _ d digits

theorem word_parts {c : Char} (starts : isNameStart c = true) (rest : List Char) :
    ∀ d ∈ (c :: rest).take (word c rest).size, isNamePart d = true := by
  intro d inside
  rw [← word_text] at inside
  have inside : d ∈ c :: rest.takeWhile isNamePart := by
    simpa [word] using inside
  rcases List.mem_cons.mp inside with rfl | part
  · rw [isNamePart, starts, Bool.true_or]
  · exact List.mem_takeWhile_imp part

theorem mark?_text {chars : List Char} {m : Mark} (found : mark? chars = some m) :
    m.spelling.toList = chars.take m.spelling.length := by
  unfold mark? at found
  split at found
  case h_3 rest =>
    split at found
    · cases found
      rfl
    · cases found
      rfl
  all_goals cases found
  all_goals rfl

theorem marked_text {c : Char} {rest : List Char} {lexeme : Lexeme}
    (done : marked c rest = .ok lexeme) :
    lexeme.text.toList = (c :: rest).take lexeme.size := by
  unfold marked at done
  split at done
  · next m found =>
    cases done
    have long : 1 ≤ m.spelling.length := by cases m <;> decide
    show m.spelling.toList = (c :: rest).take (max m.spelling.length 1)
    rw [Nat.max_eq_left long]
    exact mark?_text found
  · cases done

/-! ## Templates -/

theorem hexEscape_take {letter : Char} {count : Nat} {chars : List Char} {found : Char × Nat}
    (done : hexEscape letter count chars = .ok found) :
    hexEscape letter count (chars.take (found.2 - 2)) = .ok found := by
  have size : found.2 - 2 = count := by
    simp only [hexEscape] at done
    split at done
    · cases done
      omega
    · cases done
  rw [size, hexEscape, List.take_take, Nat.min_self, ← hexEscape]
  exact done

theorem escape_take {chars : List Char} {found : Char × Nat} (done : escape chars = .ok found) :
    escape (chars.take (found.2 - 1)) = .ok found := by
  unfold escape at done
  split at done
  case h_1 => cases done
  case h_6 | h_7 | h_8 =>
    have size : 2 ≤ found.2 := by
      obtain ⟨_, _, _, size, _⟩ := hexEscape_spells (by simp) done
      omega
    obtain ⟨more, same⟩ := Nat.exists_eq_add_of_le size
    have shown := hexEscape_take done
    rw [same, Nat.add_sub_cancel_left] at shown
    rw [same, show 2 + more - 1 = more + 1 by omega, List.take_succ_cons, escape]
    exact shown
  case h_9 c tail n t r zero x u U =>
    split at done
    · next plain =>
      cases done
      show escape [c] = _
      rw [escape.eq_9 _ _ n t r zero x u U, if_pos plain]
    · cases done
  all_goals
    cases done
    rfl

/-- One move over nested material: the levels before it, the characters it passes over, those ahead
of them, and the levels after it. -/
inductive Moves (offset : Nat) : List Nesting → List Char → List Char → List Nesting → Prop
  | opens {depth start : Nat} {outer : List Nesting} {ahead : List Char} :
      Moves offset (.hole depth start :: outer) ['\x7b'] ahead (.hole (depth + 1) start :: outer)
  | closes {depth start : Nat} {outer : List Nesting} {ahead : List Char} (shallow : depth ≤ 1) :
      Moves offset (.hole depth start :: outer) ['\x7d'] ahead outer
  | closesInner {depth start : Nat} {outer : List Nesting} {ahead : List Char}
      (deep : ¬ depth ≤ 1) :
      Moves offset (.hole depth start :: outer) ['\x7d'] ahead (.hole (depth - 1) start :: outer)
  | quote {depth start : Nat} {outer : List Nesting} {c : Char} {ahead : List Char}
      (quote : c = '"' ∨ c = '\'') :
      Moves offset (.hole depth start :: outer) [c] ahead
        (.quoted c offset :: .hole depth start :: outer)
  | tick {depth start : Nat} {outer : List Nesting} {ahead : List Char} :
      Moves offset (.hole depth start :: outer) ['`'] ahead
        (.template offset :: .hole depth start :: outer)
  | code {depth start : Nat} {outer : List Nesting} {c : Char} {ahead : List Char}
      (notOpen : c ≠ '\x7b') (notClose : c ≠ '\x7d') (notQuote : ¬ (c = '"' ∨ c = '\''))
      (notTick : c ≠ '`') :
      Moves offset (.hole depth start :: outer) [c] ahead (.hole depth start :: outer)
  | quotedEscape {quote : Char} {start : Nat} {outer : List Nesting} {c : Char}
      {ahead : List Char} :
      Moves offset (.quoted quote start :: outer) ['\\', c] ahead (.quoted quote start :: outer)
  | unquote {quote : Char} {start : Nat} {outer : List Nesting} {ahead : List Char}
      (plain : quote ≠ '\\') : Moves offset (.quoted quote start :: outer) [quote] ahead outer
  | quoted {quote : Char} {start : Nat} {outer : List Nesting} {c : Char} {ahead : List Char}
      (notQuote : c ≠ quote) (notEscape : c ≠ '\\') :
      Moves offset (.quoted quote start :: outer) [c] ahead (.quoted quote start :: outer)
  | templateEscape {start : Nat} {outer : List Nesting} {c : Char} {ahead : List Char} :
      Moves offset (.template start :: outer) ['\\', c] ahead (.template start :: outer)
  | hole {start : Nat} {outer : List Nesting} {ahead : List Char} :
      Moves offset (.template start :: outer) ['$', '\x7b'] ahead
        (.hole 1 start :: .template start :: outer)
  | untick {start : Nat} {outer : List Nesting} {ahead : List Char} :
      Moves offset (.template start :: outer) ['`'] ahead outer
  | template {start : Nat} {outer : List Nesting} {c : Char} {ahead : List Char}
      (notTick : c ≠ '`') (notEscape : c ≠ '\\') (notHole : c = '$' → ahead.head? ≠ some '\x7b') :
      Moves offset (.template start :: outer) [c] ahead (.template start :: outer)

namespace Moves

variable {offset : Nat} {stack later : List Nesting} {passed ahead : List Char}

theorem skip (moves : Moves offset stack passed ahead later) :
    Lexeme.skip stack offset (passed ++ ahead)
      = Lexeme.skip later (offset + passed.length) ahead := by
  cases moves with
  | opens => rw [List.singleton_append, Lexeme.skip, if_pos rfl]; rfl
  | closes shallow =>
      rw [List.singleton_append, Lexeme.skip, if_neg (by decide), if_pos rfl, if_pos shallow]
      rfl
  | closesInner deep =>
      rw [List.singleton_append, Lexeme.skip, if_neg (by decide), if_pos rfl, if_neg deep]
      rfl
  | @quote _ _ _ c _ quote =>
      have notOpen : c ≠ '\x7b' := by rintro rfl; exact absurd quote (by decide)
      have notClose : c ≠ '\x7d' := by rintro rfl; exact absurd quote (by decide)
      rw [List.singleton_append, Lexeme.skip, if_neg notOpen, if_neg notClose, if_pos quote]
      rfl
  | tick =>
      rw [List.singleton_append, Lexeme.skip, if_neg (by decide), if_neg (by decide),
        if_neg (by decide), if_pos rfl]
      rfl
  | code notOpen notClose notQuote notTick =>
      rw [List.singleton_append, Lexeme.skip, if_neg notOpen, if_neg notClose, if_neg notQuote,
        if_neg notTick]
      rfl
  | quotedEscape => rw [List.cons_append, List.singleton_append, Lexeme.skip]; rfl
  | unquote plain =>
      rw [List.singleton_append, skip.eq_5 _ _ _ _ _ _ (fun _ _ bad _ => plain bad), if_pos rfl]
      rfl
  | quoted notQuote notEscape =>
      rw [List.singleton_append, skip.eq_5 _ _ _ _ _ _ (fun _ _ bad _ => notEscape bad),
        if_neg notQuote]
      rfl
  | templateEscape => rw [List.cons_append, List.singleton_append, Lexeme.skip]; rfl
  | hole => rw [List.cons_append, List.singleton_append, Lexeme.skip]; rfl
  | untick =>
      rw [List.singleton_append, skip.eq_8 _ _ _ '`' _ (fun _ _ bad _ => absurd bad (by decide))
        (fun _ bad _ => absurd bad (by decide)), if_pos rfl]
      rfl
  | template notTick notEscape notHole =>
      rw [List.singleton_append, skip.eq_8 _ _ _ _ _ (fun _ _ bad _ => notEscape bad)
        (fun _ dollar brace => notHole dollar (by rw [brace]; rfl)), if_neg notTick]
      rfl

theorem quotes (moves : Moves offset stack passed ahead later) (quotes : Quotes stack) :
    Quotes later := by
  cases moves with
  | opens | closesInner => exact quotes.tail.cons (by rintro start ⟨⟩)
  | closes | unquote | untick => exact quotes.tail
  | @quote _ _ _ c _ quote =>
      refine quotes.cons fun start same => ?_
      cases same
      exact absurd quote (by decide)
  | tick | hole => exact quotes.cons (by rintro start ⟨⟩)
  | code | quotedEscape | quoted | templateEscape | template => exact quotes

/-- Of the characters ahead, only the first matters, and only where more is to be skipped. -/
theorem congr (moves : Moves offset stack passed ahead later) {other : List Char}
    (same : later ≠ [] → other.head? = ahead.head?) : Moves offset stack passed other later := by
  cases moves with
  | template notTick notEscape notHole =>
      exact .template notTick notEscape fun dollar => same (List.cons_ne_nil _ _) ▸ notHole dollar
  | opens => exact .opens
  | closes shallow => exact .closes shallow
  | closesInner deep => exact .closesInner deep
  | quote quote => exact .quote quote
  | tick => exact .tick
  | code notOpen notClose notQuote notTick => exact .code notOpen notClose notQuote notTick
  | quotedEscape => exact .quotedEscape
  | unquote plain => exact .unquote plain
  | quoted notQuote notEscape => exact .quoted notQuote notEscape
  | templateEscape => exact .templateEscape
  | hole => exact .hole
  | untick => exact .untick

end Moves

/-- Skipping goes on by one move, unless the text ends inside the innermost level. -/
theorem skip_step {level : Nesting} {outer : List Nesting} (quotes : Quotes (level :: outer))
    (offset : Nat) (chars : List Char) :
    skip (level :: outer) offset chars = .error level.unterminated
      ∨ ∃ passed ahead later, chars = passed ++ ahead ∧ passed ≠ []
        ∧ Moves offset (level :: outer) passed ahead later := by
  cases chars with
  | nil => exact .inl (by cases level <;> rw [skip])
  | cons c rest =>
      cases level with
      | hole depth start =>
          refine .inr ⟨[c], rest, ?_⟩
          by_cases opens : c = '\x7b'
          · subst opens
            exact ⟨_, rfl, List.cons_ne_nil _ _, .opens⟩
          by_cases closes : c = '\x7d'
          · subst closes
            by_cases shallow : depth ≤ 1
            · exact ⟨_, rfl, List.cons_ne_nil _ _, .closes shallow⟩
            · exact ⟨_, rfl, List.cons_ne_nil _ _, .closesInner shallow⟩
          by_cases quote : c = '"' ∨ c = '\''
          · exact ⟨_, rfl, List.cons_ne_nil _ _, .quote quote⟩
          by_cases tick : c = '`'
          · subst tick
            exact ⟨_, rfl, List.cons_ne_nil _ _, .tick⟩
          · exact ⟨_, rfl, List.cons_ne_nil _ _, .code opens closes quote tick⟩
      | quoted quote start =>
          by_cases slash : c = '\\'
          · subst slash
            cases rest with
            | nil =>
                have plain : '\\' ≠ quote := fun bad => quotes start (bad ▸ List.mem_cons_self)
                left
                rw [skip.eq_5 _ _ _ _ '\\' [] (by rintro _ _ _ ⟨⟩), if_neg plain, skip]
            | cons d tail => exact .inr ⟨['\\', d], tail, _, rfl, List.cons_ne_nil _ _, .quotedEscape⟩
          by_cases same : c = quote
          · subst same
            exact .inr ⟨[c], rest, _, rfl, List.cons_ne_nil _ _, .unquote slash⟩
          · exact .inr ⟨[c], rest, _, rfl, List.cons_ne_nil _ _, .quoted same slash⟩
      | template start =>
          by_cases slash : c = '\\'
          · subst slash
            cases rest with
            | nil =>
                left
                rw [skip.eq_8 _ _ _ '\\' [] (by rintro _ _ _ ⟨⟩)
                  (fun _ bad _ => absurd bad (by decide)), if_neg (by decide), skip]
            | cons d tail => exact .inr ⟨['\\', d], tail, _, rfl, List.cons_ne_nil _ _, .templateEscape⟩
          by_cases tick : c = '`'
          · subst tick
            exact .inr ⟨['`'], rest, _, rfl, List.cons_ne_nil _ _, .untick⟩
          by_cases hole : c = '$' ∧ rest.head? = some '\x7b'
          · obtain ⟨rfl, brace⟩ := hole
            obtain ⟨tail, rfl⟩ := List.head?_eq_some_iff.mp brace
            exact .inr ⟨['$', '\x7b'], tail, _, rfl, List.cons_ne_nil _ _, .hole⟩
          · exact .inr ⟨[c], rest, _, rfl, List.cons_ne_nil _ _,
              .template tick slash fun dollar brace => hole ⟨dollar, brace⟩⟩

def Braced : List Nesting → Prop
  | [] => True
  | [level] => ∃ depth start, level = .hole depth start
  | _ :: level :: outer => Braced (level :: outer)

theorem Moves.braced {offset : Nat} {stack later : List Nesting} {passed ahead : List Char}
    (moves : Moves offset stack passed ahead later) (braced : Braced stack) :
    Braced later ∧ (later = [] → passed = ['\x7d']) := by
  cases moves with
  | @opens _ _ outer | @closesInner _ _ outer =>
      refine ⟨?_, by rintro ⟨⟩⟩
      cases outer with
      | nil => exact ⟨_, _, rfl⟩
      | cons => exact braced
  | closes =>
      refine ⟨?_, fun _ => rfl⟩
      cases later with
      | nil => trivial
      | cons => exact braced
  | unquote | untick =>
      cases later with
      | nil =>
          obtain ⟨_, _, bad⟩ := braced
          cases bad
      | cons => exact ⟨braced, by rintro ⟨⟩⟩
  | quote | tick | hole => exact ⟨braced, by rintro ⟨⟩⟩
  | code | quotedEscape | quoted | templateEscape | template => exact ⟨braced, by rintro ⟨⟩⟩

theorem skip_front (stack : List Nesting) (offset : Nat) (chars : List Char)
    (quotes : Quotes stack) (braced : Braced stack) {finish : Nat}
    (done : skip stack offset chars = .ok finish) :
    ∃ front after, chars = front ++ after ∧ finish = offset + front.length
      ∧ skip stack offset front = .ok finish
      ∧ (stack ≠ [] → ∃ inside, front = inside ++ ['\x7d']) := by
  induction size : chars.length using Nat.strong_induction_on generalizing stack offset chars with
  | _ count ih =>
  cases stack with
  | nil =>
      rw [skip] at done
      cases done
      exact ⟨[], chars, rfl, rfl, by rw [skip], fun more => absurd rfl more⟩
  | cons level outer =>
      obtain failed | ⟨passed, ahead, later, rfl, more, moves⟩ := skip_step quotes offset chars
      · rw [failed] at done
        cases done
      · have shorter : ahead.length < count := by
          have := List.length_pos_iff.mpr more
          rw [← size, List.length_append]
          omega
        obtain ⟨outside, last⟩ := moves.braced braced
        rw [moves.skip] at done
        obtain ⟨front, after, rfl, whole, same, ends⟩ :=
          ih _ shorter later _ ahead (moves.quotes quotes) outside done rfl
        have alone : Moves offset (level :: outer) passed front later := moves.congr fun inside => by
          obtain ⟨inner, rfl⟩ := ends inside
          cases inner <;> rfl
        refine ⟨passed ++ front, after, by rw [List.append_assoc], ?_, alone.skip.trans same, ?_⟩
        · rw [whole, List.length_append, Nat.add_assoc]
        · intro _
          by_cases inside : later = []
          · subst inside
            rw [skip] at same
            cases same
            have empty : front = [] := List.eq_nil_of_length_eq_zero (by omega)
            exact ⟨[], by rw [last rfl, empty]; rfl⟩
          · obtain ⟨inside, rfl⟩ := ends inside
            exact ⟨passed ++ inside, by rw [List.append_assoc]⟩

/-- The holes of template pieces stand in a text of which `offset` characters come before: the
source of each after its opening and before a closing brace. -/
def Holes (offset : Nat) (chars : List Char) (found : List RawPiece) : Prop :=
  ∀ source start, .hole source start ∈ found → ∃ early late,
    chars = early ++ '$' :: '\x7b' :: (source.toList ++ '\x7d' :: late)
      ∧ start = offset + early.length + 2

theorem Holes.after {offset start : Nat} {chars : List Char} {found : List RawPiece}
    (holes : Holes start chars found) (passed : List Char) (place : start = offset + passed.length) :
    Holes offset (passed ++ chars) found := by
  intro source at_ inside
  obtain ⟨early, late, text, far⟩ := holes source at_ inside
  refine ⟨passed ++ early, late, by rw [text, List.append_assoc], ?_⟩
  rw [far, place, List.length_append]
  omega

theorem mem_flush {cooked : List Char} {before : List RawPiece} {source : String} {start : Nat}
    (inside : .hole source start ∈ flush cooked ++ before) : .hole source start ∈ before := by
  refine (List.mem_append.mp inside).resolve_left fun early => ?_
  unfold flush at early
  split at early
  · cases early
  · cases List.mem_singleton.mp early

theorem pieces_front (offset : Nat) (cooked : List Char) (before : List RawPiece)
    (chars : List Char) {found : List RawPiece × Nat}
    (done : pieces offset cooked before chars = .ok found) :
    ∃ front after, chars = front ++ after ∧ found.2 = offset + front.length
      ∧ pieces offset cooked before front = .ok found ∧ (∃ inside, front = inside ++ ['`'])
      ∧ ∃ here, (∀ source start, .hole source start ∈ found.1 →
          .hole source start ∈ before ∨ .hole source start ∈ here) ∧ Holes offset front here := by
  fun_induction pieces offset cooked before chars with
  | case1 => cases done
  | case2 offset cooked before rest =>
    cases done
    refine ⟨['`'], rest, rfl, rfl, by rw [pieces], ⟨[], rfl⟩, [], ?_, by rintro _ _ ⟨⟩⟩
    exact fun source start inside => .inl (mem_flush (List.mem_reverse.mp inside))
  | case3 => cases done
  | case4 offset cooked before rest meant size read ih =>
    obtain ⟨spelling, tail, rfl, same, -⟩ := escape_spells read
    simp only at same
    subst same
    rw [Nat.add_sub_cancel, List.drop_left] at ih done
    obtain ⟨front, after, rfl, whole, again, ⟨inside, ends⟩, here, sort, holes⟩ := ih done
    have read := escape_take read
    rw [Nat.add_sub_cancel, List.take_left] at read
    have read := (escape_append read front).1
    refine ⟨'\\' :: (spelling ++ front), after, by simp, ?_, ?_,
      ⟨'\\' :: (spelling ++ inside), by simp [ends]⟩, here, sort,
      holes.after ('\\' :: spelling) (by simp)⟩
    · simp only [whole, List.length_cons, List.length_append]
      omega
    · rw [pieces, read]
      simp only [Nat.add_sub_cancel, List.drop_left]
      exact again
  | case5 => cases done
  | case6 offset cooked before rest finish skipped covered source ih =>
    obtain ⟨hole, tail, rfl, rfl, alone, ends⟩ :=
      skip_front _ _ _ (.hole 1 0) ⟨1, 0, rfl⟩ skipped
    obtain ⟨code, rfl⟩ := ends (List.cons_ne_nil _ _)
    have size : covered = code.length + 1 := by simp [covered]
    have text : source = String.ofList code := by simp [source, size]
    rw [size, text, show code.length + 1 = (code ++ ['\x7d']).length by simp, List.drop_left]
      at ih done
    obtain ⟨front, after, rfl, whole, again, ⟨inside, last⟩, here, sort, holes⟩ := ih done
    have skipped := (skip_append _ _ _ (.hole 1 0) alone front).1
    refine ⟨'$' :: '\x7b' :: (code ++ ['\x7d'] ++ front), after, by simp, ?_, ?_,
      ⟨'$' :: '\x7b' :: (code ++ ['\x7d'] ++ inside), by simp [last]⟩,
      .hole (String.ofList code) (offset + 2) :: here, ?_, ?_⟩
    · simp only [whole, List.length_cons, List.length_append]
      omega
    · rw [pieces, skipped]
      simp only [Nat.add_sub_cancel_left, List.drop_left]
      simpa using again
    · intro source start member
      rcases sort source start member with early | later
      · rcases List.mem_cons.mp early with this | before
        · exact .inr (this ▸ List.mem_cons_self)
        · exact .inl (mem_flush before)
      · exact .inr (List.mem_cons_of_mem _ later)
    · intro source start member
      rcases List.mem_cons.mp member with this | later
      · cases this
        exact ⟨[], front, by simp, rfl⟩
      · exact holes.after ('$' :: '\x7b' :: (code ++ ['\x7d'])) (by simp; omega) source start later
  | case7 offset cooked before c rest notTick notEscape far ih =>
    obtain ⟨front, after, rfl, whole, again, ⟨inside, ends⟩, here, sort, holes⟩ := ih done
    refine ⟨c :: front, after, rfl, ?_, ?_, ⟨c :: inside, by rw [ends]; rfl⟩, here, sort,
      holes.after [c] rfl⟩
    · rw [whole, List.length_cons]
      omega
    · rw [pieces.eq_5 _ _ _ _ _ notTick notEscape
        (fun more dollar brace => far (more ++ after) dollar (by rw [brace]; rfl))]
      exact again

theorem template_front {rest : List Char} {lexeme : Lexeme} (done : template rest = .ok lexeme) :
    ∃ front after found, rest = front ++ after ∧ lexeme.size = front.length + 1
      ∧ lexeme.text.toList = '`' :: front ∧ template front = .ok lexeme
      ∧ lexeme.kind = .template found ∧ Holes 0 ('`' :: front) found := by
  cases read : pieces 1 [] [] rest with
  | error problem =>
      simp only [template, read] at done
      cases done
  | ok found =>
      obtain ⟨front, after, rfl, whole, alone, -, here, sort, holes⟩ := pieces_front 1 [] [] rest read
      have size : found.2 - 1 = front.length := by omega
      simp only [template, read] at done
      cases done
      refine ⟨front, after, found.1, rfl, ?_, ?_, ?_, rfl, ?_⟩
      · show max found.2 1 = _
        omega
      · show (String.ofList ('`' :: (front ++ after).take (found.2 - 1))).toList = _
        rw [size, List.take_left, String.toList_ofList]
      · simp only [template, alone]
        show Except.ok (Lexeme.mk _ (String.ofList ('`' :: front.take (found.2 - 1))) _ _)
          = Except.ok (Lexeme.mk _ (String.ofList ('`' :: (front ++ after).take (found.2 - 1))) _ _)
        simp only [size, List.take_left, List.take_length]
      · intro source start inside
        have inside := (sort source start inside).resolve_left List.not_mem_nil
        exact holes.after ['`'] rfl source start inside

/-! ## Any token -/

/-- The characters that a lexeme is read from. -/
inductive Spells : Lexeme → List Char → Prop
  | quoted {lexeme : Lexeme} {quote : Char} {raw : List Char} (quotes : quote = '"' ∨ quote = '\'')
      (kind : lexeme.kind = .plain .text) (inside : Contents quote raw lexeme.text.toList) :
      Spells lexeme (quote :: (raw ++ [quote]))
  | template {lexeme : Lexeme} {found : List RawPiece} (kind : lexeme.kind = .template found)
      (holes : Holes 0 lexeme.text.toList found) : Spells lexeme lexeme.text.toList
  | verbatim {lexeme : Lexeme} {sort : TokenKind} (kind : lexeme.kind = .plain sort)
      (ink : sort ≠ .text) (whole : ∀ pieces, sort ≠ .template pieces) : Spells lexeme lexeme.text.toList

theorem spells_of_text {c : Char} {rest : List Char} {lexeme : Lexeme} {sort : TokenKind}
    (kind : lexeme.kind = .plain sort) (ink : sort ≠ .text)
    (whole : ∀ pieces, sort ≠ .template pieces)
    (text : lexeme.text.toList = (c :: rest).take lexeme.size) :
    Spells lexeme ((c :: rest).take lexeme.size) := by
  rw [← text]
  exact .verbatim kind ink whole

theorem read_spells {last : Option Char} {c : Char} {rest : List Char} {lexeme : Lexeme}
    (done : read last c rest = .ok lexeme) : Spells lexeme ((c :: rest).take lexeme.size) := by
  unfold read at done
  split at done
  · next feed =>
    cases done
    exact feed ▸ .verbatim rfl (by decide) (by rintro _ ⟨⟩)
  split at done
  · next quote =>
    obtain ⟨kind, raw, tail, rfl, size, inside⟩ := quoted_spells done
    have whole : (c :: (raw ++ c :: tail)).take lexeme.size = c :: (raw ++ [c]) := by
      rw [size, List.take_succ_cons, List.append_cons, List.take_left' (by simp)]
    rw [whole]
    exact .quoted quote kind inside
  split at done
  · next tick =>
    subst tick
    obtain ⟨front, after, found, rfl, size, text, -, kind, holes⟩ := template_front done
    rw [size, List.take_succ_cons, List.take_left, ← text]
    exact .template kind (text ▸ holes)
  split at done
  · have kind := ((number_eq_ok c rest lexeme).mp done).2.2.1
    exact spells_of_text kind (by rintro ⟨⟩) (by rintro _ ⟨⟩) (number_text done)
  split at done
  · have kind := ((number_eq_ok c rest lexeme).mp done).2.2.1
    exact spells_of_text kind (by rintro ⟨⟩) (by rintro _ ⟨⟩) (number_text done)
  split at done
  · cases done
    have text := word_text c rest
    cases word : Keyword.ofWord? (word c rest).text with
    | none => exact spells_of_text (word_kind c rest) (by rw [word]; rintro ⟨⟩) (by rw [word]; rintro _ ⟨⟩) text
    | some => exact spells_of_text (word_kind c rest) (by rw [word]; rintro ⟨⟩) (by rw [word]; rintro _ ⟨⟩) text
  · have text := marked_text done
    unfold marked at done
    split at done
    · cases done
      exact spells_of_text rfl (by rintro ⟨⟩) (by rintro _ ⟨⟩) text
    · cases done

end Lexeme

end Rill

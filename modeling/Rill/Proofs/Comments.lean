import Rill.Proofs.Respelling

/-!
# A comment in place of a space

A block comment between two tokens separates them as a space does, and with a space in its place the
same tokens are read, with one exception. Whether a sign belongs to the number after it hangs on the
nearest character before the sign that is neither a space nor a tab, and the last character of a
comment is such a character.
-/

set_option autoImplicit false

namespace Rill

namespace Lexeme

/-! ## What a reader reads without the text after it -/

variable {more : List Char}

theorem escape_within {chars : List Char} {found : Char × Nat}
    (done : escape (chars ++ more) = .ok found) (fits : found.2 ≤ chars.length + 1) :
    escape chars = .ok found := by
  have alone := escape_take done
  rw [List.take_append_of_le_length (by omega)] at alone
  have whole := (escape_append alone (chars.drop (found.2 - 1))).1
  rwa [List.take_append_drop] at whole

theorem contents_within (quote : Char) (offset : Nat) (cooked chars : List Char)
    {found : String × Nat} (done : contents quote offset cooked (chars ++ more) = .ok found)
    (fits : found.2 ≤ offset + chars.length) :
    contents quote offset cooked chars = .ok found := by
  fun_induction contents quote offset cooked chars with
  | case1 offset cooked =>
    have later := (contents_append quote offset cooked more done []).2.1
    simp only [List.length_nil] at fits
    omega
  | case2 offset cooked rest =>
    rw [List.cons_append, contents, if_pos rfl] at done
    exact done
  | case3 offset cooked rest reason unread notQuote =>
    rw [List.cons_append, contents, if_neg notQuote, if_pos rfl] at done
    cases read : escape (rest ++ more) with
    | error reason =>
        rw [read] at done
        cases done
    | ok escaped =>
        rw [read] at done
        have later := (contents_append quote _ _ _ done []).2.1
        simp only [List.length_cons] at fits
        rw [escape_within read (by omega)] at unread
        cases unread
  | case4 offset cooked rest meant size read notQuote ih =>
    obtain ⟨again, positive, inside⟩ := escape_append read more
    simp only at positive inside
    rw [List.cons_append, contents, if_neg notQuote, if_pos rfl, again] at done
    simp only [List.drop_append_of_le_length (show size - 1 ≤ rest.length by omega)] at done
    simp only [List.length_cons] at fits
    exact ih done (by rw [List.length_drop]; omega)
  | case5 offset cooked c rest notQuote notEscape ih =>
    rw [List.cons_append, contents, if_neg notQuote, if_neg notEscape] at done
    simp only [List.length_cons] at fits
    exact ih done (by omega)

theorem quoted_within {quote : Char} {rest : List Char} {lexeme : Lexeme}
    (done : quoted quote (rest ++ more) = .ok lexeme) (fits : lexeme.size ≤ rest.length + 1) :
    quoted quote rest = .ok lexeme := by
  cases read : contents quote 1 [] (rest ++ more) with
  | error problem =>
      simp only [quoted, read] at done
      cases done
  | ok found =>
      simp only [quoted, read] at done
      cases done
      have fits : max found.2 1 ≤ rest.length + 1 := fits
      simp only [quoted, contents_within quote 1 [] rest read (by omega)]
      rfl

theorem template_within {rest : List Char} {lexeme : Lexeme}
    (done : template (rest ++ more) = .ok lexeme) (fits : lexeme.size ≤ rest.length + 1) :
    template rest = .ok lexeme := by
  obtain ⟨front, after, -, whole, size, -, alone, -⟩ := template_front done
  have early : front.length ≤ rest.length := by omega
  have split : front = rest.take front.length := by
    have taken : (rest ++ more).take front.length = rest.take front.length :=
      List.take_append_of_le_length early
    rw [← taken, whole, List.take_left]
  have longer := (template_append alone (rest.drop front.length)).1
  rw [split, List.length_take, Nat.min_eq_left early, List.take_append_drop] at longer
  exact longer

def longStarts : List Char :=
  ['.', '?', '=', '!', '<', '>', '+', '-', '*', '/', '%', '&', '|']

/-- The characters that are a mark by themselves whatever follows. -/
def shortStarts : List Char :=
  ['^', '~', ':', ',', ';', '(', ')', '[', ']', '\x7b', '\x7d']

theorem mark?_starts {c : Char} {rest : List Char} {m : Mark} (found : mark? (c :: rest) = some m) :
    c ∈ longStarts ++ shortStarts := by
  have text := mark?_text found
  cases m
  all_goals
    obtain rfl := (List.cons.inj text).1
    decide

theorem mark?_isSome {c : Char} (starts : c ∈ longStarts ++ shortStarts) (rest : List Char) :
    (mark? (c :: rest)).isSome := by
  simp only [List.mem_append, longStarts, shortStarts, List.mem_cons, List.not_mem_nil,
    or_false] at starts
  rcases starts with long | short
  · rcases long with rfl | rfl | rfl | rfl | rfl | rfl | rfl | rfl | rfl | rfl | rfl | rfl | rfl
    all_goals
      unfold mark?
      split
      all_goals first | rfl | grind
  · rcases short with rfl | rfl | rfl | rfl | rfl | rfl | rfl | rfl | rfl | rfl | rfl
    all_goals rfl

theorem mark?_within (severs : Severs more) {c : Char} {rest : List Char} {m : Mark}
    (found : mark? (c :: rest ++ more) = some m) : mark? (c :: rest) = some m := by
  obtain ⟨other, alone⟩ := Option.isSome_iff_exists.mp (mark?_isSome (mark?_starts found) rest)
  rw [alone, ← mark?_append severs _ other alone]
  exact found

/-- A lexeme that ends before something that severs is read without it. -/
theorem read_within (severs : Severs more) {last : Option Char} {c : Char} {rest : List Char}
    {lexeme : Lexeme} (done : read last c (rest ++ more) = .ok lexeme)
    (fits : lexeme.size ≤ rest.length + 1) : read last c rest = .ok lexeme := by
  unfold read at done ⊢
  rw [signed_append severs] at done
  by_cases feed : c = '\n'
  · rw [if_pos feed] at done ⊢
    exact done
  rw [if_neg feed] at done ⊢
  by_cases quote : c = '"' ∨ c = '\''
  · rw [if_pos quote] at done ⊢
    exact quoted_within done fits
  rw [if_neg quote] at done ⊢
  by_cases tick : c = '`'
  · rw [if_pos tick] at done ⊢
    exact template_within done fits
  rw [if_neg tick] at done ⊢
  by_cases digit : c.isDigit = true
  · rw [if_pos digit] at done ⊢
    exact (number_append_iff severs).mp done
  rw [if_neg digit] at done ⊢
  by_cases sign : (c = '+' ∨ c = '-') ∧ signed last rest = true
  · rw [if_pos sign] at done ⊢
    exact (number_append_iff severs).mp done
  rw [if_neg sign] at done ⊢
  by_cases name : isNameStart c = true
  · rw [if_pos name] at done ⊢
    rw [word_append severs] at done
    exact done
  rw [if_neg name] at done ⊢
  unfold marked at done ⊢
  cases found : mark? (c :: (rest ++ more)) with
  | none =>
      rw [found] at done
      cases done
  | some m =>
      rw [found] at done
      rw [mark?_within severs found]
      exact done

theorem read_ink {last : Option Char} {c : Char} {rest : List Char} {lexeme : Lexeme}
    (done : read last c rest = .ok lexeme) : ¬ (c = ' ' ∨ c = '\t') := by
  rintro (rfl | rfl)
  · cases done
  · cases done

/-- What is read hangs on the character before only where that is a sign before a digit. -/
theorem read_last {last last' : Option Char} {c : Char} {rest : List Char}
    (same : c = '+' ∨ c = '-' → signed last' rest = signed last rest) :
    read last' c rest = read last c rest := by
  unfold read
  by_cases sign : c = '+' ∨ c = '-'
  · rw [same sign]
  · simp only [sign, false_and, if_false]

theorem signed_outside {last : Option Char} (outside : ∀ c, last = some c → c ∉ signContext)
    (tail : List Char) : signed last tail = false := by
  cases last with
  | none => rw [signed, Option.map_none, Option.getD_none, Bool.and_false]
  | some c => simpa [signed] using fun _ => outside c rfl

section Sign

variable {sign digit : Char} (signs : sign = '+' ∨ sign = '-')

include signs

theorem read_signed (digits : digit.isDigit = true) {mark : Char} (inside : mark ∈ signContext) (after : List Char) :
    read (some mark) sign (digit :: after) = number sign (digit :: after) := by
  have signed : signed (some mark) (digit :: after) = true := by
    simpa [Lexeme.signed, digitFirst, digits] using inside
  rcases signs with rfl | rfl <;> simp [read, signed]

theorem read_unsigned {plain : Char} (outside : plain ∉ signContext) (after : List Char) :
    ∃ lexeme m, read (some plain) sign after = .ok lexeme
      ∧ lexeme.kind = .plain (.mark m) := by
  have unsigned : signed (some plain) after = false :=
    signed_outside (by simpa using outside) _
  obtain ⟨m, found⟩ : ∃ m, mark? (sign :: after) = some m := by
    refine Option.isSome_iff_exists.mp (mark?_isSome ?_ _)
    rcases signs with rfl | rfl <;> decide
  refine ⟨⟨.plain (.mark m), m.spelling, max m.spelling.length 1, by omega⟩, m, ?_, rfl⟩
  have name : isNameStart sign = false := by
    rcases signs with rfl | rfl <;> decide
  have marks : read (some plain) sign after = marked sign after := by
    rcases signs with rfl | rfl <;> simp [read, unsigned, name]
  rw [marks, marked, found]

end Sign

end Lexeme

/-! ## Blanks in front -/

namespace Trivia

theorem blockEnd_block {text : List Char} (inside : ¬ ['*', '/'] <:+: text) (offset : Nat)
    (more : List Char) :
    blockEnd offset (text ++ '*' :: '/' :: more) = some (offset + text.length + 2) := by
  induction text generalizing offset with
  | nil => rfl
  | cons c text ih =>
      have early : ∀ rest, c = '*' → text ++ '*' :: '/' :: more = '/' :: rest → False := by
        rintro rest rfl slash
        cases text with
        | nil => exact absurd (List.cons.inj slash).1 (by decide)
        | cons d text =>
            obtain ⟨rfl, -⟩ := List.cons.inj slash
            exact inside ⟨[], text, rfl⟩
      have later : ¬ ['*', '/'] <:+: text := fun bad => inside (bad.trans (List.suffix_cons c text).isInfix)
      rw [List.cons_append, blockEnd.eq_2 _ _ _ early, ih later, List.length_cons]
      congr 1
      omega

theorem Blank.spaces {gap : List Char} (space : ∀ c ∈ gap, c = ' ' ∨ c = '\t')
    (after : List Char) : Blank gap after := by
  induction gap with
  | nil => exact .none after
  | cons c gap ih =>
      obtain ⟨first, later⟩ := List.forall_mem_cons.mp space
      exact .space (first.imp_right .inl) (ih later)

theorem Blank.size {front after : List Char} (blank : Blank front after) (offset : Nat) :
    size offset (front ++ after) = size (offset + front.length) after := by
  induction blank generalizing offset with
  | none => rfl
  | @space c front after blank later ih =>
      have plain : c ≠ '/' := by
        rintro rfl
        exact absurd blank (by decide)
      rw [List.cons_append, Trivia.size.eq_3 _ _ _ (fun _ bad _ => plain bad)
        (fun _ bad _ => plain bad), if_pos blank, ih, List.length_cons]
      congr 1
      omega
  | @line text after inside ends =>
      have stops : (text ++ after).takeWhile (fun c => decide (c ≠ '\n')) = text := by
        have all : ∀ c ∈ text, decide (c ≠ '\n') = true := by
          intro c member
          simpa using ne_of_mem_of_not_mem member inside
        rw [List.takeWhile_append_of_pos all]
        rcases ends with rfl | ⟨more, rfl⟩ <;> simp
      rw [List.cons_append, List.cons_append, Trivia.size, stops, List.drop_left,
        List.length_cons, List.length_cons]
      congr 1
      omega
  | @block text front after inside later ih =>
      have left : (text ++ '*' :: '/' :: (front ++ after)).drop (0 + text.length + 2)
          = front ++ after := by
        rw [Nat.zero_add, ← List.drop_drop, List.drop_left]
        rfl
      simp only [List.cons_append, List.append_assoc]
      rw [Trivia.size, blockEnd_block inside]
      simp only [left, ih, List.length_cons, List.length_append]
      congr 1
      omega

theorem size_add (skipped offset : Nat) (chars : List Char) :
    size (skipped + offset) chars = match size offset chars with
      | .error problem => .error ⟨problem.reason, skipped + problem.offset⟩
      | .ok finish => .ok (skipped + finish) := by
  fun_induction size offset chars with
  | case1 offset rest line ih =>
    rw [size, Nat.add_assoc, Nat.add_assoc, ← Nat.add_assoc offset]
    exact ih
  | case2 offset rest unclosed => rw [size, unclosed]
  | case3 offset rest block closed ih =>
    rw [← ih, size, closed]
    simp only [Nat.add_assoc]
  | case4 offset c rest notLine notBlock blank ih =>
    rw [size.eq_3 _ _ _ notLine notBlock, if_pos blank]
    exact ih
  | case5 offset c rest notLine notBlock ink => rw [size.eq_3 _ _ _ notLine notBlock, if_neg ink]
  | case6 offset => rw [size]

theorem Blank.before {front after other : List Char} (blank : Blank front after)
    (ends : after.head?.getD '\n' = '\n' → other.head?.getD '\n' = '\n') : Blank front other := by
  induction blank with
  | none => exact .none other
  | space blank _ ih => exact .space blank (ih ends)
  | @line text after inside line =>
      have line : after.head?.getD '\n' = '\n' := by
        rcases line with rfl | ⟨more, rfl⟩ <;> rfl
      cases other with
      | nil => exact .line inside (.inl rfl)
      | cons c more =>
          obtain rfl : c = '\n' := ends line
          exact .line inside (.inr ⟨more, rfl⟩)
  | block inside _ ih => exact .block inside (ih ends)

end Trivia

namespace Cursor

theorem lastInk_blank (last : Option Char) {chars : List Char}
    (blank : ∀ c ∈ chars, c = ' ' ∨ c = '\t') : lastInk last chars = last := by
  induction chars with
  | nil => rfl
  | cons c rest ih =>
      obtain ⟨space, later⟩ := List.forall_mem_cons.mp blank
      show lastInk (if c = ' ' ∨ c = '\t' then last else some c) rest = last
      rw [if_pos space, ih later]

theorem lastInk_cases (chars : List Char) :
    (∀ c ∈ chars, c = ' ' ∨ c = '\t') ∨ ∃ ink, ∀ last, lastInk last chars = some ink := by
  induction chars with
  | nil => exact .inl nofun
  | cons c rest ih =>
      rcases ih with blank | ⟨ink, same⟩
      · by_cases space : c = ' ' ∨ c = '\t'
        · exact .inl (List.forall_mem_cons.mpr ⟨space, blank⟩)
        · refine .inr ⟨c, fun last => ?_⟩
          show lastInk (if c = ' ' ∨ c = '\t' then last else some c) rest = some c
          rw [if_neg space, lastInk_blank _ blank]
      · exact .inr ⟨ink, fun last => same _⟩

end Cursor

namespace Lexed

theorem scan_blank {cursor : Cursor} {front after : List Char} (blank : Trivia.Blank front after)
    (text : cursor.rest = front ++ after) (done : List Token) :
    scan cursor done = scan (cursor.advance front.length) done := by
  have left : (cursor.advance front.length).rest = after := by
    rw [Cursor.rest_advance, text, List.drop_left]
  have size : Trivia.size 0 cursor.rest = match Trivia.size 0 after with
      | .error problem => .error ⟨problem.reason, front.length + problem.offset⟩
      | .ok finish => .ok (front.length + finish) := by
    rw [text, blank.size, Nat.zero_add, ← Nat.add_zero front.length, Trivia.size_add, Nat.add_zero]
  rw [scan_eq, scan_eq (cursor.advance front.length), left, size]
  cases Trivia.size 0 after with
  | error problem => simp only [Cursor.problem, Cursor.advance_add]
  | ok finish =>
      simp only
      rw [Cursor.advance_add]

/-- What was read wherever it stands: the tokens, and the problem that stopped the reading. -/
def unplaced (lexed : Lexed) : List Token × Option LexReason :=
  (lexed.tokens.map Token.unplaced, lexed.error.map LexError.reason)

theorem scan_extends (cursor : Cursor) (done : List Token) :
    ∃ later, (scan cursor done).tokens = done.reverse ++ later := by
  induction cursor, done using scan_induction with
  | unclosed cursor done problem blanks =>
      rw [scan_unclosed blanks]
      exact ⟨[], (List.append_nil _).symm⟩
  | finish cursor done blank blanks all =>
      rw [scan_end blanks all]
      exact ⟨_, List.reverse_cons⟩
  | unread cursor done blank c rest problem blanks front read =>
      rw [scan_unread blanks front read]
      exact ⟨[], (List.append_nil _).symm⟩
  | token cursor done blank c rest lexeme blanks front read ih =>
      obtain ⟨later, same⟩ := ih
      rw [scan_token blanks front read, same, List.reverse_cons, List.append_assoc]
      exact ⟨_, rfl⟩

end Lexed

def SignAhead (chars : List Char) : Prop :=
  ∃ gap sign digit after, chars = gap ++ sign :: digit :: after
    ∧ (∀ c ∈ gap, c = ' ' ∨ c = '\t') ∧ (sign = '+' ∨ sign = '-') ∧ digit.isDigit = true

/-- A character after which a sign belongs to the number, then spaces and tabs. -/
def SignBehind (chars : List Char) : Prop :=
  ∃ before mark gap, chars = before ++ mark :: gap ∧ mark ∈ Lexeme.signContext
    ∧ ∀ c ∈ gap, c = ' ' ∨ c = '\t'

theorem SignAhead.front {chars : List Char} (ahead : SignAhead chars) :
    ∃ blank sign digit after, Trivia.size 0 chars = .ok blank
      ∧ chars.drop blank = sign :: digit :: after
      ∧ (∀ last, Cursor.lastInk last (chars.take blank) = last)
      ∧ (sign = '+' ∨ sign = '-') ∧ digit.isDigit = true := by
  obtain ⟨gap, sign, digit, after, rfl, space, signs, digits⟩ := ahead
  refine ⟨gap.length, sign, digit, after, ?_, List.drop_left, fun last => ?_, signs, digits⟩
  · have ink : ¬ (sign = ' ' ∨ sign = '\t' ∨ sign = '\r') := by
      rcases signs with rfl | rfl <;> decide
    have plain : sign ≠ '/' := by
      rcases signs with rfl | rfl <;> decide
    rw [(Trivia.Blank.spaces space _).size, Nat.zero_add,
      Trivia.size.eq_3 _ _ _ (fun _ bad _ => plain bad) (fun _ bad _ => plain bad), if_neg ink]
  · rw [List.take_left, Cursor.lastInk_blank _ space]

namespace Cursor

/-- Two cursors at the same text that may stand in different places. What came before them matters
only where a sign comes next. -/
structure Alike (cursor other : Cursor) : Prop where
  rest : other.rest = cursor.rest
  sign : SignAhead cursor.rest → ∀ tail, Lexeme.signed other.last tail = Lexeme.signed cursor.last tail

namespace Alike

variable {cursor other : Cursor} {blank : Nat} {c : Char} {rest : List Char}

theorem read (alike : cursor.Alike other) (front : (cursor.advance blank).rest = c :: rest) :
    Lexeme.read (other.advance blank).last c rest
      = Lexeme.read (cursor.advance blank).last c rest := by
  refine Lexeme.read_last fun sign => ?_
  rw [last_advance, last_advance, alike.rest]
  rcases lastInk_cases (cursor.rest.take blank) with space | ⟨ink, same⟩
  · rw [lastInk_blank _ space, lastInk_blank _ space]
    cases digits : Lexeme.digitFirst rest with
    | false => rw [Lexeme.signed, Lexeme.signed, digits, Bool.false_and, Bool.false_and]
    | true =>
        cases rest with
        | nil => cases digits
        | cons digit after =>
            refine alike.sign ⟨_, c, digit, after, ?_, space, sign, digits⟩ _
            rw [← front, rest_advance, List.take_append_drop]
  · rw [same, same]

theorem token (alike : cursor.Alike other) (front : (cursor.advance blank).rest = c :: rest)
    {last : Option Char} {lexeme : Lexeme} (read : Lexeme.read last c rest = .ok lexeme) :
    ((cursor.advance blank).advance lexeme.size).Alike
      ((other.advance blank).advance lexeme.size) where
  rest := by simp only [rest_advance, alike.rest]
  sign := by
    intro _ tail
    have front' : (other.advance blank).rest = c :: rest := by
      rw [rest_advance, alike.rest, ← rest_advance, front]
    rw [(other.advance blank).last_advance, (cursor.advance blank).last_advance, front, front']
    rcases lastInk_cases ((c :: rest).take lexeme.size) with space | ⟨ink, same⟩
    · obtain ⟨size, long⟩ := Nat.exists_eq_add_one_of_ne_zero lexeme.size_pos.ne'
      rw [long, List.take_succ_cons] at space
      exact absurd (space c List.mem_cons_self) (Lexeme.read_ink read)
    · rw [same, same]

end Alike

end Cursor

namespace Lexed

/-- The same tokens are read from the same text, unless a sign comes next and what came before
differs. -/
theorem scan_alike {cursor other : Cursor} {done done' : List Token} (alike : cursor.Alike other)
    (same : done'.map Token.unplaced = done.map Token.unplaced) :
    (scan other done').unplaced = (scan cursor done).unplaced := by
  have shown : ∀ {cursor other : Cursor} {blank : Nat} {chars : List Char}, cursor.Alike other →
      (cursor.advance blank).rest = chars → (other.advance blank).rest = chars := by
    intro cursor other blank chars alike front
    rw [Cursor.rest_advance, alike.rest, ← Cursor.rest_advance, front]
  induction cursor, done using scan_induction generalizing other done' with
  | unclosed cursor done problem blanks =>
      rw [scan_unclosed blanks, scan_unclosed (alike.rest ▸ blanks)]
      simp [unplaced, same, Cursor.problem]
  | finish cursor done blank blanks all =>
      rw [scan_end blanks all, scan_end (alike.rest ▸ blanks) (shown alike all)]
      simp [unplaced, same, Token.unplaced]
  | unread cursor done blank c rest problem blanks front read =>
      rw [scan_unread blanks front read,
        scan_unread (alike.rest ▸ blanks) (shown alike front) ((alike.read front).trans read)]
      simp [unplaced, same, Cursor.problem]
  | token cursor done blank c rest lexeme blanks front read ih =>
      rw [scan_token blanks front read,
        scan_token (alike.rest ▸ blanks) (shown alike front) ((alike.read front).trans read)]
      refine ih (alike.token front read) ?_
      rw [List.map_cons, List.map_cons, same, Cursor.unplaced_token]

theorem scan_sign {cursor other : Cursor} {done done' : List Token}
    (rest : other.rest = cursor.rest) (ahead : SignAhead cursor.rest)
    {plain : Char} (last : cursor.last = some plain) (outside : plain ∉ Lexeme.signContext)
    {mark : Char} (last' : other.last = some mark) (inside : mark ∈ Lexeme.signContext)
    (same : done'.map Token.unplaced = done.map Token.unplaced) :
    (scan other done').unplaced ≠ (scan cursor done).unplaced := by
  obtain ⟨blank, sign, digit, after, blanks, front, kept, signs, digits⟩ := ahead.front
  have here : (cursor.advance blank).last = some plain := by
    rw [Cursor.last_advance, kept, last]
  have here' : (other.advance blank).last = some mark := by
    rw [Cursor.last_advance, rest, kept, last']
  have front' : (other.advance blank).rest = sign :: digit :: after := by
    rw [Cursor.rest_advance, rest, front]
  rw [← cursor.rest_advance blank .exact] at front
  obtain ⟨lexeme, m, read, kind⟩ := Lexeme.read_unsigned signs outside (digit :: after)
  have number := Lexeme.read_signed signs digits inside after
  rw [← here] at read
  rw [← here'] at number
  obtain ⟨later, tokens⟩ := scan_extends ((cursor.advance blank).advance lexeme.size)
    ((cursor.advance blank).token lexeme :: done)
  rw [scan_token blanks front read]
  have kind : ((cursor.advance blank).token lexeme).kind = .mark m := by simp only [Cursor.token, kind]
  intro bad
  have bad := congrArg Prod.fst bad
  simp only [unplaced, tokens] at bad
  cases value : Lexeme.number sign (digit :: after) with
  | error problem =>
      rw [value] at number
      rw [scan_unread (rest ▸ blanks) front' number] at bad
      have length := congrArg List.length bad
      have equal := congrArg List.length same
      simp only [List.map_reverse, List.map_append, List.map_cons, List.reverse_cons,
        List.length_append, List.length_map, List.length_reverse, List.length_cons,
        List.length_nil] at length equal
      omega
  | ok lexeme' =>
      rw [value] at number
      obtain ⟨later', tokens'⟩ := scan_extends ((other.advance blank).advance lexeme'.size)
        ((other.advance blank).token lexeme' :: done')
      have kind' : ((other.advance blank).token lexeme').kind = .number := by
        simp only [Cursor.token, ((Lexeme.number_eq_ok _ _ _).mp value).2.2.1]
      rw [scan_token (rest ▸ blanks) front' number, tokens'] at bad
      simp only [List.reverse_cons, List.append_assoc, List.singleton_append, List.map_append,
        List.map_cons, List.map_reverse, same, List.append_cancel_left_eq] at bad
      have kinds := congrArg Token.kind (List.cons.inj bad).1
      simp only [Token.unplaced, kind, kind', TokenKind.unplaced] at kinds
      cases kinds

end Lexed

/-! ## Up to the comment -/

/-- Reading from the cursor on arrives between two tokens, or before the first or after the last:
`front` has been read or passed over then, and `ahead` is still to be read. -/
inductive Cursor.Reaches : Cursor → List Char → List Char → Prop
  | here {cursor : Cursor} {gap ahead : List Char} (blank : Trivia.Blank gap ahead)
      (text : cursor.rest = gap ++ ahead) : Reaches cursor gap ahead
  | token {cursor : Cursor} {blank : Nat} {c : Char} {rest : List Char} {lexeme : Lexeme}
      {front ahead : List Char} (blanks : Trivia.size 0 cursor.rest = .ok blank)
      (next : (cursor.advance blank).rest = c :: rest)
      (read : Lexeme.read (cursor.advance blank).last c rest = .ok lexeme)
      (later : Reaches ((cursor.advance blank).advance lexeme.size) front ahead) :
      Reaches cursor (cursor.rest.take (blank + lexeme.size) ++ front) ahead

namespace Cursor

theorem read_spaced {cursor : Cursor} {blank : Nat} {c : Char} {rest : List Char} {lexeme : Lexeme}
    (blanks : Trivia.size 0 cursor.rest = .ok blank)
    (next : (cursor.advance blank).rest = c :: rest)
    (read : Lexeme.read (cursor.advance blank).last c rest = .ok lexeme)
    {front ahead : List Char} (severs : Severs ahead)
    (left : ((cursor.advance blank).advance lexeme.size).rest = front ++ ahead)
    {other : Cursor} {back : List Char}
    (text : other.rest = cursor.rest.take (blank + lexeme.size) ++ (front ++ ' ' :: back))
    (last : other.last = cursor.last) :
    ∃ rest', Trivia.size 0 other.rest = .ok blank
      ∧ (other.advance blank).rest = c :: rest'
      ∧ Lexeme.read (other.advance blank).last c rest' = .ok lexeme
      ∧ ((other.advance blank).advance lexeme.size).rest = front ++ ' ' :: back
      ∧ ((other.advance blank).advance lexeme.size).last
        = ((cursor.advance blank).advance lexeme.size).last
      ∧ ((cursor.advance blank).advance lexeme.size).last
        = lastInk cursor.last (cursor.rest.take (blank + lexeme.size)) := by
  obtain ⟨trivia, after, whole, size, blanks, stops⟩ := Trivia.size_blank 0 cursor.rest blanks
  rw [Nat.zero_add] at size
  subst size
  obtain rfl : after = c :: rest := by
    rw [← next, rest_advance, whole, List.drop_left]
  have fits := (Lexeme.read_form read).1
  -- The token is spelled by `c` and then `tail`.
  obtain ⟨tail, long, rfl⟩ : ∃ tail : List Char, tail.length + 1 = lexeme.size
      ∧ rest = tail ++ (front ++ ahead) := by
    obtain ⟨size, long⟩ := Nat.exists_eq_add_one_of_ne_zero lexeme.size_pos.ne'
    rw [rest_advance, next, long, List.drop_succ_cons] at left
    refine ⟨rest.take size, by rw [List.length_take]; omega, ?_⟩
    rw [← left, List.take_append_drop]
  have covered : cursor.rest.take (trivia.length + lexeme.size) = trivia ++ c :: tail := by
    rw [whole, ← long, List.take_length_add_append, List.take_succ_cons, List.take_left]
  have text : other.rest = trivia ++ c :: (tail ++ front ++ ' ' :: back) := by
    rw [text, covered]
    simp
  have space : Severs (' ' :: back) := .inl rfl
  rw [← List.append_assoc] at read
  have alone := Lexeme.read_within severs read (by rw [List.length_append]; omega)
  refine ⟨tail ++ front ++ ' ' :: back, ?_, ?_, ?_, ?_, ?_, ?_⟩
  · have blanks : Trivia.Blank trivia (c :: (tail ++ front ++ ' ' :: back)) := blanks.before id
    rw [text, blanks.size, Nat.zero_add]
    rw [← List.append_assoc, ← List.cons_append] at stops
    have breaks : Breaks (' ' :: back) := .inl rfl
    exact Trivia.size_front (List.cons_ne_nil c _) breaks stops _
  · rw [rest_advance, text, List.drop_left]
  · have same : (other.advance trivia.length).last = (cursor.advance trivia.length).last := by
      simp only [last_advance, text, whole, last, List.take_left]
    rw [same]
    exact Lexeme.read_append space alone
  · rw [← advance_add, rest_advance, text, ← long]
    simp
  · have covered' : other.rest.take (trivia.length + lexeme.size) = trivia ++ c :: tail := by
      rw [text, ← long, List.take_length_add_append, List.take_succ_cons, List.append_assoc,
        List.take_left]
    rw [← advance_add, ← advance_add]
    simp only [last_advance, covered, covered', last]
  · rw [← advance_add, last_advance]

theorem advance_front {cursor : Cursor} {front after : List Char}
    (text : cursor.rest = front ++ after) :
    (cursor.advance front.length).rest = after
      ∧ (cursor.advance front.length).last = lastInk cursor.last front := by
  simp only [rest_advance, last_advance, text, List.drop_left, List.take_left, and_self]

theorem Reaches.text {cursor : Cursor} {front ahead : List Char}
    (reaches : cursor.Reaches front ahead) : cursor.rest = front ++ ahead := by
  induction reaches with
  | here _ text => exact text
  | @token cursor blank c rest lexeme front ahead _ _ _ _ ih =>
      rw [← advance_add, rest_advance] at ih
      rw [List.append_assoc, ← ih, List.take_append_drop]

theorem Reaches.scan {cursor : Cursor} {front ahead : List Char} (reaches : cursor.Reaches front ahead)
    {body back : List Char} (comment : ahead = '/' :: '*' :: (body ++ '*' :: '/' :: back))
    (inside : ¬ ['*', '/'] <:+: body) {other : Cursor} (text : other.rest = front ++ ' ' :: back)
    (last : other.last = cursor.last) {done done' : List Token}
    (same : done'.map Token.unplaced = done.map Token.unplaced) :
    ∃ upper lower read read', Lexed.scan cursor done = Lexed.scan upper read
      ∧ Lexed.scan other done' = Lexed.scan lower read'
      ∧ read'.map Token.unplaced = read.map Token.unplaced
      ∧ upper.rest = back ∧ lower.rest = back
      ∧ upper.last = some '/' ∧ lower.last = lastInk cursor.last front := by
  induction reaches generalizing other done done' with
  | @here cursor gap ahead blank whole =>
      subst comment
      have block : Trivia.Blank ('/' :: '*' :: (body ++ '*' :: '/' :: [])) back :=
        .block inside (.none back)
      have gap' : Trivia.Blank gap (' ' :: back) :=
        blank.before fun bad => absurd bad (by decide : ¬ '/' = '\n')
      obtain ⟨rest, ink⟩ := advance_front whole
      obtain ⟨rest', ink'⟩ := advance_front text
      have rest : (cursor.advance gap.length).rest
          = '/' :: '*' :: (body ++ '*' :: '/' :: []) ++ back := by
        rw [rest]
        simp
      obtain ⟨after, slash⟩ := advance_front rest
      have rest' : (other.advance gap.length).rest = [' '] ++ back := rest'
      have space : Trivia.Blank [' '] back := .space (.inl rfl) (.none back)
      obtain ⟨after', ink''⟩ := advance_front rest'
      refine ⟨_, _, done, done', ?_, ?_, same, after, after', ?_, ?_⟩
      · rw [Lexed.scan_blank blank whole, Lexed.scan_blank block rest]
      · rw [Lexed.scan_blank gap' text, Lexed.scan_blank space rest']
      · rw [slash]
        simp [lastInk]
      · rw [ink'', ink', last]
        rfl
  | @token cursor blank c rest lexeme front ahead blanks next read later ih =>
      have severs : Severs ahead := by
        rw [comment]
        exact .inr (.inr rfl)
      rw [List.append_assoc] at text
      obtain ⟨rest', blanks', next', read', text', same', ink⟩ :=
        read_spaced blanks next read severs later.text text last
      have tokens : (((other.advance blank).token lexeme) :: done').map Token.unplaced
          = (((cursor.advance blank).token lexeme) :: done).map Token.unplaced := by
        rw [List.map_cons, List.map_cons, same, unplaced_token]
      obtain ⟨upper, lower, before, before', scan, scan', all, rest, rest', slash, last'⟩ :=
        ih comment text' same' tokens
      refine ⟨upper, lower, before, before', ?_, ?_, all, rest, rest', slash, ?_⟩
      · rw [Lexed.scan_token blanks next read, scan]
      · rw [Lexed.scan_token blanks' next' read', scan']
      · rw [last', ink, lastInk_append]

theorem lastInk_behind {chars : List Char} {ink : Char} (last : lastInk none chars = some ink) :
    ∃ before gap, chars = before ++ ink :: gap ∧ ∀ c ∈ gap, c = ' ' ∨ c = '\t' := by
  induction chars using List.reverseRecOn with
  | nil => cases last
  | append_singleton front c ih =>
      rw [lastInk_append] at last
      by_cases space : c = ' ' ∨ c = '\t'
      · rw [lastInk_blank _ (by simpa using space)] at last
        obtain ⟨before, gap, rfl, blank⟩ := ih last
        refine ⟨before, gap ++ [c], by simp, fun d member => ?_⟩
        rcases List.mem_append.mp member with early | late
        · exact blank d early
        · rw [List.mem_singleton.mp late]
          exact space
      · obtain rfl : c = ink := by simpa [lastInk, space] using last
        exact ⟨front, [], rfl, List.forall_mem_nil _⟩

end Cursor

theorem signBehind_iff {chars : List Char} :
    SignBehind chars ↔ ∃ mark ∈ Lexeme.signContext, Cursor.lastInk none chars = some mark := by
  constructor
  · rintro ⟨before, mark, gap, rfl, context, blank⟩
    have ink : ¬ (mark = ' ' ∨ mark = '\t') := by
      rintro (rfl | rfl) <;> exact absurd context (by decide)
    refine ⟨mark, context, ?_⟩
    rw [Cursor.lastInk_append, ← List.singleton_append, Cursor.lastInk_append,
      Cursor.lastInk_blank _ blank]
    exact if_neg ink
  · rintro ⟨mark, context, last⟩
    obtain ⟨before, gap, same, blank⟩ := Cursor.lastInk_behind last
    exact ⟨before, mark, gap, same, context, blank⟩

/-- With a space in place of a block comment between two tokens the same tokens are read, or the
same problem is met after the same tokens, unless the comment stands between a character after which
a sign belongs to the number and a sign directly before a digit, with nothing else between these but
spaces and tabs. -/
theorem lexAt_comment {front body back : String} {start : Position}
    (reaches : (Cursor.start (front ++ "/*" ++ body ++ "*/" ++ back) start).Reaches front.toList
      ("/*" ++ body ++ "*/" ++ back).toList)
    (inside : ¬ ['*', '/'] <:+: body.toList) :
    (lexAt (front ++ "/*" ++ body ++ "*/" ++ back) start).unplaced
        = (lexAt (front ++ " " ++ back) start).unplaced
      ↔ ¬ (SignBehind front.toList ∧ SignAhead back.toList) := by
  have text : (Cursor.start (front ++ " " ++ back) start).rest
      = front.toList ++ ' ' :: back.toList := by
    simp [Cursor.start]
  have comment : ("/*" ++ body ++ "*/" ++ back).toList
      = '/' :: '*' :: (body.toList ++ '*' :: '/' :: back.toList) := by
    simp
  obtain ⟨upper, lower, before, before', scan, scan', same, rest, rest', last, last'⟩ :=
    reaches.scan comment inside text rfl (List.map_nil.trans List.map_nil.symm)
  have equal_rest : lower.rest = upper.rest := rest'.trans rest.symm
  rw [lexAt, lexAt, scan, scan']
  constructor
  · rintro equal ⟨behind, ahead⟩
    obtain ⟨mark, context, ink⟩ := signBehind_iff.mp behind
    exact Lexed.scan_sign equal_rest (rest ▸ ahead) last (by decide) (last'.trans ink) context same
      equal.symm
  · intro apart
    have alike : upper.Alike lower := by
      refine ⟨equal_rest, fun ahead tail => ?_⟩
      have outside : ¬ SignBehind front.toList := fun behind => apart ⟨behind, rest ▸ ahead⟩
      have upperOut : ∀ mark, upper.last = some mark → mark ∉ Lexeme.signContext := by
        rw [last]
        rintro _ ⟨⟩
        decide
      have lowerOut : ∀ mark, lower.last = some mark → mark ∉ Lexeme.signContext := by
        rw [last']
        exact fun mark ink context => outside (signBehind_iff.mpr ⟨mark, context, ink⟩)
      rw [Lexeme.signed_outside upperOut, Lexeme.signed_outside lowerOut]
    exact (Lexed.scan_alike alike same).symm

/-- After an opening bracket the sign belongs to the number, but not after a comment; after a name it
never does. -/
theorem lexAt_comment_list :
    (lexAt "[/**/-1]" .start).unplaced ≠ (lexAt "[ -1]" .start).unplaced
    ∧ (lexAt "x/**/-1" .start).unplaced = (lexAt "x -1" .start).unplaced := by
  have list : (Cursor.start "[/**/-1]" .start).Reaches "[".toList "/**/-1]".toList := by
    have blanks : Trivia.size 0 (Cursor.start "[/**/-1]" .start).rest = .ok 0 := by cbv
    exact .token blanks rfl rfl (.here (.none _) rfl)
  have name : (Cursor.start "x/**/-1" .start).Reaches "x".toList "/**/-1".toList := by
    have blanks : Trivia.size 0 (Cursor.start "x/**/-1" .start).rest = .ok 0 := by cbv
    exact .token blanks rfl rfl (.here (.none _) rfl)
  have behind : SignBehind "[".toList := ⟨[], '[', [], rfl, by decide, List.forall_mem_nil _⟩
  have ahead : SignAhead "-1]".toList :=
    ⟨[], '-', '1', [']'], rfl, List.forall_mem_nil _, .inr rfl, rfl⟩
  have apart : ¬ SignBehind "x".toList := by
    rw [signBehind_iff]
    rintro ⟨mark, context, same⟩
    cases same
    exact absurd context (by decide)
  constructor
  · intro same
    exact (@lexAt_comment "[" "" "-1]" .start list (by simp)).mp same ⟨behind, ahead⟩
  · exact (@lexAt_comment "x" "" "-1" .start name (by simp)).mpr fun both => apart both.1

end Rill

import Rill.Proofs.Layout

/-!
# Reading tokens again

A token's own spelling is read to the same token, with a space or nothing after it. So the tokens of
a text, written with a space between each two, give the same tokens again, wherever they stand then.
-/

set_option autoImplicit false

namespace Rill

namespace Lexeme

/-! ## Numbers -/

theorem digitCount_take {chars : List Char} {count : Nat} (enough : digitCount chars ≤ count) :
    digitCount (chars.take count) = digitCount chars := by
  rw [digitCount, ← List.take_takeWhile, List.length_take]
  exact Nat.min_eq_right enough

theorem digitFirst_take {chars : List Char} {count : Nat} :
    digitFirst (chars.take count) = (decide (0 < count) && digitFirst chars) := by
  cases count with
  | zero => rfl
  | succ count => cases chars <;> simp [digitFirst]

theorem fractionSize_take {chars : List Char} {count : Nat} (enough : fractionSize chars ≤ count) :
    fractionSize (chars.take count) = fractionSize chars := by
  cases count with
  | zero => exact (Nat.le_zero.mp enough).symm
  | succ count =>
      cases chars with
      | nil => rfl
      | cons c rest =>
          by_cases point : c = '.'
          · subst point
            simp only [fractionSize, List.take_succ_cons, digitFirst_take] at enough ⊢
            by_cases digit : digitFirst rest = true
            · rw [if_pos digit] at enough ⊢
              have nonempty := digitCount_pos digit
              have far : 0 < count := by omega
              rw [digitCount_take (by omega), if_pos (by simp [digit, far])]
            · rw [if_neg digit, if_neg (by simp [digit])]
          · simp [fractionSize, point]

theorem exponentSize_letter {chars : List Char} (short : exponentSize chars ≤ 1) :
    exponentSize chars = 0 := by
  match chars with
  | [] | [_] => simp [exponentSize]
  | c :: s :: rest =>
      have signed : digitFirst rest = true → 0 < digitCount rest := digitCount_pos
      have plain : digitFirst (s :: rest) = true → 0 < digitCount (s :: rest) := digitCount_pos
      change s.isDigit = true → _ at plain
      simp only [exponentSize] at short ⊢
      repeat' split
      all_goals grind

theorem exponentSize_take {chars : List Char} {count : Nat} (enough : exponentSize chars ≤ count) :
    exponentSize (chars.take count) = exponentSize chars := by
  match count, chars with
  | 0, _ => exact (Nat.le_zero.mp enough).symm
  | count + 1, [] => rfl
  | count + 1, [c] => simp
  | 1, c :: s :: rest =>
      rw [exponentSize_letter enough]
      simp [exponentSize]
  | count + 2, c :: s :: rest =>
      simp only [exponentSize, List.take_succ_cons] at enough ⊢
      by_cases letter : c = 'e' ∨ c = 'E'
      · rw [if_pos letter] at enough ⊢
        rw [if_pos letter]
        by_cases sign : s = '+' ∨ s = '-'
        · rw [if_pos sign] at enough ⊢
          rw [if_pos sign, digitFirst_take]
          by_cases digit : digitFirst rest = true
          · rw [if_pos digit] at enough ⊢
            have nonempty := digitCount_pos digit
            have far : 0 < count := by omega
            rw [digitCount_take (by omega), if_pos (by simp [digit, far])]
          · rw [if_neg digit, if_neg (by simp [digit])]
        · rw [if_neg sign] at enough ⊢
          rw [if_neg sign]
          by_cases digit : s.isDigit = true
          · rw [if_pos digit] at enough ⊢
            rw [if_pos digit, ← List.take_succ_cons, digitCount_take (by omega)]
          · rw [if_neg digit, if_neg digit]
      · rw [if_neg letter, if_neg letter]

theorem sizeOfDigits_take {chars : List Char} {count : Nat} (enough : sizeOfDigits chars ≤ count) :
    sizeOfDigits (chars.take count) = sizeOfDigits chars := by
  simp only [sizeOfDigits] at enough
  have whole : digitCount (chars.take count) = digitCount chars := digitCount_take (by omega)
  have fraction : fractionSize ((chars.take count).drop (digitCount chars))
      = fractionSize (chars.drop (digitCount chars)) := by
    rw [List.drop_take]
    exact fractionSize_take (by omega)
  rw [sizeOfDigits, whole, fraction, List.drop_take, exponentSize_take (by omega), sizeOfDigits]

theorem signSize_take {chars : List Char} {count : Nat} (nonempty : 0 < count) :
    signSize (chars.take count) = signSize chars := by
  obtain ⟨count, rfl⟩ := Nat.exists_eq_add_one_of_ne_zero nonempty.ne'
  cases chars <;> rfl

theorem numberSize_take {chars : List Char} (nonempty : 0 < numberSize chars) :
    numberSize (chars.take (numberSize chars)) = numberSize chars := by
  rw [numberSize, signSize_take nonempty, List.drop_take, numberSize, Nat.add_sub_cancel_left,
    sizeOfDigits_take (Nat.le_refl _)]

theorem number_alone {c : Char} {rest : List Char} {lexeme : Lexeme}
    (done : number c rest = .ok lexeme) : number c (rest.take (lexeme.size - 1)) = .ok lexeme := by
  have far := lexeme.size_pos
  rw [number_eq_ok] at done ⊢
  obtain ⟨-, value, kind, text, size⟩ := done
  rw [size] at far
  have front : c :: rest.take (lexeme.size - 1)
      = (c :: rest).take (numberSize (c :: rest)) := by
    rw [← List.take_succ_cons, size, Nat.sub_add_cancel far]
  rw [front, numberSize_take far]
  refine ⟨?_, value, kind, ?_, size⟩
  · rw [List.drop_eq_nil_of_le (List.length_take_le _ _)]
    rfl
  · rw [List.take_take, Nat.min_self, text]

/-! ## Other tokens alone -/

theorem word_alone (c : Char) (rest : List Char) :
    word c (rest.take ((word c rest).size - 1)) = word c rest := by
  have front : (rest.take (rest.takeWhile isNamePart).length).takeWhile isNamePart
      = rest.takeWhile isNamePart := by
    rw [← List.take_takeWhile, List.take_length]
  show word c (rest.take ((rest.takeWhile isNamePart).length + 1 - 1)) = _
  rw [Nat.add_sub_cancel]
  simp only [word, front]

theorem mark?_spelling (m : Mark) : mark? m.spelling.toList = some m := by
  cases m <;> decide

theorem marked_alone {c : Char} {rest : List Char} {lexeme : Lexeme}
    (done : marked c rest = .ok lexeme) :
    marked c (rest.take (lexeme.size - 1)) = .ok lexeme
      ∧ digitFirst (rest.take (lexeme.size - 1)) = false := by
  have text := marked_text done
  have front : c :: rest.take (lexeme.size - 1) = lexeme.text.toList := by
    rw [← List.take_succ_cons, Nat.sub_add_cancel lexeme.size_pos, text]
  unfold marked at done
  split at done
  · next m found =>
    cases done
    have front : c :: rest.take (max m.spelling.length 1 - 1) = m.spelling.toList := front
    constructor
    · rw [marked, front, mark?_spelling]
    · have tail : rest.take (max m.spelling.length 1 - 1) = m.spelling.toList.tail := by
        rw [← front, List.tail_cons]
      show digitFirst (rest.take (max m.spelling.length 1 - 1)) = false
      rw [tail]
      cases m <;> decide
  · cases done

/-- A token that is no string is read from its own characters. If it is a signed number, the sign
must still belong to it. -/
theorem read_alone {last last' : Option Char} {c : Char} {rest : List Char} {lexeme : Lexeme}
    (done : read last c rest = .ok lexeme) (ink : lexeme.kind ≠ .plain .text)
    (sign : c ≠ '\n' → ∀ tail, signed last tail = true → signed last' tail = true) :
    read last' c (rest.take (lexeme.size - 1)) = .ok lexeme := by
  unfold read at done ⊢
  by_cases feed : c = '\n'
  · rw [if_pos feed] at done ⊢
    exact done
  rw [if_neg feed] at done ⊢
  by_cases quote : c = '"' ∨ c = '\''
  · rw [if_pos quote] at done
    exact absurd (quoted_spells done).1 ink
  rw [if_neg quote] at done ⊢
  by_cases tick : c = '`'
  · rw [if_pos tick] at done ⊢
    obtain ⟨front, after, -, rfl, size, -, alone, -⟩ := template_front done
    rw [size, Nat.add_sub_cancel, List.take_left]
    exact alone
  rw [if_neg tick] at done ⊢
  by_cases digit : c.isDigit = true
  · rw [if_pos digit] at done ⊢
    exact number_alone done
  rw [if_neg digit] at done ⊢
  by_cases signs : (c = '+' ∨ c = '-') ∧ signed last rest = true
  · rw [if_pos signs] at done
    obtain ⟨digits, before⟩ := Bool.and_eq_true_iff.mp signs.2
    have long : 0 < lexeme.size - 1 := by
      have signSize : signSize (c :: rest) = 1 := if_pos signs.1
      have nonempty := digitCount_pos digits
      rw [((number_eq_ok c rest lexeme).mp done).2.2.2.2, numberSize, signSize, List.drop_one,
        List.tail_cons, Nat.add_sub_cancel_left, sizeOfDigits]
      omega
    have again : signed last (rest.take (lexeme.size - 1)) = true := by
      rw [signed, digitFirst_take, digits, before, decide_eq_true long]
      rfl
    rw [if_pos ⟨signs.1, sign feed _ again⟩]
    exact number_alone done
  rw [if_neg signs] at done
  by_cases name : isNameStart c = true
  · rw [if_pos name] at done
    have plain : ¬ (c = '+' ∨ c = '-') := by
      rintro (rfl | rfl) <;> exact absurd name (by decide)
    rw [if_neg fun bad => plain bad.1, if_pos name]
    cases done
    rw [word_alone]
  · rw [if_neg name] at done
    obtain ⟨alone, digitless⟩ := marked_alone done
    rw [if_neg (by simp [signed, digitless]), if_neg name]
    exact alone

/-! ## Strings -/

def hexText : Nat → Nat → List Char
  | 0, _ => []
  | count + 1, value => hexText count (value / 16) ++ [Nat.digitChar (value % 16)]

theorem hexValue?_digitChar {value : Nat} (small : value < 16) :
    hexValue? (Nat.digitChar value) = some value := by
  revert small value
  decide

theorem length_hexText (count value : Nat) : (hexText count value).length = count := by
  induction count generalizing value with
  | zero => rfl
  | succ count ih => rw [hexText, List.length_append, ih]; rfl

theorem hexValue?_hexText (count value : Nat) : ∀ c ∈ hexText count value, (hexValue? c).isSome := by
  induction count generalizing value with
  | zero => exact fun c bad => absurd bad List.not_mem_nil
  | succ count ih =>
      intro c inside
      rcases List.mem_append.mp inside with early | last
      · exact ih _ c early
      · rw [List.mem_singleton.mp last, hexValue?_digitChar (Nat.mod_lt _ (by decide))]
        rfl

theorem hexNumber_hexText (count value : Nat) :
    hexNumber (hexText count value) = value % 16 ^ count := by
  induction count generalizing value with
  | zero => rw [Nat.pow_zero, Nat.mod_one]; rfl
  | succ count ih =>
      have digit := hexValue?_digitChar (Nat.mod_lt value (y := 16) (by decide))
      rw [hexText, hexNumber, List.foldl_append, ← hexNumber, ih]
      simp only [List.foldl_cons, List.foldl_nil, digit, Option.getD_some]
      rw [Nat.pow_succ', Nat.mod_mul, Nat.add_comm]

def escaped (text : List Char) : List Char :=
  text.flatMap fun c => '\\' :: 'U' :: hexText 8 c.toNat

theorem escape_hexText (c : Char) (more : List Char) :
    escape ('U' :: (hexText 8 c.toNat ++ more)) = .ok (c, 10) := by
  have size := length_hexText 8 c.toNat
  have all : (hexText 8 c.toNat).takeWhile (fun c => (hexValue? c).isSome) = hexText 8 c.toNat :=
    List.takeWhile_eq_self_iff.mpr (hexValue?_hexText 8 c.toNat)
  have valid : c.toNat.isValidChar := c.valid
  have value : hexNumber (hexText 8 c.toNat) = c.toNat := by
    rw [hexNumber_hexText]
    refine Nat.mod_eq_of_lt ?_
    rcases valid with low | ⟨-, high⟩ <;> omega
  show hexEscape 'U' 8 (hexText 8 c.toNat ++ more) = _
  rw [hexEscape, List.take_left' size, all, ← hexNumber, value, if_pos ⟨size, valid⟩,
    Char.ofNat_toNat]

theorem contents_escaped (offset : Nat) (before text more : List Char) :
    contents '"' offset before (escaped text ++ '"' :: more)
      = .ok (String.ofList (before.reverse ++ text), offset + (escaped text).length + 1) := by
  induction text generalizing offset before with
  | nil =>
      show contents '"' offset before ('"' :: more) = _
      rw [contents, if_pos rfl, List.append_nil]
      rfl
  | cons c text ih =>
      have size := length_hexText 8 c.toNat
      have split : escaped (c :: text) ++ '"' :: more
          = '\\' :: 'U' :: (hexText 8 c.toNat ++ (escaped text ++ '"' :: more)) := by
        simp [escaped]
      have left : ('U' :: (hexText 8 c.toNat ++ (escaped text ++ '"' :: more))).drop (10 - 1)
          = escaped text ++ '"' :: more := by
        rw [List.drop_succ_cons, List.drop_left' size]
      have whole : (escaped (c :: text)).length = 10 + (escaped text).length := by
        simp only [escaped, List.flatMap_cons, List.length_append, List.length_cons, size]
      rw [split, contents, if_neg (by decide), if_pos rfl, escape_hexText]
      simp only [left, ih, whole, List.reverse_cons, List.append_assoc, List.singleton_append,
        Nat.add_assoc]

theorem read_escaped (last : Option Char) (text more : List Char) :
    ∃ lexeme, read last '"' (escaped text ++ '"' :: more) = .ok lexeme
      ∧ lexeme.kind = .plain .text ∧ lexeme.text = String.ofList text
      ∧ lexeme.size = (escaped text).length + 2 := by
  refine ⟨⟨.plain .text, String.ofList text, max (1 + (escaped text).length + 1) 1, by omega⟩,
    ?_, rfl, rfl, by show max _ _ = _; omega⟩
  show quoted '"' _ = _
  rw [quoted, contents_escaped]
  rfl

end Lexeme

/-! ## Between tokens -/

/-- Wherever a sign belongs to a number after `last`, it does after `last'`. -/
def Signs (last last' : Option Char) : Prop :=
  ∀ tail, Lexeme.signed last tail = true → Lexeme.signed last' tail = true

namespace Signs

variable {last last' : Option Char}

theorem refl (last : Option Char) : Signs last last := fun _ signed => signed

theorem trans {last'' : Option Char} (front : Signs last last') (back : Signs last' last'') :
    Signs last last'' := fun tail signed => back tail (front tail signed)

theorem out {c : Char} (away : c ∉ Lexeme.signContext) (last : Option Char) :
    Signs (some c) last := by
  intro tail signed
  rw [Lexeme.signed, Bool.and_eq_true_iff] at signed
  exact absurd (by simpa using signed.2) away

theorem lastInk (signs : Signs last last') (chars : List Char) :
    Signs (Cursor.lastInk last chars) (Cursor.lastInk last' chars) := by
  induction chars generalizing last last' with
  | nil => exact signs
  | cons c rest ih =>
      refine ih ?_
      show Signs (if c = ' ' ∨ c = '\t' then last else some c)
        (if c = ' ' ∨ c = '\t' then last' else some c)
      split
      · exact signs
      · exact .refl _

end Signs

namespace Trivia

theorem size_front {offset : Nat} {front after more : List Char} (nonempty : front ≠ [])
    (breaks : Breaks more) (done : size offset (front ++ after) = .ok offset) (other : Nat) :
    size other (front ++ more) = .ok other := by
  -- Whatever is passed over moves the offset on.
  have stays : ∀ {start : Nat} {chars : List Char}, offset < start →
      size start chars ≠ .ok offset := by
    intro start chars later bad
    obtain ⟨_, _, -, same, -⟩ := size_blank start chars bad
    omega
  obtain ⟨c, tail, rfl⟩ := List.exists_cons_of_ne_nil nonempty
  have line : ∀ rest, c = '/' → tail ++ after = '/' :: rest → False := by
    rintro rest rfl same
    rw [List.cons_append, same, size] at done
    exact stays (by omega) done
  have block : ∀ rest, c = '/' → tail ++ after = '*' :: rest → False := by
    rintro rest rfl same
    rw [List.cons_append, same, size] at done
    split at done
    · cases done
    · exact stays (by omega) done
  rw [List.cons_append, size.eq_3 _ _ _ line block] at done
  have ink : ¬ (c = ' ' ∨ c = '\t' ∨ c = '\r') := fun blank => by
    rw [if_pos blank] at done
    exact stays (by omega) done
  rw [List.cons_append, size.eq_3, if_neg ink]
  · exact fun rest slash => breaks.absent
      (fun rest same => line (rest ++ after) slash (by rw [same]; rfl)) (by decide) (by decide) rest
  · exact fun rest slash => breaks.absent
      (fun rest same => block (rest ++ after) slash (by rw [same]; rfl)) (by decide) (by decide) rest

theorem Blank.signs {front after : List Char} (blank : Blank front after)
    (here : after.head? ≠ some '\n') (more : after ≠ []) (last : Option Char) :
    Signs (Cursor.lastInk last front) last := by
  induction blank generalizing last with
  | none => exact .refl last
  | @space c front after blank later ih =>
      rcases blank with rfl | rfl | rfl
      · exact ih here more last
      · exact ih here more last
      · exact (ih here more (some '\r')).trans (.out (by decide) last)
  | line inside ends =>
      rcases ends with rfl | ⟨_, rfl⟩
      · exact absurd rfl more
      · exact absurd rfl here
  | @block text front after inside later ih =>
      have split : Cursor.lastInk last ('/' :: '*' :: (text ++ '*' :: '/' :: front))
          = Cursor.lastInk (some '/') front := by
        simp [Cursor.lastInk]
      rw [split]
      exact (ih here more (some '/')).trans (.out (by decide) last)

end Trivia

/-! ## Tokens again -/

namespace TemplatePiece

def unplaced : TemplatePiece → TemplatePiece
  | text cooked => text cooked
  | hole source _ => hole source .unknown

end TemplatePiece

namespace TokenKind

def unplaced : TokenKind → TokenKind
  | template pieces => template (pieces.map TemplatePiece.unplaced)
  | kind => kind

end TokenKind

namespace Token

/-- The token wherever it stands: its kind, the pieces of a template included, and its text. -/
def unplaced (token : Token) : Token := ⟨token.kind.unplaced, token.text, .unknown⟩

/-- A spelling of the token: a string with every character escaped, any other token by its text. -/
def respelled (token : Token) : List Char :=
  if token.kind = .text then '"' :: (Lexeme.escaped token.text.toList ++ ['"'])
  else token.text.toList

/-- The tokens spelled one after another with a space between each two. -/
def respell (tokens : List Token) : String :=
  String.ofList ([' '].intercalate
    ((tokens.filter fun token => token.kind ≠ .endOfInput).map respelled))

def spaced (tokens : List Token) : List Char :=
  (tokens.filter fun token => token.kind ≠ .endOfInput).flatMap fun token => ' ' :: token.respelled

theorem spaced_breaks (tokens : List Token) : Breaks (spaced tokens) := by
  unfold spaced
  cases tokens.filter fun token => token.kind ≠ .endOfInput with
  | nil => trivial
  | cons token later => exact .inl rfl

theorem intercalate_space (word : List Char) (words : List (List Char)) :
    [' '].intercalate (word :: words) = word ++ words.flatMap (' ' :: ·) := by
  induction words generalizing word with
  | nil => simp
  | cons next words ih =>
      rw [List.intercalate_cons_cons, ih, List.flatMap_cons]
      simp

theorem respell_spaced (tokens : List Token) :
    (respell tokens).toList = spaced tokens ∨ ' ' :: (respell tokens).toList = spaced tokens := by
  rw [respell, String.toList_ofList, spaced]
  cases tokens.filter fun token => token.kind ≠ .endOfInput with
  | nil => exact .inl rfl
  | cons token later =>
      right
      rw [List.map_cons, intercalate_space, List.flatMap_cons, List.flatMap_map]
      rfl

end Token

namespace Cursor

theorem unplaced_token (cursor other : Cursor) (lexeme : Lexeme) :
    (cursor.token lexeme).unplaced = (other.token lexeme).unplaced := by
  cases kind : lexeme.kind with
  | plain => simp only [Cursor.token, Token.unplaced, kind]
  | template found =>
      have same : (found.map (cursor.piece ·)).map TemplatePiece.unplaced
          = (found.map (other.piece ·)).map TemplatePiece.unplaced := by
        rw [List.map_map, List.map_map]
        refine List.map_congr_left fun piece _ => ?_
        cases piece <;> rfl
      simp only [Cursor.token, Token.unplaced, kind, TokenKind.unplaced, same]

section Reread

variable {upper lower : Cursor} {blank : Nat} {c : Char} {rest gap more : List Char}
  {lexeme : Lexeme}

theorem size_gap (space : gap = [] ∨ gap = [' ']) {chars : List Char}
    (stops : ∀ offset, Trivia.size offset chars = .ok offset) :
    Trivia.size 0 (gap ++ chars) = .ok gap.length := by
  rcases space with rfl | rfl
  · exact stops 0
  · rw [List.singleton_append, Trivia.size.eq_3 _ ' ' _ (fun _ bad _ => absurd bad (by decide))
      (fun _ bad _ => absurd bad (by decide)), if_pos (.inl rfl)]
    exact stops 1

theorem last_gap (space : gap = [] ∨ gap = [' ']) (cursor : Cursor) {chars : List Char}
    (text : cursor.rest = gap ++ chars) :
    (cursor.advance gap.length).rest = chars ∧ (cursor.advance gap.length).last = cursor.last := by
  constructor
  · rw [rest_advance, text, List.drop_left]
  · rw [last_advance, text, List.take_left]
    rcases space with rfl | rfl <;> rfl

theorem reread_verbatim (blanks : Trivia.size 0 upper.rest = .ok blank)
    (front : (upper.advance blank).rest = c :: rest)
    (read : Lexeme.read (upper.advance blank).last c rest = .ok lexeme)
    (ink : lexeme.kind ≠ .plain .text)
    (signs : Signs upper.last lower.last) (space : gap = [] ∨ gap = [' '])
    (text : lower.rest = gap ++ (lexeme.text.toList ++ more))
    (breaks : Breaks more) :
    ∃ rest', Trivia.size 0 lower.rest = .ok gap.length
      ∧ (lower.advance gap.length).rest = c :: rest'
      ∧ Lexeme.read (lower.advance gap.length).last c rest' = .ok lexeme
      ∧ ((lower.advance gap.length).advance lexeme.size).rest = more
      ∧ Signs ((upper.advance blank).advance lexeme.size).last
          ((lower.advance gap.length).advance lexeme.size).last := by
  obtain ⟨trivia, after, whole, size, blanks, stops⟩ := Trivia.size_blank 0 upper.rest blanks
  rw [Nat.zero_add] at size
  subst size
  have above : (upper.advance trivia.length).rest = after := by
    rw [rest_advance, whole, List.drop_left]
  have last : (upper.advance trivia.length).last = lastInk upper.last trivia := by
    rw [last_advance, whole, List.take_left]
  obtain ⟨here, ink'⟩ := last_gap space lower text
  obtain rfl : after = c :: rest := above.symm.trans front
  have spelled : lexeme.text.toList = c :: rest.take (lexeme.size - 1) := by
    rw [← List.take_succ_cons, Nat.sub_add_cancel lexeme.size_pos]
    generalize (c :: rest).take lexeme.size = spelling, Lexeme.read_spells read = spells
    cases spells with
    | quoted _ kind _ => exact absurd kind ink
    | template _ _ | verbatim _ _ _ => rfl
  have split : c :: rest = lexeme.text.toList ++ rest.drop (lexeme.size - 1) := by
    rw [spelled, List.cons_append, List.take_append_drop]
  have fits : lexeme.text.toList.length = lexeme.size := by
    have inside := (Lexeme.read_form read).1
    have long := lexeme.size_pos
    rw [spelled, List.length_cons, List.length_take]
    omega
  have sign : c ≠ '\n' → Signs (upper.advance trivia.length).last
      (lower.advance gap.length).last := fun line => by
    rw [last, ink']
    exact (blanks.signs (by simpa using line) (by rintro ⟨⟩) upper.last).trans signs
  refine ⟨rest.take (lexeme.size - 1) ++ more, ?_, ?_, ?_, ?_, ?_⟩
  · rw [text]
    rw [split] at stops
    refine size_gap space (Trivia.size_front ?_ breaks stops)
    exact List.ne_nil_of_length_pos (fits ▸ lexeme.size_pos)
  · rw [here, spelled, List.cons_append]
  · exact Lexeme.read_append breaks.severs (Lexeme.read_alone read ink sign)
  · rw [rest_advance, here, List.drop_left' fits]
  · rw [last_advance (upper.advance _), last_advance (lower.advance _), front, here, List.take_left' fits, split, List.take_left' fits]
    by_cases line : c = '\n'
    · subst line
      cases read
      exact .refl _
    · exact (sign line).lastInk _

theorem reread_text (front : (upper.advance blank).rest = c :: rest)
    (read : Lexeme.read (upper.advance blank).last c rest = .ok lexeme)
    (kind : lexeme.kind = .plain .text) (space : gap = [] ∨ gap = [' '])
    (text : lower.rest = gap ++ ('"' :: (Lexeme.escaped lexeme.text.toList ++ '"' :: more))) :
    ∃ rest' lexeme', Trivia.size 0 lower.rest = .ok gap.length
      ∧ (lower.advance gap.length).rest = '"' :: rest'
      ∧ Lexeme.read (lower.advance gap.length).last '"' rest' = .ok lexeme'
      ∧ lexeme'.kind = lexeme.kind ∧ lexeme'.text = lexeme.text
      ∧ ((lower.advance gap.length).advance lexeme'.size).rest = more
      ∧ Signs ((upper.advance blank).advance lexeme.size).last
          ((lower.advance gap.length).advance lexeme'.size).last := by
  obtain ⟨here, -⟩ := last_gap space lower text
  obtain ⟨lexeme', again, kind', content, size⟩ :=
    Lexeme.read_escaped (lower.advance gap.length).last lexeme.text.toList more
  have quoted : ∃ quote raw, (c :: rest).take lexeme.size = quote :: (raw ++ [quote])
      ∧ (quote = '"' ∨ quote = '\'') := by
    generalize (c :: rest).take lexeme.size = spelling, Lexeme.read_spells read = spells
    cases spells with
    | quoted quotes _ _ => exact ⟨_, _, rfl, quotes⟩
    | template kind' _ => cases kind.symm.trans kind'
    | verbatim kind' ink _ =>
        rw [kind] at kind'
        exact absurd (LexemeKind.plain.inj kind').symm ink
  obtain ⟨quote, raw, shown, quotes⟩ := quoted
  have last : ((upper.advance blank).advance lexeme.size).last = some quote := by
    rw [last_advance, front, shown]
    rcases quotes with rfl | rfl <;> simp [lastInk]
  refine ⟨_, lexeme', ?_, here, again, kind'.trans kind.symm, ?_, ?_, ?_⟩
  · rw [text]
    refine size_gap space fun offset => ?_
    rw [Trivia.size.eq_3 _ '"' _ (fun _ bad _ => absurd bad (by decide))
      (fun _ bad _ => absurd bad (by decide)), if_neg (by decide)]
  · rw [content, String.ofList_toList]
  · rw [rest_advance, here, size, List.drop_succ_cons, List.append_cons, List.drop_left' (by simp)]
  · rw [last]
    rcases quotes with rfl | rfl <;> exact .out (by decide) _

theorem reread (blanks : Trivia.size 0 upper.rest = .ok blank)
    (front : (upper.advance blank).rest = c :: rest)
    (read : Lexeme.read (upper.advance blank).last c rest = .ok lexeme)
    (signs : Signs upper.last lower.last) (space : gap = [] ∨ gap = [' '])
    (text : lower.rest = gap ++ (((upper.advance blank).token lexeme).respelled ++ more))
    (breaks : Breaks more) :
    ∃ blank' c' rest' lexeme', Trivia.size 0 lower.rest = .ok blank'
      ∧ (lower.advance blank').rest = c' :: rest'
      ∧ Lexeme.read (lower.advance blank').last c' rest' = .ok lexeme'
      ∧ ((lower.advance blank').token lexeme').unplaced
        = ((upper.advance blank).token lexeme).unplaced
      ∧ ((lower.advance blank').advance lexeme'.size).rest = more
      ∧ Signs ((upper.advance blank).advance lexeme.size).last
          ((lower.advance blank').advance lexeme'.size).last := by
  by_cases kind : lexeme.kind = .plain .text
  · have spelled : ((upper.advance blank).token lexeme).respelled ++ more
        = '"' :: (Lexeme.escaped lexeme.text.toList ++ '"' :: more) := by
      have kind : ((upper.advance blank).token lexeme).kind = .text := by simp only [token, kind]
      rw [Token.respelled, if_pos kind]
      simp [token]
    rw [spelled] at text
    obtain ⟨rest', lexeme', size, first, again, same, content, left, after⟩ :=
      reread_text front read kind space text
    refine ⟨_, _, rest', lexeme', size, first, again, ?_, left, after⟩
    simp only [token, Token.unplaced, same, content, kind]
  · have spelled : ((upper.advance blank).token lexeme).respelled = lexeme.text.toList := by
      refine if_neg fun bad => kind ?_
      cases kind' : lexeme.kind with
      | plain => simpa only [token, kind'] using congrArg LexemeKind.plain bad
      | template =>
          simp only [token, kind'] at bad
          cases bad
    rw [spelled] at text
    obtain ⟨rest', size, first, again, left, after⟩ :=
      reread_verbatim blanks front read kind signs space text breaks
    exact ⟨_, _, rest', lexeme, size, first, again, unplaced_token _ _ _, left, after⟩

end Reread

end Cursor

theorem Scans.again {upper : Cursor} {tokens : List Token} (scans : Scans upper tokens)
    {lower : Cursor} (signs : Signs upper.last lower.last)
    (text : lower.rest = Token.spaced tokens ∨ ' ' :: lower.rest = Token.spaced tokens) :
    ∃ again, Scans lower again ∧ again.map Token.unplaced = tokens.map Token.unplaced := by
  induction scans generalizing lower with
  | @finish upper blank blanks all =>
      have ended : lower.rest = [] := text.resolve_right (by rintro ⟨⟩)
      have blanks : Trivia.size 0 lower.rest = .ok 0 := by rw [ended, Trivia.size]
      have all : (lower.advance 0).rest = [] := ended
      exact ⟨_, .finish blanks all, rfl⟩
  | @token upper blank c rest lexeme tokens blanks front read later ih =>
      have spaced : Token.spaced ((upper.advance blank).token lexeme :: tokens)
          = ' ' :: (((upper.advance blank).token lexeme).respelled ++ Token.spaced tokens) := by
        have shown := (upper.advance blank).kind_token (Lexeme.read_form read).2
        simp [Token.spaced, shown]
      rw [spaced] at text
      obtain ⟨gap, space, text⟩ : ∃ gap, (gap = [] ∨ gap = [' '])
          ∧ lower.rest = gap ++ (((upper.advance blank).token lexeme).respelled
            ++ Token.spaced tokens) := by
        rcases text with text | text
        · exact ⟨[' '], .inr rfl, text⟩
        · exact ⟨[], .inl rfl, (List.cons.inj text).2⟩
      obtain ⟨blank', c', rest', lexeme', blanks', front', read', same, text, signs⟩ :=
        Cursor.reread blanks front read signs space text (Token.spaced_breaks tokens)
      obtain ⟨again, scans, all⟩ := ih signs (.inl text)
      exact ⟨_, .token blanks' front' read' scans, by rw [List.map_cons, same, all, List.map_cons]⟩

/-- Tokens written one after another with a space between each two give themselves again. -/
theorem tokenizeAt_respell {text : String} {start : Position} {tokens : List Token}
    (done : tokenizeAt text start = .ok tokens) (start' : Position) :
    ∃ again, tokenizeAt (Token.respell tokens) start' = .ok again
      ∧ again.map Token.unplaced = tokens.map Token.unplaced := by
  have signs : Signs none (Cursor.start (Token.respell tokens) start').last := .refl none
  obtain ⟨again, scans, same⟩ :=
    (Scans.tokenizeAt_eq_ok.mp done).again signs (Token.respell_spaced tokens)
  exact ⟨again, Scans.tokenizeAt_eq_ok.mpr scans, same⟩

theorem tokenizeAt_respell_text :
    tokenizeAt "x?.y\t'é'`$\x7b\"\x7d\"\x7d`// (" .start = .ok
      [⟨.ident, "x", ⟨1, 1⟩⟩, ⟨.mark .questionDot, "?.", ⟨1, 2⟩⟩, ⟨.ident, "y", ⟨1, 4⟩⟩,
        ⟨.text, "é", ⟨1, 6⟩⟩, ⟨.template [.hole "\"\x7d\"" ⟨1, 12⟩], "`$\x7b\"\x7d\"\x7d`", ⟨1, 9⟩⟩,
        ⟨.endOfInput, "", ⟨1, 21⟩⟩]
    ∧ ∃ again, tokenizeAt "x ?. y \"\\U000000e9\" `$\x7b\"\x7d\"\x7d`" .start = .ok again
      ∧ again.map Token.unplaced =
      [⟨.ident, "x", .unknown⟩, ⟨.mark .questionDot, "?.", .unknown⟩, ⟨.ident, "y", .unknown⟩,
        ⟨.text, "é", .unknown⟩, ⟨.template [.hole "\"\x7d\"" .unknown], "`$\x7b\"\x7d\"\x7d`", .unknown⟩,
        ⟨.endOfInput, "", .unknown⟩] := by
  have read : tokenizeAt "x?.y\t'é'`$\x7b\"\x7d\"\x7d`// (" .start = .ok
      [⟨.ident, "x", ⟨1, 1⟩⟩, ⟨.mark .questionDot, "?.", ⟨1, 2⟩⟩, ⟨.ident, "y", ⟨1, 4⟩⟩,
        ⟨.text, "é", ⟨1, 6⟩⟩, ⟨.template [.hole "\"\x7d\"" ⟨1, 12⟩], "`$\x7b\"\x7d\"\x7d`", ⟨1, 9⟩⟩,
        ⟨.endOfInput, "", ⟨1, 21⟩⟩] := by cbv
  have spelled : Token.respell
      [⟨.ident, "x", ⟨1, 1⟩⟩, ⟨.mark .questionDot, "?.", ⟨1, 2⟩⟩, ⟨.ident, "y", ⟨1, 4⟩⟩,
        ⟨.text, "é", ⟨1, 6⟩⟩, ⟨.template [.hole "\"\x7d\"" ⟨1, 12⟩], "`$\x7b\"\x7d\"\x7d`", ⟨1, 9⟩⟩,
        ⟨.endOfInput, "", ⟨1, 21⟩⟩]
      = "x ?. y \"\\U000000e9\" `$\x7b\"\x7d\"\x7d`" := by decide
  exact ⟨read, spelled ▸ tokenizeAt_respell read .start⟩

end Rill

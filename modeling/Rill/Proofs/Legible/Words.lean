import Rill.Proofs.Legible

/-!
# Words

The words that a source text is written with: marks, keywords, names, strings and numbers. All are
legible wherever they stand, but for a number with a sign. What a production takes for a name is a
name again.
-/

set_option autoImplicit false

namespace Rill

open Token (Legible Plain)

namespace Word

def mark (m : Mark) : Token := ⟨.mark m, m.spelling, .unknown⟩

def name (text : String) : Token :=
  ⟨match Keyword.ofWord? text with
    | some keyword => .keyword keyword
    | none => .ident, text, .unknown⟩

def keyword (k : Keyword) : Token := ⟨.keyword k, k.name, .unknown⟩

def text (content : String) : Token := ⟨.text, content, .unknown⟩

def number (text : String) : Token := ⟨.number, text, .unknown⟩

theorem keyword_eq_name (k : Keyword) : keyword k = name k.name := by
  cases k <;> decide

end Word

namespace Lexeme

variable {last last' : Option Char} {c : Char} {rest : List Char} {lexeme : Lexeme}

theorem isNameStart_other (starts : isNameStart c = true) {other : Char}
    (away : isNameStart other = false) : c ≠ other := by
  rintro rfl
  exact nomatch starts.symm.trans away

theorem isNameStart_digit (digit : c.isDigit = true) : isNameStart c = false := by
  have lower : c ≠ '_' := by rintro rfl; exact absurd digit (by decide)
  have dollar : c ≠ '$' := by rintro rfl; exact absurd digit (by decide)
  have same : c.toNat = c.val.toNat := rfl
  simp only [Char.isDigit, Bool.and_eq_true, decide_eq_true_eq, UInt32.le_iff_toNat_le, ge_iff_le,
    show '0'.val.toNat = 48 from rfl, show '9'.val.toNat = 57 from rfl] at digit
  have small : c.toNat < 128 := by omega
  have alpha : c.isAlpha = false := by
    simp only [Char.isAlpha, Char.isUpper, Char.isLower, Bool.or_eq_false_iff, Bool.and_eq_false_iff,
      decide_eq_false_iff_not, UInt32.le_iff_toNat_le, ge_iff_le, show 'A'.val.toNat = 65 from rfl,
      show 'a'.val.toNat = 97 from rfl]
    omega
  simp [isNameStart, lower, dollar, small, alpha]

theorem read_word (last : Option Char) (starts : isNameStart c = true) (rest : List Char) :
    read last c rest = .ok (word c rest) := by
  have away {other : Char} (out : isNameStart other = false) : c ≠ other :=
    isNameStart_other starts out
  have digit : ¬ c.isDigit = true := fun digit =>
    nomatch starts.symm.trans (isNameStart_digit digit)
  rw [read, if_neg (away (by decide)), if_neg (not_or.mpr ⟨away (by decide), away (by decide)⟩),
    if_neg (away (by decide)), if_neg digit, if_neg, if_pos starts]
  exact fun bad => bad.1.elim (away (by decide)) (away (by decide))

theorem no_trivia (done : read last c rest = .ok lexeme) (all : lexeme.size = rest.length + 1) :
    Trivia.size 0 (c :: rest) = .ok 0 := by
  have ink : ¬ (c = ' ' ∨ c = '\t' ∨ c = '\r') := by
    rintro (rfl | rfl | rfl) <;> exact nomatch done
  have slash {d : Char} {tail : List Char} (comment : d = '/' ∨ d = '*') :
      ¬ (c = '/' ∧ rest = d :: tail) := by
    rintro ⟨rfl, rfl⟩
    have short : read last '/' (d :: tail) = .ok ⟨.plain (.mark .slash), "/", 1, Nat.one_pos⟩ := by
      rcases comment with rfl | rfl <;> rfl
    rw [short] at done
    cases done
    simp at all
  rw [Trivia.size.eq_3 _ _ _ (fun _ here same => slash (.inl rfl) ⟨here, same⟩)
    (fun _ here same => slash (.inr rfl) ⟨here, same⟩), if_neg ink]

theorem read_legible (done : read last c rest = .ok lexeme) (ink : lexeme.kind ≠ .plain .text)
    (signs : Signs last last') (cursor : Cursor) : (cursor.token lexeme).unplaced.Legible last' := by
  have kind : (cursor.token lexeme).unplaced.kind ≠ .text := by
    intro bad
    cases plain : lexeme.kind with
    | template => simp [Cursor.token, Token.unplaced, TokenKind.unplaced, plain] at bad
    | plain sort =>
        cases sort <;> simp_all [Cursor.token, Token.unplaced, TokenKind.unplaced]
  have spelled : lexeme.text.toList = c :: rest.take (lexeme.size - 1) := by
    rw [← List.take_succ_cons, Nat.sub_add_cancel lexeme.size_pos]
    generalize (c :: rest).take lexeme.size = spelling, read_spells done = spells
    cases spells with
    | quoted _ kind _ => exact absurd kind ink
    | template _ _ | verbatim _ _ _ => rfl
  have fits : lexeme.size = (rest.take (lexeme.size - 1)).length + 1 := by
    have inside := (read_form done).1
    have long := lexeme.size_pos
    rw [List.length_take]
    omega
  have alone := read_alone done ink fun _ => signs
  exact ⟨c, _, lexeme, (if_neg kind).trans spelled, no_trivia alone fits, alone, fits,
    fun other => Cursor.unplaced_token other cursor lexeme⟩

end Lexeme

/-! ## Names -/

/-- The text of a name or a keyword: what can name a member. -/
structure Nameable (text : String) : Prop where
  plain : (Word.name text).Plain false
  member : Parser.isMemberName (Word.name text) = true

/-- The text of a name that is no keyword. -/
structure Identifier (text : String) : Prop extends Nameable text where
  free : Keyword.ofWord? text = none

theorem Identifier.name_eq {text : String} (found : Identifier text) :
    Word.name text = ⟨.ident, text, .unknown⟩ := by
  rw [Word.name, found.free]

theorem Word.unplaced_word (cursor : Cursor) (c : Char) (rest : List Char) :
    (cursor.token (Lexeme.word c rest)).unplaced = name (Lexeme.word c rest).text := by
  simp only [Cursor.token, Token.unplaced, Lexeme.word, name]
  cases Keyword.ofWord? (String.ofList (c :: rest.takeWhile isNamePart)) <;> rfl

theorem Nameable.of_word {c : Char} (starts : isNameStart c = true) (rest : List Char) :
    Nameable (Lexeme.word c rest).text where
  plain last _ := by
    have ink : (Lexeme.word c rest).kind ≠ .plain .text := by
      rw [Lexeme.word_kind]
      split <;> simp
    rw [← Word.unplaced_word (Cursor.start "" .start)]
    exact Lexeme.read_legible (Lexeme.read_word last starts rest) ink (.refl last) _
  member := by
    have first : ((Lexeme.word c rest).text.toList.head?.map isNameStart).getD false = true := by
      rw [Lexeme.word_text, Lexeme.word, List.take_succ_cons]
      exact starts
    unfold Word.name Parser.isMemberName
    split
    · next kind => simp only at kind; split at kind <;> cases kind
    · next kind => simp only at kind; split at kind <;> cases kind
    · exact first

theorem Nameable.of_chars {text : String} {c : Char} {rest : List Char} (spelled : text.toList = c :: rest)
    (starts : isNameStart c = true) (parts : rest.all isNamePart = true) : Nameable text := by
  have same : (Lexeme.word c rest).text = text := by
    show String.ofList (c :: rest.takeWhile isNamePart) = text
    rw [List.takeWhile_eq_self_iff.mpr (List.all_eq_true.mp parts), ← spelled, String.ofList_toList]
  exact same ▸ .of_word starts rest

namespace Token

variable {token : Token}

theorem Genuine.nameable (genuine : token.Genuine) (name : Parser.isMemberName token = true) :
    Nameable token.text ∧ token.unplaced = Word.name token.text := by
  obtain ⟨cursor, last, c, rest, lexeme, read, -, rfl⟩ := genuine
  obtain ⟨starts, ink⟩ : isNameStart c = true ∧ lexeme.kind ≠ .plain .text := by
    generalize spelled : (c :: rest).take lexeme.size = spelling
    have first : spelling.head? = some c := by
      rw [← spelled, ← Nat.sub_add_cancel lexeme.size_pos]
      rfl
    cases spelled ▸ Lexeme.read_spells read with
    | quoted _ kind _ | template kind _ =>
        simp [Cursor.token, kind, Parser.isMemberName] at name
    | verbatim kind ink whole =>
        refine ⟨?_, fun bad => ink (LexemeKind.plain.inj (kind.symm.trans bad))⟩
        simpa only [Cursor.token, kind, Parser.isMemberName, first, Option.map_some,
          Option.getD_some] using name
  have word := Lexeme.read_word last starts rest
  rw [read] at word
  cases word
  exact ⟨.of_word starts rest, Word.unplaced_word cursor c rest⟩

theorem Genuine.identifier (genuine : token.Genuine) (ident : token.kind = .ident) :
    Identifier token.text := by
  obtain ⟨cursor, last, c, rest, lexeme, read, -, rfl⟩ := genuine
  cases (Lexeme.read_form read).2 with
  | text kind | template kind _ | feed kind _ | mark kind _ | number kind _ =>
      simp [Cursor.token, kind] at ident
  | word starts rest =>
      refine ⟨.of_word starts rest, ?_⟩
      simp only [Cursor.token, Lexeme.word_kind] at ident
      split at ident
      · cases ident
      · next free => exact free

end Token

/-! ## Fixed words -/

namespace Word

/-- A mark is written with characters that nothing but a mark starts with. -/
theorem spelling_marks (m : Mark) : ∃ c rest, m.spelling.toList = c :: rest ∧ c ≠ '\n'
    ∧ ¬ (c = '"' ∨ c = '\'') ∧ c ≠ '`' ∧ c.isDigit = false ∧ isNameStart c = false
    ∧ Lexeme.digitFirst rest = false := by
  cases m <;> exact ⟨_, _, rfl, by decide, by decide, by decide, by decide, by decide, by decide⟩

theorem mark_plain (m : Mark) : (mark m).Plain false := by
  intro last _
  have shown : (mark m).kind ≠ .text := nofun
  obtain ⟨c, rest, spelled, feed, quote, tick, digit, name, signless⟩ := spelling_marks m
  have found := Lexeme.mark?_spelling m
  rw [spelled] at found
  have size : m.spelling.length = rest.length + 1 := by
    rw [← String.length_toList, spelled, List.length_cons]
  have read : Lexeme.read last c rest
      = .ok ⟨.plain (.mark m), m.spelling, max m.spelling.length 1, by omega⟩ := by
    rw [Lexeme.read, if_neg feed, if_neg quote, if_neg tick, if_neg (by simp [digit]),
      if_neg (by simp [Lexeme.signed, signless]), if_neg (by simp [name]), Lexeme.marked, found]
  have fits : max m.spelling.length 1 = rest.length + 1 := by omega
  exact ⟨c, rest, _, (if_neg shown).trans spelled, Lexeme.no_trivia read fits, read, fits, fun _ => rfl⟩

theorem keyword_plain (k : Keyword) : (keyword k).Plain false := by
  have named : Nameable k.name := by cases k <;> exact .of_chars rfl (by decide) rfl
  rw [keyword_eq_name]
  exact named.plain

theorem text_plain (content : String) : (text content).Plain false := by
  intro last _
  obtain ⟨lexeme, read, kind, same, size⟩ := Lexeme.read_escaped last content.toList []
  have fits : lexeme.size = (Lexeme.escaped content.toList ++ ['"']).length + 1 := by
    rw [size, List.length_append]
    rfl
  refine ⟨'"', _, lexeme, if_pos rfl, Lexeme.no_trivia read fits, read, fits, fun cursor => ?_⟩
  simp only [Cursor.token, Token.unplaced, kind, same, String.ofList_toList]
  rfl

end Word

/-! ## Numbers -/

theorem Signable.signed {last : Option Char} (signable : Signable last) (tail : List Char) :
    Lexeme.signed last tail = Lexeme.digitFirst tail := by
  rw [Lexeme.signed, signable, Bool.and_true]

/-- The text is that of a number token with the value `x`. A sign makes it one only where it belongs
to the number. -/
structure Numeral (signed : Bool) (text : String) (x : Float) : Prop where
  value : Number.read text = some x
  plain : (Word.number text).Plain signed

theorem Numeral.mono {text : String} {x : Float} (numeral : Numeral false text x) (signed : Bool) :
    Numeral signed text x := ⟨numeral.value, fun last _ => numeral.plain last nofun⟩

theorem Token.Genuine.numeral {token : Token} (genuine : token.Genuine) (kind : token.kind = .number)
    {x : Float} (value : Number.read token.text = some x) : Numeral true token.text x := by
  refine ⟨value, fun last signable => ?_⟩
  obtain ⟨cursor, last', c, rest, lexeme, read, -, rfl⟩ := genuine
  have signs : Signs last' last := by
    intro tail signed
    rw [Lexeme.signed, Bool.and_eq_true] at signed
    rw [(signable rfl).signed, signed.1]
  have plain := cursor.plain_of_kind_token kind
  have same : (cursor.token lexeme).unplaced = Word.number (cursor.token lexeme).text := by
    rw [Token.unplaced, kind]
    rfl
  rw [← same]
  exact Lexeme.read_legible read (by simp [plain]) signs cursor

end Rill

import Rill.Proofs.Comments
import Rill.Proofs.Skipping

/-!
# What stands before a signed number

A sign belongs to a number where the nearest character before it, spaces and tabs apart, is one of
five. No comment ends in one of them, and of the tokens only some marks do (`lastInk_read`). So the
token before such a number is one of these marks (`sign_follows_mark`), and never one that an operand
can end with.
-/

set_option autoImplicit false

namespace Rill

/-- The marks whose last character lets a sign belong to the number after it. -/
def Mark.beforeSign : List Mark :=
  [.openParen, .comma, .openBracket, .colon, .assign, .equal, .notEqual, .lessEqual, .greaterEqual,
    .plusEq, .minusEq, .starEq, .slashEq, .percentEq]

def TokenKind.endsOperand : TokenKind → Bool
  | number | text | template _ | ident | keyword _ => true
  | mark m => m = .closeParen || m = .closeBracket || m = .closeBrace
  | newline | endOfInput => false

namespace Token

def IsSigned (token : Token) : Prop :=
  token.kind = .number ∧ ∃ sign, token.text.toList.head? = some sign ∧ (sign = '+' ∨ sign = '-')

/-- The last token of a row is a mark that lets a sign belong to the number after it. -/
def OpensSign (row : List Token) : Prop :=
  ∃ previous m, row.getLast? = some previous ∧ previous.kind = .mark m ∧ m ∈ Mark.beforeSign

theorem not_endsOperand {m : Mark} (inside : m ∈ Mark.beforeSign) :
    (TokenKind.mark m).endsOperand = false := by
  cases m <;> first | rfl | exact absurd inside (by decide)

end Token

/-! ## The last character of a token -/

namespace Cursor

theorem lastInk_concat (last : Option Char) (front : List Char) {c : Char} (ink : ¬ (c = ' ' ∨ c = '\t')) :
    lastInk last (front ++ [c]) = some c := by
  rw [lastInk_append]
  exact if_neg ink

theorem lastInk_mem (last : Option Char) {c : Char} (ink : ¬ (c = ' ' ∨ c = '\t')) (rest : List Char) :
    ∃ d ∈ c :: rest, lastInk last (c :: rest) = some d := by
  induction rest using List.reverseRecOn with
  | nil => exact ⟨c, List.mem_cons_self, if_neg ink⟩
  | append_singleton rest d ih =>
      rw [← List.cons_append]
      by_cases blank : d = ' ' ∨ d = '\t'
      · obtain ⟨found, member, same⟩ := ih
        refine ⟨found, List.mem_append_left [d] member, ?_⟩
        rw [lastInk_append, same]
        exact if_pos blank
      · exact ⟨d, List.mem_append_right (c :: rest) (List.mem_singleton_self d),
          lastInk_concat last (c :: rest) blank⟩

end Cursor

namespace Lexeme

theorem Numeric.not_mem_signContext {c : Char} (numeric : Numeric c) : c ∉ signContext := by
  intro inside
  simp only [signContext, List.mem_cons, List.not_mem_nil, or_false] at inside
  rcases inside with rfl | rfl | rfl | rfl | rfl <;> exact absurd numeric (by decide)

theorem not_mem_signContext_of_isNamePart {c : Char} (part : isNamePart c = true) :
    c ∉ signContext := by
  intro inside
  simp only [signContext, List.mem_cons, List.not_mem_nil, or_false] at inside
  rcases inside with rfl | rfl | rfl | rfl | rfl <;> exact absurd part (by decide)

theorem mem_beforeSign {m : Mark} {last : Option Char} {ink : Char}
    (ends : Cursor.lastInk last m.spelling.toList = some ink) (inside : ink ∈ signContext) :
    m ∈ Mark.beforeSign := by
  cases m <;> cases ends <;> first | decide | exact absurd inside (by decide)

variable {last : Option Char} {c ink : Char} {rest : List Char} {lexeme : Lexeme}

theorem template_tick (done : template rest = .ok lexeme) :
    ∃ inside after, rest = inside ++ '`' :: after ∧ lexeme.size = inside.length + 2 := by
  obtain ⟨found, read, size⟩ := pieces_of_template done
  obtain ⟨-, after, rfl, whole, -, ⟨inside, rfl⟩, -⟩ := pieces_front 1 [] [] rest read
  rw [List.length_append, List.length_singleton] at whole
  exact ⟨inside, after, by rw [List.append_assoc]; rfl, by omega⟩

/-- Of all tokens only some marks end in a character after which a sign belongs to a number. -/
theorem lastInk_read (done : read last c rest = .ok lexeme)
    (ends : Cursor.lastInk last ((c :: rest).take lexeme.size) = some ink) (inside : ink ∈ signContext) :
    ∃ m ∈ Mark.beforeSign, lexeme.kind = .plain (.mark m) := by
  -- The characters of the token begin with one that counts, so the last that counts is among them.
  have among : ∃ d ∈ (c :: rest).take lexeme.size, ink = d := by
    obtain ⟨count, size⟩ := Nat.exists_eq_succ_of_ne_zero lexeme.size_pos.ne'
    rw [size, List.take_succ_cons] at ends ⊢
    obtain ⟨d, member, same⟩ := Cursor.lastInk_mem last (read_ink done) (rest.take count)
    rw [ends] at same
    exact ⟨d, member, Option.some.inj same⟩
  have away (plain : ∀ d ∈ (c :: rest).take lexeme.size, d ∉ signContext) : False := by
    obtain ⟨d, member, rfl⟩ := among
    exact plain ink member inside
  -- Strings and templates may hold anything, but end with their quote.
  have closed {front : List Char} {quote : Char} (shape : (c :: rest).take lexeme.size = front ++ [quote])
      (counts : ¬ (quote = ' ' ∨ quote = '\t')) (plain : quote ∉ signContext) : False := by
    rw [shape, Cursor.lastInk_concat last front counts] at ends
    exact plain (Option.some.inj ends ▸ inside)
  unfold read at done
  split at done
  · next feed =>
    cases done
    refine (away fun d member => ?_).elim
    rw [List.take_succ_cons, List.take_zero, List.mem_singleton] at member
    rw [member, feed]
    decide
  split at done
  · next quote =>
    obtain ⟨-, raw, tail, rfl, size, -⟩ := quoted_spells done
    have shape : (c :: (raw ++ c :: tail)).take lexeme.size = (c :: raw) ++ [c] := by
      rw [size, List.take_succ_cons, List.append_cons, List.take_left' (by simp), List.cons_append]
    exact (closed shape (by rcases quote with rfl | rfl <;> decide)
      (by rcases quote with rfl | rfl <;> decide)).elim
  split at done
  · obtain ⟨front, after, rfl, size⟩ := template_tick done
    have shape : (c :: (front ++ '`' :: after)).take lexeme.size = (c :: front) ++ ['`'] := by
      rw [size, List.take_succ_cons, List.append_cons, List.take_left' (by simp), List.cons_append]
    exact (closed shape (by decide) (by decide)).elim
  split at done
  · exact (away fun d member => (number_numeric done d member).not_mem_signContext).elim
  split at done
  · exact (away fun d member => (number_numeric done d member).not_mem_signContext).elim
  split at done
  · next starts =>
    cases done
    exact (away fun d member =>
      not_mem_signContext_of_isNamePart (word_parts starts rest d member)).elim
  · have text := marked_text done
    unfold marked at done
    split at done
    · next m found =>
      cases done
      rw [← text] at ends
      exact ⟨m, mem_beforeSign ends inside, rfl⟩
    · cases done

theorem signed_iff {tail : List Char} : signed last tail = true ↔
    digitFirst tail = true ∧ ∃ ink ∈ signContext, last = some ink := by
  cases last with
  | none => simp [signed]
  | some ink => simp [signed]

theorem signed_of_number (done : read last c rest = .ok lexeme) (kind : lexeme.kind = .plain .number)
    (signs : c = '+' ∨ c = '-') : signed last rest = true := by
  cases allowed : signed last rest with
  | true => rfl
  | false =>
      have other : read last c rest = marked c rest := by
        have letter : isNameStart c = false := by rcases signs with rfl | rfl <;> decide
        rcases signs with rfl | rfl <;> simp [read, allowed, letter]
      rw [other, marked] at done
      split at done
      · cases done
        cases kind
      · cases done

theorem number_spelling (done : read last c rest = .ok lexeme) (kind : lexeme.kind = .plain .number) :
    lexeme.text.toList = (c :: rest).take lexeme.size := by
  have spells := read_spells done
  generalize (c :: rest).take lexeme.size = chars at spells ⊢
  cases spells with
  | quoted _ other _ =>
      rw [kind] at other
      cases other
  | template => rfl
  | verbatim => rfl

end Lexeme

/-! ## Rows of tokens -/

namespace Scans

open Token (IsSigned OpensSign)

/-- Where the characters before the cursor let a sign belong to a number, `row` ends with a mark that
does. -/
def Behind (cursor : Cursor) (row : List Token) : Prop :=
  ∀ tail, Lexeme.signed cursor.last tail = true → OpensSign row

section Step

variable {cursor : Cursor} {c : Char} {rest : List Char} {lexeme : Lexeme} {row : List Token}

theorem behind_token (front : cursor.rest = c :: rest)
    (read : Lexeme.read cursor.last c rest = .ok lexeme) (row : List Token) :
    Behind (cursor.advance lexeme.size) (row ++ [cursor.token lexeme]) := by
  intro tail signed
  obtain ⟨-, ink, inside, ends⟩ := Lexeme.signed_iff.mp signed
  rw [Cursor.last_advance, front] at ends
  obtain ⟨m, member, kind⟩ := Lexeme.lastInk_read read ends inside
  exact ⟨cursor.token lexeme, m, List.getLast?_concat, by simp only [Cursor.token, kind], member⟩

theorem opensSign_of_signed {blank : Nat} (behind : Behind cursor row)
    (blanks : Trivia.size 0 cursor.rest = .ok blank)
    (front : (cursor.advance blank).rest = c :: rest)
    (read : Lexeme.read (cursor.advance blank).last c rest = .ok lexeme)
    (signed : IsSigned ((cursor.advance blank).token lexeme)) : OpensSign row := by
  obtain ⟨kind, sign, first, signs⟩ := signed
  have kind := (cursor.advance blank).plain_of_kind_token kind
  obtain ⟨count, size⟩ := Nat.exists_eq_succ_of_ne_zero lexeme.size_pos.ne'
  have first : lexeme.text.toList.head? = some sign := first
  rw [Lexeme.number_spelling read kind, size, List.take_succ_cons, List.head?_cons] at first
  cases first
  have allowed := Lexeme.signed_of_number read kind signs
  obtain ⟨trivia, ahead, whole, same, passed, -⟩ := Trivia.size_blank 0 cursor.rest blanks
  rw [Nat.zero_add] at same
  subst same
  rw [Cursor.rest_advance, whole, List.drop_left] at front
  have last : (cursor.advance trivia.length).last = Cursor.lastInk cursor.last trivia := by
    rw [Cursor.last_advance, whole, List.take_left]
  have here : ahead.head? ≠ some '\n' := by
    rw [front, List.head?_cons]
    rcases signs with rfl | rfl <;> decide
  have more : ahead ≠ [] := by
    rw [front]
    exact List.cons_ne_nil _ _
  rw [last] at allowed
  exact behind rest (passed.signs here more cursor.last rest allowed)

end Step

theorem opensSign {cursor : Cursor} {tokens : List Token} (scans : Scans cursor tokens)
    {row : List Token} (behind : Behind cursor row) {before after : List Token} {token : Token}
    (split : tokens = before ++ token :: after) (signed : IsSigned token) :
    OpensSign (row ++ before) := by
  induction scans generalizing row before with
  | finish blanks all =>
      have inside : token ∈ before ++ token :: after :=
        List.mem_append_right before List.mem_cons_self
      rw [← split, List.mem_singleton] at inside
      rw [inside] at signed
      cases signed.1
  | @token cursor blank c rest lexeme tokens blanks front read later ih =>
      cases before with
      | nil =>
          cases split
          rw [List.append_nil]
          exact opensSign_of_signed behind blanks front read signed
      | cons head before =>
          cases split
          have more := ih (behind_token front read row) rfl
          rwa [List.append_assoc] at more

end Scans

/-- Before a number that has taken a sign there is a token, and it is a mark after which a sign cannot
be an operator, since no operand ends with it. -/
theorem sign_follows_mark {text : String} {start : Position} {tokens before after : List Token}
    {token : Token} (done : tokenizeAt text start = .ok tokens)
    (split : tokens = before ++ token :: after) (signed : token.IsSigned) :
    ∃ previous m, before.getLast? = some previous ∧ previous.kind = .mark m ∧ m ∈ Mark.beforeSign ∧
      previous.kind.endsOperand = false := by
  have behind : Scans.Behind (Cursor.start text start) [] := fun tail allowed => by
    obtain ⟨-, ink, -, follows⟩ := Lexeme.signed_iff.mp allowed
    cases follows
  obtain ⟨previous, m, last, kind, inside⟩ :=
    (Scans.tokenizeAt_eq_ok.mp done).opensSign behind split signed
  exact ⟨previous, m, last, kind, inside, kind ▸ Token.not_endsOperand inside⟩

/-- A sign after a name is an operator, and one after `<=` and blanks belongs to the number. -/
theorem sign_follows_mark_compared :
    tokenizeAt "x -1<= -2" ⟨1, 1⟩ = .ok [⟨.ident, "x", ⟨1, 1⟩⟩, ⟨.mark .minus, "-", ⟨1, 3⟩⟩,
      ⟨.number, "1", ⟨1, 4⟩⟩, ⟨.mark .lessEqual, "<=", ⟨1, 5⟩⟩, ⟨.number, "-2", ⟨1, 8⟩⟩,
      ⟨.endOfInput, "", ⟨1, 10⟩⟩] ∧
    ∃ previous m, ([⟨.ident, "x", ⟨1, 1⟩⟩, ⟨.mark .minus, "-", ⟨1, 3⟩⟩, ⟨.number, "1", ⟨1, 4⟩⟩,
      ⟨.mark .lessEqual, "<=", ⟨1, 5⟩⟩] : List Token).getLast? = some previous ∧
      previous.kind = .mark m ∧ m ∈ Mark.beforeSign ∧ previous.kind.endsOperand = false := by
  have done : tokenizeAt "x -1<= -2" ⟨1, 1⟩ = .ok ([⟨.ident, "x", ⟨1, 1⟩⟩,
      ⟨.mark .minus, "-", ⟨1, 3⟩⟩, ⟨.number, "1", ⟨1, 4⟩⟩, ⟨.mark .lessEqual, "<=", ⟨1, 5⟩⟩] ++
      ⟨.number, "-2", ⟨1, 8⟩⟩ :: [⟨.endOfInput, "", ⟨1, 10⟩⟩]) := by decide +kernel
  have signed : Token.IsSigned ⟨.number, "-2", ⟨1, 8⟩⟩ := ⟨rfl, '-', by decide, .inr rfl⟩
  exact ⟨done, sign_follows_mark done rfl signed⟩

end Rill

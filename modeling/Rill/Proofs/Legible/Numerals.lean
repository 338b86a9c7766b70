import Rill.Proofs.Legible.Words
import Rill.Proofs.SignedNumerals
import Rill.Proofs.Signs

/-!
# Numbers without their sign

The digits of a signed number are a number by themselves, with the same value up to its sign. So a
literal pattern can be written with its sign apart.
-/

set_option autoImplicit false

namespace Rill

namespace Lexeme

variable {last : Option Char} {c : Char} {rest : List Char} {lexeme : Lexeme}

theorem sign_not_digit (signs : c = '+' ∨ c = '-') : c.isDigit = false := by
  rcases signs with rfl | rfl <;> decide

theorem number_of_read (done : read last c rest = .ok lexeme) (kind : lexeme.kind = .plain .number) :
    number c rest = .ok lexeme
      ∧ (c.isDigit = true ∨ (c = '+' ∨ c = '-') ∧ digitFirst rest = true) := by
  unfold read at done
  split at done
  · cases done; cases kind
  split at done
  · cases kind.symm.trans (quoted_spells done).1
  split at done
  · obtain ⟨-, -, found, template, -⟩ := template_append done []
    cases kind.symm.trans template
  split at done
  · next digit => exact ⟨done, .inl digit⟩
  split at done
  · next signs => exact ⟨done, .inr ⟨signs.1, (Bool.and_eq_true_iff.mp signs.2).1⟩⟩
  split at done
  · cases done; rw [word_kind] at kind; split at kind <;> cases kind
  · unfold marked at done
    split at done
    · cases done; cases kind
    · cases done

/-- A number without a sign is legible wherever it stands. -/
theorem number_numeral (digit : c.isDigit = true) (done : number c rest = .ok lexeme) {x : Float}
    (value : Number.read lexeme.text = some x) : Numeral false lexeme.text x := by
  have plain : lexeme.kind = .plain .number := ((number_eq_ok c rest lexeme).mp done).2.2.1
  have letters : c ≠ '\n' ∧ ¬ (c = '"' ∨ c = '\'') ∧ c ≠ '`' := by
    refine ⟨?_, ?_, ?_⟩
    · rintro rfl; exact nomatch digit
    · rintro (rfl | rfl) <;> exact nomatch digit
    · rintro rfl; exact nomatch digit
  refine ⟨value, fun last _ => ?_⟩
  have read : read last c rest = .ok lexeme := by
    rw [Lexeme.read, if_neg letters.1, if_neg letters.2.1, if_neg letters.2.2, if_pos digit, done]
  have same : ((Cursor.start "" .start).token lexeme).unplaced = Word.number lexeme.text := by
    simp only [Cursor.token, Token.unplaced, plain, TokenKind.unplaced]
    rfl
  rw [← same]
  exact read_legible read (by simp [plain]) (.refl last) _

theorem numeral_of_digits (digit : c.isDigit = true) (done : number c rest = .ok lexeme) {x : Float}
    (value : Number.read lexeme.text = some x) : Numeral false lexeme.text x ∧ - -x = x := by
  refine ⟨number_numeral digit done value, ?_⟩
  obtain ⟨-, -, -, text, size⟩ := (number_eq_ok _ _ _).mp done
  rw [text, ← size, ← Nat.sub_add_cancel lexeme.size_pos, List.take_succ_cons] at value
  exact Number.neg_neg_read digit value

theorem number_of_signed (signs : c = '+' ∨ c = '-') {digit : Char} (isDigit : digit.isDigit = true)
    (done : number c (digit :: rest) = .ok lexeme) {x : Float}
    (value : Number.read lexeme.text = some x) :
    ∃ (digits : Lexeme) (y : Float), number digit rest = .ok digits
      ∧ Number.read digits.text = some y ∧ (x = y ∨ x = -y) := by
  obtain ⟨clean, -, -, text, size⟩ := (number_eq_ok _ _ _).mp done
  have sign : signSize (c :: digit :: rest) = 1 := if_pos signs
  have unsigned : signSize (digit :: rest) = 0 :=
    if_neg fun bad => nomatch isDigit.symm.trans (sign_not_digit bad)
  have whole : numberSize (c :: digit :: rest) = numberSize (digit :: rest) + 1 := by
    rw [numberSize, numberSize, sign, unsigned, List.drop_succ_cons, List.drop_zero, Nat.zero_add,
      Nat.add_comm]
  rw [whole, List.drop_succ_cons] at clean
  rw [whole, List.take_succ_cons] at text
  have long : 0 < numberSize (digit :: rest) := by
    rw [numberSize, unsigned, Nat.zero_add, List.drop_zero, sizeOfDigits]
    have nonempty : 0 < digitCount (digit :: rest) := digitCount_pos isDigit
    omega
  obtain ⟨tail, front⟩ : ∃ tail, (digit :: rest).take (numberSize (digit :: rest)) = digit :: tail := by
    obtain ⟨size, same⟩ := Nat.exists_eq_add_one_of_ne_zero long.ne'
    exact ⟨rest.take size, by rw [same, List.take_succ_cons]⟩
  rw [text, front, Number.read_signed signs isDigit, Option.map_eq_some_iff] at value
  obtain ⟨y, found, same⟩ := value
  refine ⟨⟨.plain .number, String.ofList (digit :: tail), numberSize (digit :: rest), long⟩, y,
    (number_eq_ok _ _ _).mpr ⟨clean, ?_, rfl, by rw [front], rfl⟩, found, ?_⟩
  · rw [found]
    rfl
  · rw [← same]
    split
    · exact .inr rfl
    · exact .inl rfl

end Lexeme

/-- The value of a number token is that of a number without a sign, or the negation of one. -/
theorem Token.Genuine.unsigned {token : Token} (genuine : token.Genuine) (kind : token.kind = .number)
    {x : Float} (value : Number.read token.text = some x) :
    ∃ text y, (Numeral false text y ∧ - -y = y) ∧ (x = y ∨ x = -y) := by
  obtain ⟨cursor, last, c, rest, lexeme, read, -, rfl⟩ := genuine
  have plain := cursor.plain_of_kind_token kind
  obtain ⟨done, digit | ⟨signs, first⟩⟩ := Lexeme.number_of_read read plain
  · exact ⟨_, x, Lexeme.numeral_of_digits digit done value, .inl rfl⟩
  · cases rest with
    | nil => exact nomatch first
    | cons digit rest =>
        obtain ⟨digits, y, done, found, same⟩ := Lexeme.number_of_signed signs first done value
        exact ⟨_, y, Lexeme.numeral_of_digits first done found, same⟩

end Rill

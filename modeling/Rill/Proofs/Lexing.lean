import Rill.Proofs.Advancing

/-!
# What a reader needs of the text ahead

Each reader of the lexer stops at the first character that cannot go on with what it reads. Where a
space or a line feed stands after the characters that it read, it reads the same whatever comes
after that.
-/

set_option autoImplicit false

namespace Rill

/-- Text that ends whatever is read before it: none at all, or text that starts with a space or a
line feed. -/
def Breaks : List Char → Prop
  | [] => True
  | c :: _ => c = ' ' ∨ c = '\n'

/-- Text that ends whatever is read before it, or goes on with a comment: none at all, or text that
starts with a space, a line feed or a slash. -/
def Severs : List Char → Prop
  | [] => True
  | c :: _ => c = ' ' ∨ c = '\n' ∨ c = '/'

theorem Breaks.feed (more : List Char) : Breaks ('\n' :: more) := .inr rfl

theorem Breaks.severs {more : List Char} (breaks : Breaks more) : Severs more := by
  cases more with
  | nil => trivial
  | cons c tail => exact breaks.imp_right .inl

theorem absent_append {more tail : List Char} {c : Char} (away : ∀ rest, tail = c :: rest → False)
    (other : more.head? ≠ some c) (rest : List Char) : tail ++ more = c :: rest → False := by
  intro same
  cases tail with
  | nil => exact other (by rw [List.nil_append] at same; rw [same, List.head?_cons])
  | cons d tail => exact away tail (by rw [(List.cons.inj same).1])

theorem Breaks.absent {more : List Char} (breaks : Breaks more) {tail : List Char} {c : Char}
    (away : ∀ rest, tail = c :: rest → False) (space : c ≠ ' ' := by decide)
    (feed : c ≠ '\n' := by decide) (rest : List Char) : tail ++ more = c :: rest → False := by
  refine absent_append away ?_ rest
  cases more with
  | nil => simp
  | cons d more => rcases breaks with rfl | rfl <;> simp [Ne.symm space, Ne.symm feed]

namespace Severs

variable {more : List Char}

theorem head? (severs : Severs more) (p : Char → Bool) (space : p ' ' = false)
    (feed : p '\n' = false) (slash : p '/' = false) : (more.head?.map p).getD false = false := by
  match more, severs with
  | [], _ => rfl
  | _ :: _, .inl rfl => exact space
  | _ :: _, .inr (.inl rfl) => exact feed
  | _ :: _, .inr (.inr rfl) => exact slash

/-- What a reader takes for as long as characters satisfy `p` ends where the text did. -/
theorem takeWhile (severs : Severs more) (chars : List Char) (p : Char → Bool)
    (space : p ' ' = false) (feed : p '\n' = false) (slash : p '/' = false) :
    (chars ++ more).takeWhile p = chars.takeWhile p := by
  have stops : more.takeWhile p = [] := by
    match more, severs with
    | [], _ => rfl
    | _ :: _, .inl rfl => simp [space]
    | _ :: _, .inr (.inl rfl) => simp [feed]
    | _ :: _, .inr (.inr rfl) => simp [slash]
  induction chars with
  | nil => exact stops
  | cons c rest ih => simp [List.takeWhile_cons, ih]

theorem absent (severs : Severs more) {tail : List Char} {c : Char}
    (away : ∀ rest, tail = c :: rest → False) (plain : c ≠ ' ' ∧ c ≠ '\n' ∧ c ≠ '/' := by decide)
    (rest : List Char) : tail ++ more = c :: rest → False := by
  obtain ⟨space, feed, slash⟩ := plain
  refine absent_append away ?_ rest
  cases more with
  | nil => simp
  | cons d more =>
      rcases severs with rfl | rfl | rfl <;> simp [Ne.symm space, Ne.symm feed, Ne.symm slash]

end Severs

namespace Lexeme

variable {more : List Char}

theorem digitFirst_append (severs : Severs more) (chars : List Char) :
    digitFirst (chars ++ more) = digitFirst chars := by
  cases chars with
  | cons c rest => rfl
  | nil =>
      match more, severs with
      | [], _ => rfl
      | _ :: _, .inl rfl => rfl
      | _ :: _, .inr (.inl rfl) => rfl
      | _ :: _, .inr (.inr rfl) => rfl

theorem digitCount_append (severs : Severs more) (chars : List Char) :
    digitCount (chars ++ more) = digitCount chars := by
  rw [digitCount, severs.takeWhile chars Char.isDigit rfl rfl rfl, digitCount]

theorem digitCount_le (chars : List Char) : digitCount chars ≤ chars.length :=
  (List.takeWhile_sublist _).length_le

theorem digitCount_pos {chars : List Char} (first : digitFirst chars = true) :
    0 < digitCount chars := by
  cases chars with
  | nil => exact nomatch first
  | cons c rest =>
      have digit : c.isDigit = true := first
      simp [digitCount, digit]

theorem fractionSize_append (severs : Severs more) (chars : List Char) :
    fractionSize (chars ++ more) = fractionSize chars := by
  cases chars with
  | nil =>
      match more, severs with
      | [], _ => rfl
      | _ :: _, .inl rfl => rfl
      | _ :: _, .inr (.inl rfl) => rfl
      | _ :: _, .inr (.inr rfl) => rfl
  | cons c rest =>
      by_cases point : c = '.'
      · subst point
        simp only [List.cons_append, fractionSize, digitFirst_append severs, digitCount_append severs]
      · simp [fractionSize, point]

theorem fractionSize_le (chars : List Char) : fractionSize chars ≤ chars.length := by
  unfold fractionSize
  split
  · next rest =>
    have := digitCount_le rest
    simp only [List.length_cons]
    split
    · omega
    · omega
  · omega

theorem exponentSize_append (severs : Severs more) (chars : List Char) :
    exponentSize (chars ++ more) = exponentSize chars := by
  cases chars with
  | nil =>
      match more, severs with
      | [], _ => rfl
      | _ :: _, .inl rfl => rfl
      | _ :: _, .inr (.inl rfl) => rfl
      | _ :: _, .inr (.inr rfl) => rfl
  | cons c rest =>
      cases rest with
      | nil =>
          match more, severs with
          | [], _ => rfl
          | _ :: _, .inl rfl => rfl
          | _ :: _, .inr (.inl rfl) => rfl
          | _ :: _, .inr (.inr rfl) => rfl
      | cons s rest =>
          have tail := digitCount_append severs (s :: rest)
          rw [List.cons_append] at tail
          simp only [List.cons_append, exponentSize, digitFirst_append severs,
            digitCount_append severs, tail]

theorem exponentSize_le (chars : List Char) : exponentSize chars ≤ chars.length := by
  match chars with
  | [] => simp [exponentSize]
  | [c] => simp [exponentSize]
  | c :: s :: rest =>
      have more := digitCount_le rest
      have all := digitCount_le (s :: rest)
      simp only [exponentSize, List.length_cons] at all ⊢
      repeat' split
      all_goals omega

theorem sizeOfDigits_le (chars : List Char) : sizeOfDigits chars ≤ chars.length := by
  have whole := digitCount_le chars
  have fraction := fractionSize_le (chars.drop (digitCount chars))
  have exponent := exponentSize_le
    (chars.drop (digitCount chars + fractionSize (chars.drop (digitCount chars))))
  simp only [List.length_drop] at fraction exponent
  simp only [sizeOfDigits]
  omega

theorem sizeOfDigits_append (severs : Severs more) (chars : List Char) :
    sizeOfDigits (chars ++ more) = sizeOfDigits chars := by
  have whole := digitCount_le chars
  have fraction := fractionSize_le (chars.drop (digitCount chars))
  simp only [List.length_drop] at fraction
  have both : digitCount chars + fractionSize (chars.drop (digitCount chars)) ≤ chars.length := by
    omega
  simp only [sizeOfDigits, digitCount_append severs, List.drop_append_of_le_length whole,
    fractionSize_append severs, List.drop_append_of_le_length both, exponentSize_append severs]

theorem isNameStart_feed : isNameStart '\n' = false := by decide
theorem isNameStart_space : isNameStart ' ' = false := by decide
theorem isNamePart_feed : isNamePart '\n' = false := by decide
theorem isNamePart_space : isNamePart ' ' = false := by decide
theorem isNameStart_slash : isNameStart '/' = false := by decide
theorem isNamePart_slash : isNamePart '/' = false := by decide

theorem mark?_append (severs : Severs more) (chars : List Char) (m : Mark)
    (found : mark? chars = some m) : mark? (chars ++ more) = some m := by
  unfold mark? at found
  split at found
  all_goals try exact found
  -- Only marks that are the front of a longer one are left.
  case h_2 tail away =>
    refine (mark?.eq_2 _ fun rest same => ?_).trans found
    cases tail with
    | nil =>
        have away : ∀ rest, [] = '.' :: rest → False := nofun
        exact severs.absent away (by decide) _ same
    | cons d tail =>
        have same : d :: (tail ++ more) = '.' :: '.' :: rest := same
        obtain ⟨rfl, next⟩ := List.cons.inj same
        have away : ∀ rest, tail = '.' :: rest → False := fun rest eq => away rest (by rw [eq])
        exact severs.absent away (by decide) rest next
  case h_3 rest =>
    rw [← digitFirst_append severs rest] at found
    exact found
  case h_5 away₁ away₂ =>
    exact (mark?.eq_5 _ (severs.absent away₁) (severs.absent away₂)).trans found
  case h_8 away₁ away₂ =>
    exact (mark?.eq_8 _ (severs.absent away₁) (severs.absent away₂)).trans found
  case h_10 away => exact (mark?.eq_10 _ (severs.absent away)).trans found
  case h_13 away₁ away₂ =>
    exact (mark?.eq_13 _ (severs.absent away₁) (severs.absent away₂)).trans found
  case h_16 away₁ away₂ =>
    exact (mark?.eq_16 _ (severs.absent away₁) (severs.absent away₂)).trans found
  case h_19 away₁ away₂ =>
    exact (mark?.eq_19 _ (severs.absent away₁) (severs.absent away₂)).trans found
  case h_22 away₁ away₂ =>
    exact (mark?.eq_22 _ (severs.absent away₁) (severs.absent away₂)).trans found
  case h_24 away => exact (mark?.eq_24 _ (severs.absent away)).trans found
  case h_26 away => exact (mark?.eq_26 _ (severs.absent away)).trans found
  case h_28 away => exact (mark?.eq_28 _ (severs.absent away)).trans found
  case h_30 away => exact (mark?.eq_30 _ (severs.absent away)).trans found
  case h_33 away₁ away₂ =>
    exact (mark?.eq_33 _ (severs.absent away₁) (severs.absent away₂)).trans found
  case h_45 => exact nomatch found

theorem word_append (severs : Severs more) (c : Char) (rest : List Char) :
    word c (rest ++ more) = word c rest := by
  simp only [word, severs.takeWhile rest isNamePart isNamePart_space isNamePart_feed
    isNamePart_slash]

def numberSize (chars : List Char) : Nat :=
  signSize chars + sizeOfDigits (chars.drop (signSize chars))

theorem signSize_le (c : Char) (rest : List Char) : signSize (c :: rest) ≤ (c :: rest).length := by
  simp only [signSize, List.length_cons]
  split <;> omega

theorem numberSize_le (c : Char) (rest : List Char) :
    numberSize (c :: rest) ≤ (c :: rest).length := by
  have sign := signSize_le c rest
  have digits := sizeOfDigits_le ((c :: rest).drop (signSize (c :: rest)))
  rw [List.length_drop] at digits
  unfold numberSize
  omega

theorem numberSize_append (severs : Severs more) (c : Char) (rest : List Char) :
    numberSize (c :: rest ++ more) = numberSize (c :: rest) := by
  have sign : signSize (c :: rest ++ more) = signSize (c :: rest) := rfl
  rw [numberSize, sign, List.drop_append_of_le_length (signSize_le c rest),
    sizeOfDigits_append severs, numberSize]

theorem number_eq_ok (c : Char) (rest : List Char) (lexeme : Lexeme) :
    number c rest = .ok lexeme ↔
      (((c :: rest).drop (numberSize (c :: rest))).head?.map isNameStart).getD false = false
      ∧ (Number.read lexeme.text).isSome
      ∧ lexeme.kind = .plain .number
      ∧ lexeme.text = String.ofList ((c :: rest).take (numberSize (c :: rest)))
      ∧ lexeme.size = numberSize (c :: rest) := by
  obtain ⟨kind, text, size, size_pos⟩ := lexeme
  simp only [number, ← numberSize.eq_def]
  split
  · next spoiled =>
    rw [spoiled]
    exact ⟨nofun, fun fine => nomatch fine.1⟩
  · next plain =>
    simp only [Bool.not_eq_true] at plain
    simp only [plain, true_and]
    split
    · next unread =>
      constructor
      · exact nofun
      · rintro ⟨read, -, rfl, -⟩
        rw [unread] at read
        exact nomatch read
    · next value read =>
      split
      · simp only [Except.ok.injEq, Lexeme.mk.injEq]
        constructor
        · rintro ⟨rfl, rfl, rfl⟩
          exact ⟨by simp [read], rfl, rfl, rfl⟩
        · rintro ⟨-, rfl, rfl, rfl⟩
          exact ⟨rfl, rfl, rfl⟩
      · next empty =>
        constructor
        · exact nofun
        · rintro ⟨-, -, -, rfl⟩
          exact absurd size_pos empty

theorem number_append_iff (severs : Severs more) {c : Char} {rest : List Char} {lexeme : Lexeme} :
    number c (rest ++ more) = .ok lexeme ↔ number c rest = .ok lexeme := by
  have fits := numberSize_le c rest
  have plain : ((((c :: rest) ++ more).drop (numberSize (c :: rest))).head?.map isNameStart).getD false
      = (((c :: rest).drop (numberSize (c :: rest))).head?.map isNameStart).getD false := by
    rw [List.drop_append_of_le_length fits]
    cases (c :: rest).drop (numberSize (c :: rest)) with
    | nil =>
        exact severs.head? isNameStart isNameStart_space isNameStart_feed isNameStart_slash
    | cons d tail => rfl
  rw [number_eq_ok, number_eq_ok, ← List.cons_append, numberSize_append severs, plain,
    List.take_append_of_le_length fits]

/-! ## Strings -/

theorem hexEscape_append {letter : Char} {count : Nat} {chars : List Char} {found : Char × Nat}
    (done : hexEscape letter count chars = .ok found) (more : List Char) :
    hexEscape letter count (chars ++ more) = .ok found ∧ 0 < found.2
      ∧ found.2 ≤ chars.length + 2 := by
  simp only [hexEscape] at done
  split at done
  · next full =>
    have fits : count ≤ chars.length := by
      have taken := (List.takeWhile_sublist
        (fun c => (hexValue? c).isSome) (l := chars.take count)).length_le
      rw [full.1, List.length_take] at taken
      omega
    cases done
    simp only [hexEscape, List.take_append_of_le_length fits, full, and_self, if_true]
    exact ⟨trivial, by omega, by omega⟩
  · exact nomatch done

theorem escape_append {chars : List Char} {found : Char × Nat} (done : escape chars = .ok found)
    (more : List Char) :
    escape (chars ++ more) = .ok found ∧ 0 < found.2 ∧ found.2 ≤ chars.length + 1 := by
  unfold escape at done
  split at done
  case h_1 => exact nomatch done
  case h_6 | h_7 | h_8 =>
    obtain ⟨again, positive, fits⟩ := hexEscape_append done more
    exact ⟨again, positive, by simpa using fits⟩
  case h_9 c tail n t r zero x u U =>
    split at done
    · next plain =>
      cases done
      rw [List.cons_append, escape.eq_9 _ _ n t r zero x u U, if_pos plain]
      exact ⟨rfl, Nat.two_pos, by simp⟩
    · exact nomatch done
  all_goals
    cases done
    exact ⟨rfl, by decide, by simp⟩

theorem contents_append (quote : Char) (offset : Nat) (cooked chars : List Char)
    {found : String × Nat} (done : contents quote offset cooked chars = .ok found)
    (more : List Char) :
    contents quote offset cooked (chars ++ more) = .ok found
      ∧ offset < found.2 ∧ found.2 ≤ offset + chars.length := by
  fun_induction contents quote offset cooked chars with
  | case1 => exact nomatch done
  | case2 offset cooked rest =>
    cases done
    rw [List.cons_append, contents, if_pos rfl]
    simp
  | case3 => exact nomatch done
  | case4 offset cooked rest meant size read notQuote ih =>
    obtain ⟨again, positive, fits⟩ := escape_append read more
    simp only at positive fits
    obtain ⟨same, low, high⟩ := ih done
    rw [List.cons_append, contents, if_neg notQuote, if_pos rfl, again]
    rw [List.length_drop] at high
    refine ⟨?_, by omega, by simp only [List.length_cons]; omega⟩
    show contents quote (offset + size) (meant :: cooked) ((rest ++ more).drop (size - 1)) = _
    rw [List.drop_append_of_le_length (by omega)]
    exact same
  | case5 offset cooked c rest notQuote notEscape ih =>
    obtain ⟨same, low, high⟩ := ih done
    rw [List.cons_append, contents, if_neg notQuote, if_neg notEscape]
    exact ⟨same, by omega, by simp only [List.length_cons]; omega⟩

theorem quoted_append {quote : Char} {rest : List Char} {lexeme : Lexeme}
    (done : quoted quote rest = .ok lexeme) (more : List Char) :
    quoted quote (rest ++ more) = .ok lexeme ∧ lexeme.size ≤ rest.length + 1
      ∧ lexeme.kind = .plain .text := by
  cases read : contents quote 1 [] rest with
  | error problem =>
      simp only [quoted, read] at done
      exact nomatch done
  | ok found =>
      obtain ⟨again, -, fits⟩ := contents_append quote 1 [] rest read more
      simp only [quoted, read] at done
      cases done
      simp only [quoted, again]
      exact ⟨by rfl, by show max found.2 1 ≤ _; omega, by trivial⟩

/-! ## Templates -/

/-- The quotes of strings on the stack are no backslashes, so that an escape is no end. -/
def Quotes (stack : List Nesting) : Prop :=
  ∀ start, .quoted '\\' start ∉ stack

theorem Quotes.tail {level : Nesting} {stack : List Nesting} (quotes : Quotes (level :: stack)) :
    Quotes stack := fun start inside => quotes start (List.mem_cons_of_mem _ inside)

theorem Quotes.cons {level : Nesting} {stack : List Nesting} (quotes : Quotes stack)
    (plain : ∀ start, level ≠ .quoted '\\' start) : Quotes (level :: stack) := by
  intro start inside
  rcases List.mem_cons.mp inside with same | inside
  · exact plain start same.symm
  · exact quotes start inside

theorem Quotes.hole (depth start : Nat) : Quotes [.hole depth start] := by
  intro start inside
  cases List.mem_singleton.mp inside

theorem skip_open {level : Nesting} {outer : List Nesting} {offset finish : Nat}
    {chars : List Char} (done : skip (level :: outer) offset chars = .ok finish) :
    ∃ c rest, chars = c :: rest := by
  cases chars with
  | nil => exact nomatch done
  | cons c rest => exact ⟨c, rest, rfl⟩

theorem skip_append (stack : List Nesting) (offset : Nat) (chars : List Char)
    (quotes : Quotes stack) {finish : Nat} (done : skip stack offset chars = .ok finish)
    (more : List Char) :
    skip stack offset (chars ++ more) = .ok finish
      ∧ offset ≤ finish ∧ finish ≤ offset + chars.length := by
  fun_induction skip stack offset chars with
  | case1 offset chars =>
    cases done
    exact ⟨by rw [skip], by omega, by omega⟩
  | case2 => exact nomatch done
  | case3 depth start outer offset rest ih =>
    obtain ⟨same, low, high⟩ := ih (quotes.tail.cons nofun) done
    rw [List.cons_append, skip, if_pos rfl]
    exact ⟨same, by omega, by simp only [List.length_cons]; omega⟩
  | case4 depth start outer offset rest shallow _ ih =>
    obtain ⟨same, low, high⟩ := ih quotes.tail done
    rw [List.cons_append, skip, if_neg (by decide), if_pos rfl, if_pos shallow]
    exact ⟨same, by omega, by simp only [List.length_cons]; omega⟩
  | case5 depth start outer offset rest deep _ ih =>
    obtain ⟨same, low, high⟩ := ih (quotes.tail.cons nofun) done
    rw [List.cons_append, skip, if_neg (by decide), if_pos rfl, if_neg deep]
    exact ⟨same, by omega, by simp only [List.length_cons]; omega⟩
  | case6 depth start outer offset c rest notOpen notClose quote ih =>
    have plain : ∀ at_, Nesting.quoted c offset ≠ .quoted '\\' at_ := by
      rintro at_ same
      cases same
      exact absurd quote (by decide)
    obtain ⟨same, low, high⟩ := ih (quotes.cons plain) done
    rw [List.cons_append, skip, if_neg notOpen, if_neg notClose, if_pos quote]
    exact ⟨same, by omega, by simp only [List.length_cons]; omega⟩
  | case7 depth start outer offset rest _ _ _ ih =>
    obtain ⟨same, low, high⟩ := ih (quotes.cons nofun) done
    rw [List.cons_append, skip, if_neg (by decide), if_neg (by decide), if_neg (by decide),
      if_pos rfl]
    exact ⟨same, by omega, by simp only [List.length_cons]; omega⟩
  | case8 depth start outer offset c rest notOpen notClose notQuote notTick ih =>
    obtain ⟨same, low, high⟩ := ih quotes done
    rw [List.cons_append, skip, if_neg notOpen, if_neg notClose, if_neg notQuote, if_neg notTick]
    exact ⟨same, by omega, by simp only [List.length_cons]; omega⟩
  | case9 quote start outer offset c rest ih =>
    obtain ⟨same, low, high⟩ := ih quotes done
    rw [List.cons_append, List.cons_append, skip]
    exact ⟨same, by omega, by simp only [List.length_cons]; omega⟩
  | case10 start outer offset c rest _ ih =>
    obtain ⟨same, low, high⟩ := ih quotes.tail done
    have plain : c ≠ '\\' := fun bad => quotes start (bad ▸ List.mem_cons_self)
    rw [List.cons_append, skip.eq_5 _ _ _ _ _ _ (fun _ _ bad _ => plain bad), if_pos rfl]
    exact ⟨same, by omega, by simp only [List.length_cons]; omega⟩
  | case11 quote start outer offset c rest far notQuote ih =>
    obtain ⟨same, low, high⟩ := ih quotes done
    obtain ⟨d, tail, rfl⟩ := skip_open done
    rw [List.cons_append, skip.eq_5 _ _ _ _ _ _ (fun _ _ bad _ => far d tail bad rfl),
      if_neg notQuote]
    exact ⟨same, by omega, by simp only [List.length_cons] at *; omega⟩
  | case12 start outer offset c rest ih =>
    obtain ⟨same, low, high⟩ := ih quotes done
    rw [List.cons_append, List.cons_append, skip]
    exact ⟨same, by omega, by simp only [List.length_cons]; omega⟩
  | case13 start outer offset rest ih =>
    obtain ⟨same, low, high⟩ := ih (quotes.cons nofun) done
    rw [List.cons_append, List.cons_append, skip]
    exact ⟨same, by omega, by simp only [List.length_cons]; omega⟩
  | case14 start outer offset rest _ _ ih =>
    obtain ⟨same, low, high⟩ := ih quotes.tail done
    rw [List.cons_append, skip.eq_8 _ _ _ '`' _ (fun _ _ bad _ => absurd bad (by decide))
      (fun _ bad _ => absurd bad (by decide)), if_pos rfl]
    exact ⟨same, by omega, by simp only [List.length_cons]; omega⟩
  | case15 start outer offset c rest far away notTick ih =>
    obtain ⟨same, low, high⟩ := ih quotes done
    obtain ⟨d, tail, rfl⟩ := skip_open done
    rw [List.cons_append, skip.eq_8 _ _ _ _ _ (fun _ _ bad _ => far d tail bad rfl)
      (fun _ dollar brace => away tail dollar (by rw [(List.cons.inj brace).1])), if_neg notTick]
    exact ⟨same, by omega, by simp only [List.length_cons] at *; omega⟩

/-- Where the holes of template pieces begin is within the first `bound` characters. -/
def Within (bound : Nat) (found : List RawPiece) : Prop :=
  ∀ source offset, .hole source offset ∈ found → offset ≤ bound

namespace Within

variable {bound : Nat} {found : List RawPiece}

theorem mono (within : Within bound found) {larger : Nat} (le : bound ≤ larger) :
    Within larger found := fun source offset inside => Nat.le_trans (within source offset inside) le

theorem flush (within : Within bound found) (cooked : List Char) :
    Within bound (flush cooked ++ found) := by
  intro source offset inside
  refine within source offset ((List.mem_append.mp inside).resolve_left fun early => ?_)
  unfold Lexeme.flush at early
  split at early
  · exact nomatch early
  · exact nomatch List.mem_singleton.mp early

theorem hole (within : Within bound found) {start : Nat} (inside : start ≤ bound)
    (source : String) : Within bound (.hole source start :: found) := by
  intro other offset at_
  rcases List.mem_cons.mp at_ with same | later
  · cases same
    exact inside
  · exact within other offset later

theorem reverse (within : Within bound found) : Within bound found.reverse :=
  fun source offset inside => within source offset (List.mem_reverse.mp inside)

end Within

theorem pieces_append (offset : Nat) (cooked : List Char) (before : List RawPiece)
    (chars : List Char) {found : List RawPiece × Nat}
    (done : pieces offset cooked before chars = .ok found) (more : List Char)
    (within : Within offset before) :
    pieces offset cooked before (chars ++ more) = .ok found
      ∧ offset < found.2 ∧ found.2 ≤ offset + chars.length ∧ Within found.2 found.1 := by
  fun_induction pieces offset cooked before chars with
  | case1 => exact nomatch done
  | case2 offset cooked before rest =>
    cases done
    rw [List.cons_append, pieces]
    exact ⟨rfl, by simp, by simp, (within.mono (by simp)).flush cooked |>.reverse⟩
  | case3 => exact nomatch done
  | case4 offset cooked before rest meant size read ih =>
    obtain ⟨again, positive, fits⟩ := escape_append read more
    obtain ⟨same, low, high, inside⟩ := ih done (within.mono (by omega))
    rw [List.length_drop] at high
    rw [List.cons_append, pieces, again]
    refine ⟨?_, by omega, by simp only [List.length_cons]; omega, inside⟩
    show pieces (offset + size) (meant :: cooked) before ((rest ++ more).drop (size - 1)) = _
    rw [List.drop_append_of_le_length (by omega)]
    exact same
  | case5 => exact nomatch done
  | case6 offset cooked before rest finish skipped covered source ih =>
    obtain ⟨again, low, high⟩ := skip_append _ _ _ (.hole 1 0) skipped more
    have fits : covered ≤ rest.length := by omega
    obtain ⟨same, later, bound, inside⟩ :=
      ih done (((within.mono (by omega)).flush cooked).hole (by omega) source)
    rw [List.length_drop] at bound
    rw [List.cons_append, List.cons_append, pieces, again]
    refine ⟨?_, by omega, by simp only [List.length_cons]; omega, inside⟩
    show pieces finish [] (.hole (String.ofList ((rest ++ more).take (covered - 1))) (offset + 2)
      :: (Lexeme.flush cooked ++ before)) ((rest ++ more).drop covered) = _
    rw [List.drop_append_of_le_length fits, List.take_append_of_le_length (by omega)]
    exact same
  | case7 offset cooked before c rest notTick notEscape far ih =>
    obtain ⟨same, low, high, inside⟩ := ih done (within.mono (by omega))
    have next : ∃ d tail, rest = d :: tail := by
      cases rest with
      | nil =>
        rw [pieces] at done
        exact nomatch done
      | cons d tail => exact ⟨d, tail, rfl⟩
    obtain ⟨d, tail, rfl⟩ := next
    rw [List.cons_append, pieces.eq_5 _ _ _ _ _ notTick notEscape
      (fun _ dollar brace => far tail dollar (by rw [(List.cons.inj brace).1]))]
    exact ⟨same, by omega, by simp only [List.length_cons] at *; omega, inside⟩

theorem template_append {rest : List Char} {lexeme : Lexeme}
    (done : template rest = .ok lexeme) (more : List Char) :
    template (rest ++ more) = .ok lexeme ∧ lexeme.size ≤ rest.length + 1
      ∧ ∃ found, lexeme.kind = .template found ∧ Within lexeme.size found := by
  cases read : pieces 1 [] [] rest with
  | error problem =>
      simp only [template, read] at done
      exact nomatch done
  | ok found =>
      obtain ⟨again, low, fits, inside⟩ :=
        pieces_append 1 [] [] rest read more (fun _ _ bad => nomatch bad)
      have taken : (rest ++ more).take (found.2 - 1) = rest.take (found.2 - 1) :=
        List.take_append_of_le_length (by omega)
      simp only [template, read] at done
      cases done
      simp only [template, again]
      refine ⟨?_, by show max found.2 1 ≤ _; omega, found.1, rfl, inside.mono (Nat.le_max_left _ _)⟩
      show Except.ok (Lexeme.mk _ (String.ofList ('`' :: (rest ++ more).take (found.2 - 1))) _ _) = _
      simp only [taken]

/-! ## Any lexeme -/

theorem signed_append (severs : Severs more) (last : Option Char) (rest : List Char) :
    signed last (rest ++ more) = signed last rest := by
  rw [signed, digitFirst_append severs, signed]

theorem read_append (severs : Severs more) {last : Option Char} {c : Char} {rest : List Char}
    {lexeme : Lexeme} (done : read last c rest = .ok lexeme) :
    read last c (rest ++ more) = .ok lexeme := by
  unfold read at done ⊢
  rw [signed_append severs]
  by_cases feed : c = '\n'
  · rw [if_pos feed] at done ⊢
    exact done
  rw [if_neg feed] at done ⊢
  by_cases quote : c = '"' ∨ c = '\''
  · rw [if_pos quote] at done ⊢
    exact (quoted_append done more).1
  rw [if_neg quote] at done ⊢
  by_cases tick : c = '`'
  · rw [if_pos tick] at done ⊢
    exact (template_append done more).1
  rw [if_neg tick] at done ⊢
  by_cases digit : c.isDigit = true
  · rw [if_pos digit] at done ⊢
    exact (number_append_iff severs).mpr done
  rw [if_neg digit] at done ⊢
  by_cases sign : (c = '+' ∨ c = '-') ∧ signed last rest = true
  · rw [if_pos sign] at done ⊢
    exact (number_append_iff severs).mpr done
  rw [if_neg sign] at done ⊢
  by_cases name : isNameStart c = true
  · rw [if_pos name] at done ⊢
    rw [word_append severs]
    exact done
  rw [if_neg name] at done ⊢
  unfold marked at done ⊢
  cases found : mark? (c :: rest) with
  | none =>
      rw [found] at done
      exact nomatch done
  | some m =>
      rw [found] at done
      rw [← List.cons_append, mark?_append severs _ m found]
      exact done

theorem mark?_size {chars : List Char} {m : Mark} (found : mark? chars = some m) :
    m.spelling.length ≤ chars.length := by
  unfold mark? at found
  split at found
  case h_3 rest =>
    split at found
    · cases found
      exact Nat.le_add_left 1 (rest.length + 1)
    · cases found
      exact Nat.le_add_left 2 rest.length
  all_goals cases found
  all_goals exact Nat.le_add_left _ _

/-- What can be read. -/
inductive Form : Lexeme → Prop
  | feed {lexeme : Lexeme} (kind : lexeme.kind = .plain .newline) (text : lexeme.text = "\n") :
      Form lexeme
  | text {lexeme : Lexeme} (kind : lexeme.kind = .plain .text) : Form lexeme
  | template {lexeme : Lexeme} {found : List RawPiece} (kind : lexeme.kind = .template found)
      (within : Within lexeme.size found) : Form lexeme
  | number {lexeme : Lexeme} (kind : lexeme.kind = .plain .number)
      (value : (Number.read lexeme.text).isSome) : Form lexeme
  | word {c : Char} (starts : isNameStart c) (rest : List Char) : Form (word c rest)
  | mark {lexeme : Lexeme} {m : Mark} (kind : lexeme.kind = .plain (.mark m))
      (text : lexeme.text = m.spelling) : Form lexeme

theorem number_form {c : Char} {rest : List Char} {lexeme : Lexeme}
    (done : number c rest = .ok lexeme) : lexeme.size ≤ rest.length + 1 ∧ Form lexeme := by
  obtain ⟨-, value, kind, -, size⟩ := (number_eq_ok c rest lexeme).mp done
  exact ⟨size ▸ numberSize_le c rest, .number kind value⟩

theorem read_form {last : Option Char} {c : Char} {rest : List Char} {lexeme : Lexeme}
    (done : read last c rest = .ok lexeme) : lexeme.size ≤ rest.length + 1 ∧ Form lexeme := by
  unfold read at done
  split at done
  · cases done
    exact ⟨by simp, .feed rfl rfl⟩
  split at done
  · obtain ⟨-, fits, kind⟩ := quoted_append done []
    exact ⟨fits, .text kind⟩
  split at done
  · obtain ⟨-, fits, found, kind, inside⟩ := template_append done []
    exact ⟨fits, .template kind inside⟩
  split at done
  · exact number_form done
  split at done
  · exact number_form done
  split at done
  · next starts =>
    cases done
    have fits := (List.takeWhile_sublist isNamePart (l := rest)).length_le
    exact ⟨by show (rest.takeWhile isNamePart).length + 1 ≤ _; omega, .word starts rest⟩
  · unfold marked at done
    split at done
    · next m found =>
      cases done
      have fits := mark?_size found
      rw [List.length_cons] at fits
      exact ⟨by show max m.spelling.length 1 ≤ _; omega, .mark rfl rfl⟩
    · exact nomatch done

end Lexeme

/-! ## Blanks and comments -/

namespace Trivia

theorem blockEnd_append (offset : Nat) (chars : List Char) {finish : Nat}
    (done : blockEnd offset chars = some finish) (more : List Char) :
    blockEnd offset (chars ++ more) = some finish
      ∧ offset ≤ finish ∧ finish ≤ offset + chars.length := by
  fun_induction blockEnd offset chars with
  | case1 offset rest =>
    cases done
    exact ⟨rfl, by omega, by simp only [List.length_cons]; omega⟩
  | case2 offset c rest far ih =>
    obtain ⟨same, low, high⟩ := ih done
    have next : ∃ d tail, rest = d :: tail := by
      cases rest with
      | nil => cases done
      | cons d tail => exact ⟨d, tail, rfl⟩
    obtain ⟨d, tail, rfl⟩ := next
    refine ⟨?_, by omega, by simp only [List.length_cons] at *; omega⟩
    rw [List.cons_append, blockEnd.eq_2 _ _ _ fun _ star slash =>
      far tail star (by rw [(List.cons.inj slash).1])]
    exact same
  | case3 => cases done

theorem takeWhile_feed (chars more : List Char) :
    (chars ++ '\n' :: more).takeWhile (fun c => decide (c ≠ '\n'))
      = chars.takeWhile (fun c => decide (c ≠ '\n')) := by
  induction chars with
  | nil => rfl
  | cons c rest ih => rw [List.cons_append, List.takeWhile_cons, List.takeWhile_cons, ih]

theorem size_append (offset : Nat) (chars : List Char) {finish : Nat}
    (done : size offset chars = .ok finish) (more : List Char) :
    size offset (chars ++ '\n' :: more) = .ok finish
      ∧ offset ≤ finish ∧ finish ≤ offset + chars.length := by
  fun_induction size offset chars with
  | case1 offset rest line ih =>
    obtain ⟨same, low, high⟩ := ih done
    have line_le : line ≤ rest.length := (List.takeWhile_sublist _).length_le
    rw [List.length_drop] at high
    rw [List.cons_append, List.cons_append, size, takeWhile_feed,
      List.drop_append_of_le_length line_le]
    exact ⟨same, by omega, by simp only [List.length_cons]; omega⟩
  | case2 => cases done
  | case3 offset rest block found ih =>
    obtain ⟨same, low, high⟩ := ih done
    obtain ⟨again, -, fits⟩ := blockEnd_append 0 rest found ('\n' :: more)
    rw [List.length_drop] at high
    rw [List.cons_append, List.cons_append, size, again]
    refine ⟨?_, by omega, by simp only [List.length_cons]; omega⟩
    show size (offset + 2 + block) ((rest ++ '\n' :: more).drop block) = _
    rw [List.drop_append_of_le_length (by omega)]
    exact same
  | case4 offset c rest notLine notBlock blank ih =>
    obtain ⟨same, low, high⟩ := ih done
    have plain : c ≠ '/' := by rintro rfl; exact absurd blank (by decide)
    rw [List.cons_append, size.eq_3 _ _ _ (fun _ bad _ => plain bad) (fun _ bad _ => plain bad),
      if_pos blank]
    exact ⟨same, by omega, by simp only [List.length_cons]; omega⟩
  | case5 offset c rest notLine notBlock ink =>
    cases done
    have line : ∀ tail, c = '/' → rest ++ '\n' :: more = '/' :: tail → False := fun tail slash =>
      (Breaks.feed more).absent (fun tail => notLine tail slash) (by decide) (by decide) tail
    have block : ∀ tail, c = '/' → rest ++ '\n' :: more = '*' :: tail → False := fun tail slash =>
      (Breaks.feed more).absent (fun tail => notBlock tail slash) (by decide) (by decide) tail
    rw [List.cons_append, size.eq_3 _ _ _ line block, if_neg ink]
    exact ⟨rfl, by omega, by omega⟩
  | case6 offset =>
    cases done
    rw [List.nil_append, size.eq_3 _ '\n' more (fun _ bad _ => absurd bad (by decide))
      (fun _ bad _ => absurd bad (by decide)), if_neg (by decide)]
    exact ⟨rfl, by omega, by omega⟩

end Trivia
end Rill

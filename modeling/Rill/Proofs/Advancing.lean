import Rill.Token.Lexer

/-!
# How a cursor moves

A cursor takes characters one after another, and passes over a comment at once. Both come to the same:
the position is the one that counting on over the characters gives. What is passed over before a token
is therefore known by its length (`Trivia.size`).
-/

set_option autoImplicit false

namespace Rill

/-- Up to `room`, it is the same to add in portions and at once. -/
structure Tally.Sums (tally : Tally) (room : Nat) : Prop where
  portions : ∀ count m n, m + n ≤ room → tally.add (tally.add count m) n = tally.add count (m + n)
  nothing : tally.add 1 0 = 1

namespace Tally

theorem Sums.mono {tally : Tally} {room less : Nat} (sums : tally.Sums room) (fewer : less ≤ room) :
    tally.Sums less :=
  ⟨fun count m n inside => sums.portions count m n (Nat.le_trans inside fewer), sums.nothing⟩

theorem exact_sums (room : Nat) : exact.Sums room :=
  ⟨fun count m n _ => Nat.add_assoc count m n, rfl⟩

theorem narrow_add (count : Nat) {more : Nat} (small : more < UInt32.size) :
    narrow.add count more = (count + more) % UInt32.size := by
  have clamped : (UInt32.ofNatClamp more).toNat = more := UInt32.toNat_ofNatClamp_of_lt small
  simp only [narrow, UInt32.toNat_add, UInt32.toNat_ofNat', clamped]
  exact Nat.mod_add_mod count UInt32.size more

theorem narrow_sums {room : Nat} (small : room < UInt32.size) : narrow.Sums room where
  portions count m n inside := by
    rw [narrow_add _ (by omega), narrow_add _ (by omega), narrow_add _ (by omega), Nat.mod_add_mod,
      Nat.add_assoc]
  nothing := rfl

end Tally

namespace Position

variable {tally : Tally}

theorem leap_single (nothing : tally.add 1 0 = 1) (pos : Position) (c : Char) :
    pos.leap [c] tally = pos.step c tally := by
  unfold leap step
  by_cases feed : c = '\n'
  · simp [feed, nothing]
  · simp [feed, Ne.symm feed]

theorem leap_concat {front : List Char} (sums : tally.Sums (front.length + 1)) (pos : Position)
    (c : Char) : pos.leap (front ++ [c]) tally = (pos.leap front tally).step c tally := by
  have feeds : front.count '\n' ≤ front.length := List.count_le_length
  have tail : (front.reverse.takeWhile (· ≠ '\n')).length ≤ front.length := by
    have shorter := (List.takeWhile_prefix (· ≠ '\n') (l := front.reverse)).length_le
    rwa [List.length_reverse] at shorter
  unfold leap step
  by_cases feed : c = '\n'
  · subst feed
    have line := sums.portions pos.line (front.count '\n') 1 (by omega)
    by_cases before : '\n' ∈ front
    · simp [before, line, sums.nothing]
    · simp [before, List.count_eq_zero_of_not_mem before, sums.nothing]
  · have column := sums.portions 1 _ 1 (Nat.succ_le_succ tail)
    have whole := sums.portions pos.column front.length 1 (Nat.le_refl _)
    by_cases before : '\n' ∈ front
    · simp [before, feed, Ne.symm feed] at column ⊢
      exact column.symm
    · simp [before, feed, whole, Ne.symm feed]

theorem leap_eq_after {chars : List Char} (sums : tally.Sums chars.length) (more : chars ≠ [])
    (pos : Position) : pos.leap chars tally = pos.after chars tally := by
  have reversed : ∀ back : List Char, tally.Sums back.length → back ≠ [] →
      pos.leap back.reverse tally = pos.after back.reverse tally := by
    intro back
    induction back with
    | nil => exact fun _ empty => absurd rfl empty
    | cons c front ih =>
        intro sums _
        rw [List.reverse_cons, after_append]
        cases front with
        | nil => exact leap_single sums.nothing pos c
        | cons d front =>
            rw [← ih (sums.mono (Nat.le_succ _)) (List.cons_ne_nil d front)]
            exact leap_concat (by rwa [List.length_reverse]) pos c
  have forward := reversed chars.reverse (by rwa [List.length_reverse])
    (by rwa [Ne, List.reverse_eq_nil_iff])
  rwa [List.reverse_reverse] at forward

end Position

namespace Trivia

def size (offset : Nat) (chars : List Char) : Except LexProblem Nat :=
  match chars with
  | '/' :: '/' :: rest =>
      let line := (rest.takeWhile (fun c => c ≠ '\n')).length
      size (offset + 2 + line) (rest.drop line)
  | '/' :: '*' :: rest =>
      match blockEnd 0 rest with
      | none => .error ⟨.unterminatedComment, offset⟩
      | some block => size (offset + 2 + block) (rest.drop block)
  | c :: rest =>
      if c = ' ' ∨ c = '\t' ∨ c = '\r' then size (offset + 1) rest else .ok offset
  | [] => .ok offset
termination_by chars.length
decreasing_by
  · simp only [List.length_drop, List.length_cons]; omega
  · simp only [List.length_drop, List.length_cons]; omega
  · simp only [List.length_cons]; omega

theorem lt_blockEnd {offset count : Nat} {chars : List Char} (ends : blockEnd offset chars = some count) :
    offset < count ∧ chars ≠ [] := by
  fun_induction blockEnd offset chars with
  | case1 => cases ends; exact ⟨by omega, List.cons_ne_nil _ _⟩
  | case2 offset c rest _ ih => exact ⟨Nat.lt_of_succ_lt (ih ends).1, List.cons_ne_nil _ _⟩
  | case3 => cases ends

theorem take_blockEnd_ne_nil {chars : List Char} {count : Nat} (ends : blockEnd 0 chars = some count) :
    chars.take count ≠ [] := by
  obtain ⟨more, left⟩ := lt_blockEnd ends
  rw [Ne, List.take_eq_nil_iff]
  rintro (rfl | rfl)
  · exact absurd more (Nat.lt_irrefl 0)
  · exact left rfl

end Trivia

namespace Cursor

variable (cursor : Cursor) (tally : Tally)

theorem lastInk_append (last : Option Char) (front back : List Char) :
    lastInk last (front ++ back) = lastInk (lastInk last front) back := List.foldl_append

theorem advance_add (first second : Nat) :
    cursor.advance (first + second) tally = (cursor.advance first tally).advance second tally := by
  induction first generalizing cursor with
  | zero => rw [Nat.zero_add]; rfl
  | succ first ih => rw [Nat.succ_add, advance, ih, advance]

@[simp] theorem pos_advance (count : Nat) :
    (cursor.advance count tally).pos = cursor.pos.after (cursor.rest.take count) tally := by
  induction count generalizing cursor with
  | zero => rfl
  | succ count ih =>
      rw [advance, ih, bump]
      split
      · next all => simp [all]
      · next front => simp [front]

@[simp] theorem last_advance (count : Nat) :
    (cursor.advance count tally).last = lastInk cursor.last (cursor.rest.take count) := by
  induction count generalizing cursor with
  | zero => rfl
  | succ count ih =>
      rw [advance, ih, bump]
      split
      · next all => simp [all]
      · next front => rw [front, ← lastInk_append]; rfl

theorem advance_eq (count : Nat) : cursor.advance count tally
    = ⟨cursor.rest.drop count, cursor.pos.after (cursor.rest.take count) tally,
        lastInk cursor.last (cursor.rest.take count)⟩ := by
  rw [← rest_advance, ← pos_advance, ← last_advance]

variable {cursor} {tally} {base : Cursor} {offset count : Nat}

theorem leap_eq_advance (sums : tally.Sums cursor.rest.length) (more : cursor.rest.take count ≠ []) :
    cursor.leap count tally = cursor.advance count tally := by
  have few : (cursor.rest.take count).length ≤ cursor.rest.length := List.length_take_le' _ _
  rw [advance_eq, leap, Position.leap_eq_after (sums.mono few) more]

theorem map_since {next : Cursor} (fewer : next.rest.length ≤ cursor.rest.length)
    (passed : Except LexError next.Ahead) :
    (passed.map (Ahead.since fewer)).map Subtype.val = passed.map Subtype.val := by
  cases passed <;> rfl

theorem skipTrivia_ahead (sums : tally.Sums base.rest.length)
    (here : cursor = base.advance offset tally) :
    (cursor.skipTrivia tally).map Subtype.val
      = match Trivia.size offset cursor.rest with
        | .error problem => .error (base.problem problem tally)
        | .ok blank => .ok (base.advance blank tally) := by
  have onward : ∀ {cursor : Cursor} {offset : Nat}, cursor = base.advance offset tally → ∀ count,
      cursor.advance count tally = base.advance (offset + count) tally := by
    rintro cursor offset rfl count
    exact (base.advance_add tally offset count).symm
  have left : ∀ {cursor : Cursor} {offset : Nat}, cursor = base.advance offset tally →
      tally.Sums cursor.rest.length := by
    rintro cursor offset rfl
    exact sums.mono (by rw [length_advance]; exact Nat.sub_le _ _)
  fun_induction skipTrivia cursor tally generalizing offset with
  | case1 cursor rest front ih =>
      have size : Trivia.size offset cursor.rest
          = Trivia.size (offset + (2 + (rest.takeWhile (· ≠ '\n')).length))
            (rest.drop (rest.takeWhile (· ≠ '\n')).length) := by
        rw [front, Trivia.size, Nat.add_assoc]
      have line : (cursor.rest.takeWhile (· ≠ '\n')).length
          = 2 + (rest.takeWhile (· ≠ '\n')).length := by
        simp [front]
        omega
      have leap : cursor.leap (cursor.rest.takeWhile (· ≠ '\n')).length tally
          = cursor.advance (2 + (rest.takeWhile (· ≠ '\n')).length) tally := by
        rw [leap_eq_advance (left here) (by simp [front]), line]
      rw [leap] at ih
      rw [map_since, leap, ih (onward here _), size, rest_advance, front, Nat.add_comm 2]
      rfl
  | case2 cursor rest front endless =>
      have size : Trivia.size offset cursor.rest = .error ⟨.unterminatedComment, offset⟩ := by
        rw [front, Trivia.size, endless]
      rw [size, here]
      rfl
  | case3 cursor rest front count ends ih =>
      have size : Trivia.size offset cursor.rest
          = Trivia.size (offset + (2 + count)) (rest.drop count) := by
        rw [front, Trivia.size, ends, ← Nat.add_assoc]
      have inside : ((cursor.advance 2 tally).rest.take count) ≠ [] := by
        rw [rest_advance, front]
        exact Trivia.take_blockEnd_ne_nil ends
      have leap : (cursor.advance 2 tally).leap count tally = cursor.advance (2 + count) tally := by
        rw [leap_eq_advance (left (onward here 2)) inside, advance_add]
      rw [leap] at ih
      rw [map_since, leap, ih (onward here _), size, rest_advance, front, Nat.add_comm 2]
      rfl
  | case4 cursor c rest line block front blank ih =>
      have size : Trivia.size offset cursor.rest = Trivia.size (offset + 1) rest := by
        rw [front, Trivia.size.eq_3 _ _ _ line block, if_pos blank]
      have bump : cursor.bump tally = cursor.advance 1 tally := rfl
      rw [bump] at ih
      rw [map_since, bump, ih (onward here _), size, rest_advance, front]
      rfl
  | case5 cursor c rest line block front ink =>
      have size : Trivia.size offset cursor.rest = .ok offset := by
        rw [front, Trivia.size.eq_3 _ _ _ line block, if_neg ink]
      rw [size]
      exact congrArg Except.ok here
  | case6 cursor all =>
      have size : Trivia.size offset cursor.rest = .ok offset := by rw [all, Trivia.size]
      rw [size]
      exact congrArg Except.ok here

theorem skipTrivia_eq (sums : tally.Sums cursor.rest.length) :
    (cursor.skipTrivia tally).map Subtype.val
      = match Trivia.size 0 cursor.rest with
        | .error problem => .error (cursor.problem problem tally)
        | .ok blank => .ok (cursor.advance blank tally) := skipTrivia_ahead sums rfl

theorem skipTrivia_eq_ok (sums : tally.Sums cursor.rest.length) {here : cursor.Ahead}
    (passed : cursor.skipTrivia tally = .ok here) :
    ∃ blank, Trivia.size 0 cursor.rest = .ok blank ∧ here.1 = cursor.advance blank tally := by
  have blanks := skipTrivia_eq sums
  rw [passed] at blanks
  cases size : Trivia.size 0 cursor.rest with
  | error problem => rw [size] at blanks; cases blanks
  | ok blank => rw [size] at blanks; exact ⟨blank, rfl, Except.ok.inj blanks⟩

theorem skipTrivia_eq_error (sums : tally.Sums cursor.rest.length) {error : LexError}
    (stopped : cursor.skipTrivia tally = .error error) :
    ∃ problem, Trivia.size 0 cursor.rest = .error problem
      ∧ error = cursor.problem problem tally := by
  have blanks := skipTrivia_eq sums
  rw [stopped] at blanks
  cases size : Trivia.size 0 cursor.rest with
  | error problem => rw [size] at blanks; exact ⟨problem, rfl, Except.error.inj blanks⟩
  | ok blank => rw [size] at blanks; cases blanks

end Cursor

namespace Lexed

theorem scan_eq (cursor : Cursor) (done : List Token) {tally : Tally}
    (sums : tally.Sums cursor.rest.length := by exact Tally.exact_sums _) : scan cursor done tally
      = match Trivia.size 0 cursor.rest with
        | .error problem => ⟨done.reverse, some (cursor.problem problem tally)⟩
        | .ok blank =>
            match (cursor.advance blank tally).rest with
            | [] => ⟨(⟨.endOfInput, "", (cursor.advance blank tally).pos⟩ :: done).reverse, none⟩
            | c :: rest =>
                match Lexeme.read (cursor.advance blank tally).last c rest with
                | .error problem =>
                    ⟨done.reverse, some ((cursor.advance blank tally).problem problem tally)⟩
                | .ok lexeme => scan ((cursor.advance blank tally).advance lexeme.size tally)
                    ((cursor.advance blank tally).token lexeme tally :: done) tally := by
  rw [scan.eq_def]
  cases passed : cursor.skipTrivia tally with
  | error error =>
      obtain ⟨problem, size, rfl⟩ := Cursor.skipTrivia_eq_error sums passed
      rw [size]
  | ok ahead =>
      obtain ⟨blank, size, here⟩ := Cursor.skipTrivia_eq_ok sums passed
      obtain ⟨here', fewer⟩ := ahead
      obtain rfl : here' = cursor.advance blank tally := here
      rw [size]
      simp only
      split
      · next all => rw [all]
      · next front => rewrite [front]; rfl

section Step

variable {cursor : Cursor} {blank : Nat} {c : Char} {rest : List Char} {problem : LexProblem}
  {lexeme : Lexeme} {tally : Tally}

theorem scan_unclosed (blanks : Trivia.size 0 cursor.rest = .error problem) (done : List Token)
    (sums : tally.Sums cursor.rest.length := by exact Tally.exact_sums _) :
    scan cursor done tally = ⟨done.reverse, some (cursor.problem problem tally)⟩ := by
  rw [scan_eq _ _ sums, blanks]

theorem scan_end (blanks : Trivia.size 0 cursor.rest = .ok blank)
    (all : (cursor.advance blank tally).rest = []) (done : List Token)
    (sums : tally.Sums cursor.rest.length := by exact Tally.exact_sums _) :
    scan cursor done tally
      = ⟨(⟨.endOfInput, "", (cursor.advance blank tally).pos⟩ :: done).reverse, none⟩ := by
  rw [scan_eq _ _ sums, blanks]
  simp only [all]

theorem scan_unread (blanks : Trivia.size 0 cursor.rest = .ok blank)
    (front : (cursor.advance blank tally).rest = c :: rest)
    (read : Lexeme.read (cursor.advance blank tally).last c rest = .error problem)
    (done : List Token) (sums : tally.Sums cursor.rest.length := by exact Tally.exact_sums _) :
    scan cursor done tally
      = ⟨done.reverse, some ((cursor.advance blank tally).problem problem tally)⟩ := by
  rw [scan_eq _ _ sums, blanks]
  simp only [front, read]

theorem scan_token (blanks : Trivia.size 0 cursor.rest = .ok blank)
    (front : (cursor.advance blank tally).rest = c :: rest)
    (read : Lexeme.read (cursor.advance blank tally).last c rest = .ok lexeme) (done : List Token)
    (sums : tally.Sums cursor.rest.length := by exact Tally.exact_sums _) :
    scan cursor done tally = scan ((cursor.advance blank tally).advance lexeme.size tally)
      ((cursor.advance blank tally).token lexeme tally :: done) tally := by
  rw [scan_eq _ _ sums, blanks]
  simp only [front, read]

end Step

theorem scan_induction {motive : Cursor → List Token → Prop}
    (unclosed : ∀ cursor done problem, Trivia.size 0 cursor.rest = .error problem →
      motive cursor done)
    (finish : ∀ cursor done blank, Trivia.size 0 cursor.rest = .ok blank →
      (cursor.advance blank).rest = [] → motive cursor done)
    (unread : ∀ cursor done blank c rest problem, Trivia.size 0 cursor.rest = .ok blank →
      (cursor.advance blank).rest = c :: rest →
        Lexeme.read (cursor.advance blank).last c rest = .error problem → motive cursor done)
    (token : ∀ cursor done blank c rest lexeme, Trivia.size 0 cursor.rest = .ok blank →
      (cursor.advance blank).rest = c :: rest →
        Lexeme.read (cursor.advance blank).last c rest = .ok lexeme →
          motive ((cursor.advance blank).advance lexeme.size)
            ((cursor.advance blank).token lexeme :: done) → motive cursor done)
    (cursor : Cursor) (done : List Token) : motive cursor done := by
  fun_induction scan cursor done .exact with
  | case1 cursor done error stopped =>
      obtain ⟨problem, blanks, -⟩ := Cursor.skipTrivia_eq_error (Tally.exact_sums _) stopped
      exact unclosed cursor done problem blanks
  | case2 cursor done here fewer passed front =>
      obtain ⟨blank, blanks, rfl⟩ := Cursor.skipTrivia_eq_ok (Tally.exact_sums _) passed
      exact finish cursor done blank blanks front
  | case3 cursor done here fewer passed c rest front problem stopped =>
      obtain ⟨blank, blanks, rfl⟩ := Cursor.skipTrivia_eq_ok (Tally.exact_sums _) passed
      exact unread cursor done blank c rest problem blanks front stopped
  | case4 cursor done here fewer passed c rest front lexeme read ih =>
      obtain ⟨blank, blanks, rfl⟩ := Cursor.skipTrivia_eq_ok (Tally.exact_sums _) passed
      exact token cursor done blank c rest lexeme blanks front read ih

end Lexed

end Rill

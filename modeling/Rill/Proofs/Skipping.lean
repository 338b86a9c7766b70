import Rill.Proofs.Spelling

/-!
# Skipping agrees with reading

The extent of a hole is found by a scanner that reads nothing. What the lexer reads as a string or
as a template, that scanner passes over as one: it leaves the level of the string or template where
the reader does, whatever escapes and nested templates are inside (`Contents.skips`,
`template_skips`). So a cursor is moved to the same place by both (`skipping_agrees`).
-/

set_option autoImplicit false

namespace Rill

namespace Lexeme

/-- Skipping goes over some characters from one stack of levels to another, wherever it stands and
whatever comes after them. -/
def Skips (stack : List Nesting) (front : List Char) (later : List Nesting) : Prop :=
  ∀ offset after, skip stack offset (front ++ after) = skip later (offset + front.length) after

namespace Skips

variable {stack between later : List Nesting} {front back : List Char}

theorem nil (stack : List Nesting) : Skips stack [] stack := fun _ _ => rfl

theorem append (first : Skips stack front between) (second : Skips between back later) :
    Skips stack (front ++ back) later := by
  intro offset after
  rw [List.append_assoc, first, second, List.length_append, Nat.add_assoc]

theorem moves (moves : ∀ offset ahead, Moves offset stack front ahead later) :
    Skips stack front later := fun offset after => (moves offset after).skip

theorem all (each : ∀ c ∈ front, Skips stack [c] stack) : Skips stack front stack := by
  induction front with
  | nil => exact nil stack
  | cons c front ih =>
      exact (each c List.mem_cons_self).append (ih fun d inside => each d (List.mem_cons_of_mem c inside))

end Skips

/-! ## Escapes and strings -/

theorem hexValue?_special {c : Char} (special : c ∈ ['\\', '"', '\'', '`', '$']) :
    hexValue? c = none := by
  simp only [List.mem_cons, List.not_mem_nil, or_false] at special
  rcases special with rfl | rfl | rfl | rfl | rfl <;> decide

theorem Escape.digits {spelling : List Char} {meant : Char} (escape : Escape spelling meant) :
    ∃ c digits, spelling = c :: digits ∧ ∀ d ∈ digits, d ∉ ['\\', '"', '\'', '`', '$'] := by
  cases escape with
  | code form full hex valid =>
      refine ⟨_, _, rfl, fun d inside special => ?_⟩
      have digit := hex d inside
      rw [hexValue?_special special] at digit
      cases digit
  | _ => exact ⟨_, [], rfl, fun _ inside => nomatch inside⟩

variable {quote : Char} {start : Nat} {outer : List Nesting}

theorem Contents.skips {raw cooked : List Char} (quotes : quote = '"' ∨ quote = '\'')
    (spells : Contents quote raw cooked) :
    Skips (.quoted quote start :: outer) (raw ++ [quote]) outer := by
  have special : quote ∈ ['\\', '"', '\'', '`', '$'] := by
    rcases quotes with rfl | rfl <;> decide
  induction spells with
  | nil =>
      refine .moves fun _ _ => .unquote ?_
      rintro rfl
      exact absurd quotes (by decide)
  | plain notQuote notEscape _ ih =>
      exact (Skips.moves fun _ _ => .quoted notQuote notEscape).append ih
  | @escape _ raw _ _ escape _ ih =>
      obtain ⟨c, digits, rfl, plain⟩ := escape.digits
      have first : Skips (.quoted quote start :: outer) ['\\', c] (.quoted quote start :: outer) :=
        .moves fun _ _ => .quotedEscape
      have others : Skips (.quoted quote start :: outer) digits (.quoted quote start :: outer) :=
        .all fun d inside => .moves fun _ _ => .quoted
          (fun same => plain d inside (same ▸ special))
          (fun same => plain d inside (same ▸ List.mem_cons_self))
      have whole := (first.append others).append ih
      simpa using whole

/-! ## Holes under other levels -/

namespace Nesting

/-- A level without the place where it began. -/
def shape : Nesting → Nesting
  | hole depth _ => .hole depth 0
  | quoted quote _ => .quoted quote 0
  | template _ => .template 0

variable {stack outer : List Nesting} {depth start : Nat} {quote : Char}

theorem under_hole (alike : stack.map shape = (.hole depth start :: outer).map shape) :
    ∃ start' under, stack = .hole depth start' :: under ∧ under.map shape = outer.map shape := by
  obtain ⟨level, under, rfl, same, others⟩ := List.map_eq_cons_iff.mp alike
  cases level with
  | hole depth start' =>
      cases same
      exact ⟨start', under, rfl, others⟩
  | _ => cases same

theorem under_quoted (alike : stack.map shape = (.quoted quote start :: outer).map shape) :
    ∃ start' under, stack = .quoted quote start' :: under ∧ under.map shape = outer.map shape := by
  obtain ⟨level, under, rfl, same, others⟩ := List.map_eq_cons_iff.mp alike
  cases level with
  | quoted quote start' =>
      cases same
      exact ⟨start', under, rfl, others⟩
  | _ => cases same

theorem under_template (alike : stack.map shape = (.template start :: outer).map shape) :
    ∃ start' under, stack = .template start' :: under ∧ under.map shape = outer.map shape := by
  obtain ⟨level, under, rfl, same, others⟩ := List.map_eq_cons_iff.mp alike
  cases level with
  | template start' => exact ⟨start', under, rfl, others⟩
  | _ => cases same

end Nesting

theorem Moves.under {offset : Nat} {stack later stack' : List Nesting} {passed ahead : List Char}
    (moves : Moves offset stack passed ahead later) (offset' : Nat) (outer : List Nesting)
    (alike : stack'.map Nesting.shape = stack.map Nesting.shape) :
    ∃ later', later'.map Nesting.shape = later.map Nesting.shape
      ∧ Moves offset' (stack' ++ outer) passed ahead (later' ++ outer) := by
  have again {level level' : Nesting} {front back : List Nesting}
      (first : level.shape = level'.shape)
      (same : front.map Nesting.shape = back.map Nesting.shape) :
      (level :: front).map Nesting.shape = (level' :: back).map Nesting.shape := by
    rw [List.map_cons, List.map_cons, first, same]
  cases moves with
  | opens =>
      obtain ⟨start, under, rfl, same⟩ := Nesting.under_hole alike
      exact ⟨.hole _ start :: under, again rfl same, .opens⟩
  | closes shallow =>
      obtain ⟨start, under, rfl, same⟩ := Nesting.under_hole alike
      exact ⟨under, same, .closes shallow⟩
  | closesInner deep =>
      obtain ⟨start, under, rfl, same⟩ := Nesting.under_hole alike
      exact ⟨.hole _ start :: under, again rfl same, .closesInner deep⟩
  | quote quote =>
      obtain ⟨start, under, rfl, same⟩ := Nesting.under_hole alike
      exact ⟨.quoted _ offset' :: .hole _ start :: under, again rfl (again rfl same), .quote quote⟩
  | tick =>
      obtain ⟨start, under, rfl, same⟩ := Nesting.under_hole alike
      exact ⟨.template offset' :: .hole _ start :: under, again rfl (again rfl same), .tick⟩
  | code notOpen notClose notQuote notTick =>
      obtain ⟨start, under, rfl, same⟩ := Nesting.under_hole alike
      exact ⟨.hole _ start :: under, again rfl same, .code notOpen notClose notQuote notTick⟩
  | quotedEscape =>
      obtain ⟨start, under, rfl, same⟩ := Nesting.under_quoted alike
      exact ⟨.quoted _ start :: under, again rfl same, .quotedEscape⟩
  | unquote plain =>
      obtain ⟨start, under, rfl, same⟩ := Nesting.under_quoted alike
      exact ⟨under, same, .unquote plain⟩
  | quoted notQuote notEscape =>
      obtain ⟨start, under, rfl, same⟩ := Nesting.under_quoted alike
      exact ⟨.quoted _ start :: under, again rfl same, .quoted notQuote notEscape⟩
  | templateEscape =>
      obtain ⟨start, under, rfl, same⟩ := Nesting.under_template alike
      exact ⟨.template start :: under, again rfl same, .templateEscape⟩
  | hole =>
      obtain ⟨start, under, rfl, same⟩ := Nesting.under_template alike
      exact ⟨.hole 1 start :: .template start :: under, again rfl (again rfl same), .hole⟩
  | untick =>
      obtain ⟨start, under, rfl, same⟩ := Nesting.under_template alike
      exact ⟨under, same, .untick⟩
  | template notTick notEscape notHole =>
      obtain ⟨start, under, rfl, same⟩ := Nesting.under_template alike
      exact ⟨.template start :: under, again rfl same, .template notTick notEscape notHole⟩

theorem skip_under (stack : List Nesting) (offset : Nat) (chars : List Char) (quotes : Quotes stack)
    {finish : Nat} (done : skip stack offset chars = .ok finish) (outer : List Nesting)
    {stack' : List Nesting} (alike : stack'.map Nesting.shape = stack.map Nesting.shape)
    (offset' : Nat) :
    ∃ front after, chars = front ++ after ∧ finish = offset + front.length ∧
      skip (stack' ++ outer) offset' chars = skip outer (offset' + front.length) after := by
  induction size : chars.length using Nat.strong_induction_on
    generalizing stack stack' offset offset' chars with
  | _ count ih =>
  cases stack with
  | nil =>
      rw [skip] at done
      cases done
      obtain rfl := List.map_eq_nil_iff.mp alike
      exact ⟨[], chars, rfl, rfl, rfl⟩
  | cons level under =>
      obtain failed | ⟨passed, ahead, later, rfl, more, moves⟩ := skip_step quotes offset chars
      · rw [failed] at done
        cases done
      · have shorter : ahead.length < count := by
          have := List.length_pos_iff.mpr more
          rw [← size, List.length_append]
          omega
        rw [moves.skip] at done
        obtain ⟨later', same, moves'⟩ := moves.under offset' outer alike
        obtain ⟨front, after, rfl, whole, skipped⟩ :=
          ih _ shorter later _ ahead (moves.quotes quotes) done same (offset' + passed.length) rfl
        refine ⟨passed ++ front, after, by rw [List.append_assoc], ?_, ?_⟩
        · rw [whole, List.length_append, Nat.add_assoc]
        · rw [moves'.skip, skipped, List.length_append, Nat.add_assoc]

/-! ## Templates -/

theorem pieces_skips (offset : Nat) (cooked : List Char) (before : List RawPiece)
    (chars : List Char) {found : List RawPiece × Nat}
    (done : pieces offset cooked before chars = .ok found) (start : Nat) (outer : List Nesting)
    (offset' : Nat) :
    ∃ front after, chars = front ++ after ∧ found.2 = offset + front.length ∧
      skip (.template start :: outer) offset' chars = skip outer (offset' + front.length) after := by
  fun_induction pieces offset cooked before chars generalizing offset' with
  | case1 => cases done
  | case2 offset cooked before rest =>
    cases done
    exact ⟨['`'], rest, rfl, rfl, (Moves.untick).skip⟩
  | case3 => cases done
  | case4 offset cooked before rest meant size read ih =>
    obtain ⟨spelling, tail, rfl, same, escape⟩ := escape_spells read
    simp only at same
    subst same
    rw [Nat.add_sub_cancel, List.drop_left] at ih done
    obtain ⟨c, digits, rfl, plain⟩ := escape.digits
    have first : Skips (.template start :: outer) ['\\', c] (.template start :: outer) :=
      .moves fun _ _ => .templateEscape
    have others : Skips (.template start :: outer) digits (.template start :: outer) :=
      .all fun d inside => .moves fun _ _ => .template
        (fun same => plain d inside (by rw [same]; decide))
        (fun same => plain d inside (by rw [same]; decide))
        (fun same => absurd same fun same => plain d inside (by rw [same]; decide))
    obtain ⟨front, after, rfl, whole, skipped⟩ :=
      ih done (offset' + (['\\', c] ++ digits).length)
    refine ⟨'\\' :: (c :: digits) ++ front, after, by simp, ?_, ?_⟩
    · simp only [whole, List.length_cons, List.length_append]
      omega
    · have split := (first.append others) offset' (front ++ after)
      rw [skipped] at split
      simp only [List.cons_append, List.nil_append] at split ⊢
      rw [split]
      simp only [List.length_cons, List.length_append]
      congr 1
      omega
  | case5 => cases done
  | case6 offset cooked before rest finish skipped covered source ih =>
    obtain ⟨hole, tail, rfl, rfl, inner⟩ := skip_under _ _ _ (.hole 1 0) skipped
      (.template start :: outer) (rfl : [Nesting.hole 1 start].map Nesting.shape = _) (offset' + 2)
    have size : covered = hole.length := by simp [covered]
    rw [size, List.drop_left] at ih done
    obtain ⟨front, after, rfl, whole, later⟩ := ih done (offset' + 2 + hole.length)
    refine ⟨'$' :: '\x7b' :: (hole ++ front), after, by simp, ?_, ?_⟩
    · simp only [whole, List.length_cons, List.length_append]
      omega
    · have opening : skip (.template start :: outer) offset'
            (['$', '\x7b'] ++ (hole ++ (front ++ after)))
          = skip (.hole 1 start :: .template start :: outer) (offset' + 2)
              (hole ++ (front ++ after)) := Moves.hole.skip
      refine opening.trans (inner.trans (later.trans ?_))
      congr 1
      simp only [List.length_cons, List.length_append]
      omega
  | case7 offset cooked before c rest notTick notEscape far ih =>
    obtain ⟨front, after, rfl, whole, skipped⟩ := ih done (offset' + 1)
    refine ⟨c :: front, after, rfl, ?_, ?_⟩
    · rw [whole, List.length_cons]
      omega
    · have step : skip (.template start :: outer) offset' ([c] ++ (front ++ after))
          = skip (.template start :: outer) (offset' + 1) (front ++ after) :=
        (Moves.template notTick notEscape fun dollar brace => by
          obtain ⟨more, same⟩ := List.head?_eq_some_iff.mp brace
          exact far more dollar same).skip
      refine step.trans (skipped.trans ?_)
      rw [List.length_cons]
      congr 1
      omega

theorem pieces_of_template {rest : List Char} {lexeme : Lexeme}
    (done : template rest = .ok lexeme) :
    ∃ found, pieces 1 [] [] rest = .ok found ∧ lexeme.size = max found.2 1 := by
  cases read : pieces 1 [] [] rest with
  | error problem =>
      simp only [template, read] at done
      cases done
  | ok found =>
      simp only [template, read] at done
      cases done
      exact ⟨found, rfl, rfl⟩

theorem template_skips {rest : List Char} {lexeme : Lexeme}
    (done : template rest = .ok lexeme) :
    ∃ front after, rest = front ++ after ∧ lexeme.size = front.length + 1 ∧
      ∀ start outer, Skips (.template start :: outer) front outer := by
  obtain ⟨front, after, -, rfl, size, -, alone, -⟩ := template_front done
  refine ⟨front, after, rfl, size, fun start outer offset more => ?_⟩
  obtain ⟨longer, -⟩ := template_append alone more
  obtain ⟨found, read, same⟩ := pieces_of_template longer
  obtain ⟨front', after', split, whole, skipped⟩ :=
    pieces_skips 1 [] [] _ read start outer offset
  obtain ⟨rfl, rfl⟩ := List.append_inj split (by omega)
  exact skipped

theorem quoted_skips {rest : List Char} {lexeme : Lexeme} (quotes : quote = '"' ∨ quote = '\'')
    (done : quoted quote rest = .ok lexeme) :
    ∃ front after, rest = front ++ after ∧ lexeme.size = front.length + 1 ∧
      ∀ start outer, Skips (.quoted quote start :: outer) front outer := by
  obtain ⟨-, raw, tail, rfl, size, inside⟩ := quoted_spells done
  refine ⟨raw ++ [quote], tail, by simp, ?_, fun _ _ => inside.skips quotes⟩
  rw [size, List.length_append, List.length_singleton]

end Lexeme

/-! ## Cursors -/

namespace Cursor

open Lexeme (Nesting skip Skips)

variable {cursor : Cursor} {rest : List Char} {lexeme : Lexeme} {level : Nat → Nesting}

/-- The cursor past the string or template that it stands at, when what the first character opens is
skipped and not read. -/
def skipped (cursor : Cursor) (level : Nat → Nesting) : Except LexProblem Cursor :=
  match skip [level 0] 1 (cursor.rest.drop 1) with
  | .ok finish => .ok (cursor.advance finish)
  | .error problem => .error problem

/-- Skipping at this level from the cursor on goes over the characters that the lexeme covers: alone
it leaves the cursor where the lexeme does, and on top of other levels it goes on from there. -/
structure SkipsAs (cursor : Cursor) (level : Nat → Nesting) (lexeme : Lexeme) : Prop where
  alone : cursor.skipped level = .ok (cursor.advance lexeme.size)
  inside : ∀ start outer offset, skip (level start :: outer) (offset + 1) (cursor.rest.drop 1)
    = skip outer (offset + lexeme.size) (cursor.advance lexeme.size).rest
  covered : lexeme.size ≤ cursor.rest.length

theorem SkipsAs.of_skips {c : Char} (at_ : cursor.rest = c :: rest)
    (found : ∃ front after, rest = front ++ after ∧ lexeme.size = front.length + 1 ∧
      ∀ start outer, Skips (level start :: outer) front outer) : cursor.SkipsAs level lexeme := by
  obtain ⟨front, after, rfl, size, skips⟩ := found
  have left : (cursor.advance lexeme.size).rest = after := by
    rw [rest_advance, at_, size, List.drop_succ_cons, List.drop_left]
  have inside : ∀ start outer offset, skip (level start :: outer) (offset + 1) (cursor.rest.drop 1)
      = skip outer (offset + lexeme.size) (cursor.advance lexeme.size).rest := by
    intro start outer offset
    rw [left, size, at_, List.drop_succ_cons, List.drop_zero, skips start outer, Nat.add_assoc,
      Nat.add_comm 1]
  refine ⟨?_, inside, ?_⟩
  · have ends := inside 0 [] 0
    rw [Nat.zero_add, Nat.zero_add, skip] at ends
    rw [skipped, ends]
  · rw [at_, size, List.length_cons, List.length_append]
    omega

/-- Where the lexer reads a template, or a string between either quotes, skipping succeeds and leaves
the cursor at the same place. -/
theorem skipping_agrees (cursor : Cursor) (rest : List Char) (lexeme : Lexeme) :
    (cursor.rest = '`' :: rest → Lexeme.template rest = .ok lexeme →
      cursor.SkipsAs .template lexeme) ∧
    ∀ quote, quote = '"' ∨ quote = '\'' → cursor.rest = quote :: rest →
      Lexeme.quoted quote rest = .ok lexeme → cursor.SkipsAs (.quoted quote) lexeme :=
  ⟨fun at_ done => .of_skips at_ (Lexeme.template_skips done),
    fun _ quotes at_ done => .of_skips at_ (Lexeme.quoted_skips quotes done)⟩

/-- A template with an escape of four digits and another template in its hole, and a string with an
escape of two digits and the quote itself. -/
theorem skipping_agrees_nested :
    (start "`\\u0041$\x7b f(`\x7d`) \x7d` + 1" ⟨3, 5⟩).skipped .template
        = .ok ⟨" + 1".toList, ⟨3, 24⟩, some '`'⟩ ∧
      (start "'\\x27\n\\''.size" ⟨3, 5⟩).skipped (.quoted '\'')
        = .ok ⟨".size".toList, ⟨4, 4⟩, some '\''⟩ := by
  obtain ⟨template, done, size⟩ : ∃ lexeme,
      Lexeme.template "\\u0041$\x7b f(`\x7d`) \x7d` + 1".toList = .ok lexeme ∧ lexeme.size = 19 :=
    ⟨_, by cbv, rfl⟩
  obtain ⟨text, done', size'⟩ : ∃ lexeme,
      Lexeme.quoted '\'' "\\x27\n\\''.size".toList = .ok lexeme ∧ lexeme.size = 9 :=
    ⟨_, by cbv, rfl⟩
  have first := (skipping_agrees (start "`\\u0041$\x7b f(`\x7d`) \x7d` + 1" ⟨3, 5⟩) _ template).1 rfl done
  have second := (skipping_agrees (start "'\\x27\n\\''.size" ⟨3, 5⟩) _ text).2 '\'' (.inr rfl) rfl done'
  rw [first.alone, second.alone, size, size']
  exact ⟨rfl, rfl⟩

end Cursor

end Rill

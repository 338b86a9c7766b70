import Mathlib
import Rill.Proofs.Following.Statement

/-!
# Programs one after another

The statements of a text with a line feed and a second text after it are those of the two texts.
Reading the whole goes through the rounds that read the first text, since nothing in a complete
program reaches over its end, and then through those that read the second.
-/

set_option autoImplicit false

namespace Rill

namespace TokenKind

def starts : TokenKind → Bool
  | newline | endOfInput => false
  | keyword .in_ | keyword .else_ | keyword .extends_ | keyword .catch_ | keyword .finally_
  | keyword .as_ | keyword .case_ => false
  | mark .minus | mark .plus | mark .bang | mark .tilde | mark .ellipsis | mark .openParen
  | mark .openBracket | mark .openBrace => true
  | mark _ => false
  | _ => true

theorem starts_of_continues {kind : TokenKind} (goesOn : kind.continues) : kind.starts = false := by
  rcases continues_iff.mp goesOn with rfl | rfl | rfl | rfl | rfl <;> rfl

end TokenKind

namespace Grammar

open Rill.Stream (Seam Mimics)

variable {lines : Nat} {reach reach' : Reach} {more : List Token} {near far : Stream}

/-! ## Rounds -/

def programRound (reach : Reach) (done : List Stmt) :
    Parser (Parser.Round (List Stmt) (List Stmt)) := do
  Parser.skipSeparators
  if ← Parser.check .endOfInput then return .done done.reverse
  let stmt ← reach .statement
  return .again (stmt :: done)

theorem statements_eq (reach : Reach) : statements reach = Parser.loop (programRound reach) [] := rfl

def isSeparator (token : Token) : Bool := token.kind = .newline || token.kind = .mark .semicolon

theorem programRound_eq (reach : Reach) (done : List Stmt) (stream : Stream) :
    programRound reach done stream
      = if (stream.dropWhile isSeparator).current.kind = .endOfInput then
          .ok (.done done.reverse, stream.dropWhile isSeparator)
        else (reach .statement >>= fun stmt =>
          (pure (.again (stmt :: done)) : Parser (Parser.Round (List Stmt) (List Stmt))))
            (stream.dropWhile isSeparator) := by
  show (if decide ((stream.dropWhile isSeparator).current.kind = .endOfInput) = true then
      (pure (.done done.reverse) : Parser (Parser.Round (List Stmt) (List Stmt)))
    else reach .statement >>= fun stmt => pure (.again (stmt :: done)))
      (stream.dropWhile isSeparator) = _
  by_cases ends : (stream.dropWhile isSeparator).current.kind = .endOfInput
  · rw [decide_eq_true ends, if_pos rfl, if_pos ends]
    rfl
  · rw [decide_eq_false ends, if_neg Bool.false_ne_true, if_neg ends]

theorem programRound_of_nil (done : List Stmt) (finish : near.finish.kind = .endOfInput)
    (ends : near.ahead.dropWhile isSeparator = []) :
    programRound reach done near = .ok (.done done.reverse, near.dropWhile isSeparator) := by
  rw [programRound_eq, Stream.current]
  show (if (((near.ahead.dropWhile isSeparator).head?.getD near.finish).kind = _) then _ else _) = _
  rw [ends]
  exact if_pos finish

theorem programRound_of_cons (done : List Stmt) {token : Token} {rest : List Token}
    (goesOn : (near.dropWhile isSeparator).ahead = token :: rest)
    (inside : token.kind ≠ .endOfInput) :
    programRound reach done near
      = (reach .statement >>= fun stmt => pure (.again (stmt :: done)))
          (near.dropWhile isSeparator) := by
  rw [programRound_eq, Stream.current_of_front goesOn]
  exact if_neg inside

theorem rounds_congr {stream stream' : Stream}
    (same : stream.dropWhile isSeparator = stream'.dropWhile isSeparator) (bound : Nat)
    (done : List Stmt) :
    Parser.iterate (programRound reach) bound done stream
      = Parser.iterate (programRound reach) bound done stream' := by
  cases bound with
  | zero => rfl
  | succ bound =>
      show (programRound reach done stream >>= _) = (programRound reach done stream' >>= _)
      rw [programRound_eq, programRound_eq, same]

/-- Rounds that read a program to its end are gone through in each stream that mimics the near one,
up to where the program ends. -/
theorem rounds_follow (follower : Follower lines reach reach') (seam : Seam more) {bound : Nat}
    {done body : List Stmt} {after : Stream} (sound : near.Sound)
    (mimics : Mimics lines more near far)
    (run : Parser.iterate (programRound reach) bound done near = .ok (body, after)) :
    ∃ used stmts near' far', used < bound ∧ body = done.reverse ++ stmts
      ∧ Mimics lines more near' far' ∧ near'.ahead.dropWhile isSeparator = []
      ∧ ∀ left done', Parser.iterate (programRound reach') (left + used) done' far
        = Parser.iterate (programRound reach') left
            ((Stmt.relocateAll (Position.below lines) stmts).reverse ++ done') far' := by
  induction bound generalizing done near far with
  | zero => exact nomatch run
  | succ bound ih =>
      obtain ⟨round, middle, first, later⟩ := Parser.bind_eq_ok.mp run
      cases front : (near.dropWhile isSeparator).ahead with
      | nil =>
          rw [programRound_of_nil done sound.kind front] at first
          cases first
          cases later
          exact ⟨0, [], near, far, Nat.succ_pos bound, (List.append_nil _).symm, mimics, front,
            fun _ _ => rfl⟩
      | cons token rest =>
          have drops : near.ahead.dropWhile isSeparator = token :: rest := front
          have left : near.ahead.dropWhile isSeparator ≠ [] := by rw [drops]; exact nofun
          have member : token ∈ near.ahead :=
            (List.dropWhile_sublist isSeparator).subset (drops ▸ List.mem_cons_self)
          have inside := (sound.genuine token member).kind_ne_end
          have inside' : (token.below lines).kind ≠ .endOfInput := by
            obtain ⟨kind, text, pos⟩ := token
            cases kind with
            | endOfInput => exact absurd rfl inside
            | _ => exact nofun
          have skipped := mimics.dropWhile isSeparator (Blank.separators lines).alike left
          have front' : (far.dropWhile isSeparator).ahead
              = token.below lines :: (rest.map (Token.below lines) ++ more) := by
            rw [skipped.ahead, front]
            rfl
          rw [programRound_of_cons done front inside] at first
          obtain ⟨stmt, near₁, read, again⟩ := Parser.bind_eq_ok.mp first
          cases again
          have sound₁ := (Stream.Taken.dropWhile (Blank.separators lines).flat near).sound sound
          obtain ⟨taken, follow⟩ := follower.statement _ sound₁ read
          obtain ⟨bad, -⟩ | ⟨far₁, read', mimics₁⟩ := follow seam skipped
          · exact bad.elim
          obtain ⟨used, stmts, near₂, far₂, fits, body_eq, mimics₂, ends, goesOn⟩ :=
            ih (taken.sound sound₁) mimics₁ later
          refine ⟨used + 1, stmt :: stmts, near₂, far₂, Nat.succ_lt_succ fits, ?_, mimics₂, ends,
            fun left done' => ?_⟩
          · rw [body_eq, List.reverse_cons, List.append_assoc, List.singleton_append]
          · have round' : programRound reach' done' far
                = .ok (.again (stmt.relocate (Position.below lines) :: done'), far₁) := by
              rw [programRound_of_cons done' front' inside']
              exact Parser.bind_eq_ok.mpr ⟨_, _, read', rfl⟩
            show (programRound reach' done' far >>= _) = _
            rw [round']
            show Parser.iterate (programRound reach') (left + used) _ far₁ = _
            rw [goesOn, Stmt.relocateAll, List.reverse_cons, List.append_assoc,
              List.singleton_append]

/-! ## Where no program starts -/

def Stuck {α : Type} (kind : TokenKind) (p : Parser α) : Prop :=
  ∀ stream : Stream, stream.current.kind = kind → ∀ found, p stream ≠ .ok found

theorem Stuck.bind {α β : Type} {kind : TokenKind} {p : Parser α} {f : α → Parser β}
    (stuck : Stuck kind p) : Stuck kind (p >>= f) := by
  intro stream here found run
  obtain ⟨x, middle, first, -⟩ := Parser.bind_eq_ok.mp run
  exact stuck stream here _ first

theorem Stuck.current {α : Type} {kind : TokenKind} {f : Token → Parser α}
    (next : ∀ token, token.kind = kind → Stuck kind (f token)) :
    Stuck kind (Parser.current >>= f) :=
  fun stream here found run => next stream.current here stream here found run

theorem Stuck.fail {α : Type} {kind : TokenKind} (error : ParseError) :
    Stuck kind (Parser.fail error : Parser α) := fun _ _ _ run => nomatch run

theorem statement_stuck (reach : Reach) {kind : TokenKind} (idle : kind.starts = false) :
    Stuck kind (statement reach) := by
  have primary : Stuck kind (primary reach) := .current fun token here => by
    rw [here]
    cases kind with
    | keyword word => cases word <;> first | exact .fail _ | exact nomatch idle
    | mark m => cases m <;> first | exact .fail _ | exact nomatch idle
    | newline | endOfInput => exact .fail _
    | _ => exact nomatch idle
  have operand : Stuck kind (operand reach) := .current fun token here => by
    rw [here]
    cases kind with
    | mark m => cases m <;> first | exact primary.bind | exact nomatch idle
    | _ => exact primary.bind
  have assignment (pos : Position) : Stuck kind (assignment reach pos) := operand.bind.bind.bind
  refine .current fun token here => ?_
  rw [here]
  cases kind with
  | keyword word => cases word <;> first | exact assignment _ | exact nomatch idle
  | mark m => cases m <;> first | exact assignment _ | exact nomatch idle
  | _ => exact assignment _

theorem reach_stuck (depth : Nat) {kind : TokenKind} (idle : kind.starts = false) :
    Stuck kind (Grammar.reach depth .statement) := by
  cases depth with
  | zero => exact fun _ _ _ run => nomatch run
  | succ depth => exact statement_stuck _ idle

theorem dropWhile_separators {tokens : List Token} {token : Token} {rest : List Token}
    (drops : tokens.dropWhile (·.kind = .newline) = token :: rest)
    (inside : isSeparator token = false) : tokens.dropWhile isSeparator = token :: rest := by
  induction tokens with
  | nil => exact nomatch drops
  | cons first later ih =>
      rw [List.dropWhile_cons] at drops ⊢
      split at drops
      · next feed =>
        rw [if_pos (by simp only [isSeparator, feed, Bool.true_or])]
        exact ih drops
      · cases drops
        rw [inside, if_neg Bool.false_ne_true]

theorem seam_of_statements {depth : Nat} {stream after : Stream} {body : List Stmt}
    (run : statements (fun goal => Grammar.reach depth goal) stream = .ok (body, after))
    (feed : Position) (lines : Nat) :
    Seam (⟨.newline, "\n", feed⟩ :: stream.ahead.map (Token.below lines)) := by
  refine ⟨fun token first => ?_, fun token first => ?_⟩
  · cases first
    exact ⟨rfl, rfl⟩
  have alike : (fun token : Token => decide (token.kind = .newline)) ∘ Token.below lines
      = fun token => decide (token.kind = .newline) := funext (Blank.newlines lines).alike
  rw [List.dropWhile_cons, if_pos (by rfl), List.dropWhile_map, alike] at first
  cases drops : stream.ahead.dropWhile (·.kind = .newline) with
  | nil => rw [drops] at first; exact nomatch first
  | cons opening rest =>
      rw [drops] at first
      cases first
      rw [Token.below, TokenKind.continues_below, Bool.eq_false_iff]
      intro goesOn
      have plain : isSeparator opening = false ∧ opening.kind ≠ .endOfInput := by
        rcases TokenKind.continues_iff.mp goesOn with kind | kind | kind | kind | kind <;>
          simp [isSeparator, kind]
      have front := dropWhile_separators drops plain.1
      obtain ⟨round, middle, first, -⟩ := Parser.bind_eq_ok.mp run
      change programRound _ [] stream = _ at first
      rw [programRound_of_cons [] front plain.2] at first
      obtain ⟨stmt, near, read, -⟩ := Parser.bind_eq_ok.mp first
      exact reach_stuck depth (TokenKind.starts_of_continues goesOn) _
        (by rw [Stream.current_of_front front]) _ read

/-! ## Whole programs -/

/-- Nothing but separators is left of a stream that has nothing but those to mimic. -/
theorem separators_left (mimics : Mimics lines more near far)
    (ends : near.ahead.dropWhile isSeparator = []) :
    far.ahead.dropWhile isSeparator = more.dropWhile isSeparator := by
  have alike : isSeparator ∘ Token.below lines = isSeparator :=
    funext (Blank.separators lines).alike
  rw [mimics.ahead, List.dropWhile_append, List.dropWhile_map, alike, ends]
  rfl

theorem statements_append {depth depth₁ depth₂ : Nat} (le₁ : depth₁ ≤ depth) (le₂ : depth₂ ≤ depth)
    (lines : Nat) (feed : Position) (finish : Token) {front back : List Token}
    {finish₁ finish₂ : Token} {after₁ after₂ : Stream} {first second : List Stmt}
    (sound₁ : (Stream.ofList front finish₁).Sound) (sound₂ : (Stream.ofList back finish₂).Sound)
    (run₁ : statements (fun goal => Grammar.reach depth₁ goal) (.ofList front finish₁)
      = .ok (first, after₁))
    (run₂ : statements (fun goal => Grammar.reach depth₂ goal) (.ofList back finish₂)
      = .ok (second, after₂))
    (kind : finish.kind = .endOfInput) (text : finish.text = "") :
    ∃ after, statements (fun goal => Grammar.reach depth goal)
        (.ofList (front ++ ⟨.newline, "\n", feed⟩ :: back.map (Token.below lines)) finish)
      = .ok (first ++ Stmt.relocateAll (Position.below lines) second, after) := by
  have seam := seam_of_statements run₂ feed lines
  have start : Mimics 0 (⟨.newline, "\n", feed⟩ :: back.map (Token.below lines))
      (.ofList front finish₁)
      (.ofList (front ++ ⟨.newline, "\n", feed⟩ :: back.map (Token.below lines)) finish) :=
    ⟨by rw [Token.below_zero, List.map_id]; rfl, by simp [Stream.ofList], kind, text⟩
  obtain ⟨used₁, stmts₁, near₁, far₁, fits₁, rfl, mimics₁, ends₁, goesOn₁⟩ :=
    rounds_follow (reach_follows 0 le₁) seam sound₁ start run₁
  -- The second program starts on the stream that the rounds of the first one leave.
  have room : (back.map (Token.below lines)).length ≤ far₁.size := by
    have fits := far₁.length_le
    rw [mimics₁.ahead, List.length_append, List.length_cons] at fits
    exact Nat.le_trans (Nat.le_succ _) (Nat.le_trans (Nat.le_add_left _ _) fits)
  have fresh : Mimics lines [] (.ofList back finish₂)
      ⟨back.map (Token.below lines), far₁.finish, far₁.size, room⟩ :=
    ⟨(List.append_nil _).symm, by simpa [Stream.ofList] using room, mimics₁.kind, mimics₁.text⟩
  have same : far₁.dropWhile isSeparator
      = Stream.dropWhile isSeparator ⟨back.map (Token.below lines), far₁.finish, far₁.size, room⟩ := by
    simp only [Stream.dropWhile, Stream.mk.injEq, and_true]
    rw [separators_left mimics₁ ends₁]
    rfl
  obtain ⟨used₂, stmts₂, near₂, far₂, fits₂, rfl, mimics₂, ends₂, goesOn₂⟩ :=
    rounds_follow (reach_follows lines le₂) .nil sound₂ fresh run₂
  obtain ⟨left, count⟩ : ∃ left, front.length + (back.length + 1) + 1 = left + 1 + used₂ + used₁ := by
    have : used₁ < front.length + 1 := fits₁
    have : used₂ < back.length + 1 := fits₂
    exact ⟨front.length + (back.length + 1) - used₁ - used₂, by omega⟩
  refine ⟨far₂.dropWhile isSeparator, ?_⟩
  rw [statements_eq]
  show Parser.iterate _ ((front ++ _ :: back.map _).length + 1) [] _ = _
  rw [List.length_append, List.length_cons, List.length_map, count, goesOn₁, rounds_congr same, goesOn₂]
  refine Parser.bind_eq_ok.mpr ⟨_, _, programRound_of_nil _ mimics₂.kind
    (separators_left mimics₂ ends₂), ?_⟩
  show Except.ok (_, _) = _
  simp only [Position.below_zero, Stmt.relocateAll_id, List.reverse_append, List.reverse_reverse,
    List.append_nil]

theorem depthBound_eq (tokens : List Token) :
    depthBound tokens = 1 + (tokens.map fun token => token.text.length + 1).sum := by
  have grows (bound : Nat) : tokens.foldl (fun bound token => bound + token.text.length + 1) bound
      = bound + (tokens.map fun token => token.text.length + 1).sum := by
    induction tokens generalizing bound with
    | nil => rfl
    | cons token rest ih =>
        rw [List.foldl_cons, ih, List.map_cons, List.sum_cons]
        omega
  exact grows 1

theorem depthBound_le_of_end (shown more : List Token) {finish : Token} (ends : finish.text = "")
    (next : Token) : depthBound (shown ++ [finish]) ≤ depthBound (shown ++ next :: more) := by
  simp only [depthBound_eq, List.map_append, List.sum_append, List.map_cons, List.sum_cons, ends]
  have zero : "".length = 0 := rfl
  simp only [zero, List.map_nil, List.sum_nil]
  omega

theorem depthBound_append_right (front back : List Token) :
    depthBound back ≤ depthBound (front ++ back) := by
  rw [depthBound_eq, depthBound_eq, List.map_append, List.sum_append]
  omega

theorem depthBound_below (lines : Nat) (tokens : List Token) :
    depthBound (tokens.map (Token.below lines)) = depthBound tokens := by
  rw [depthBound_eq, depthBound_eq, List.map_map]
  rfl

end Grammar

namespace Program

open Grammar

theorem ofTokens_eq_ok {tokens : List Token} {dir : String} {program : Program} :
    ofTokens tokens dir = .ok program ↔
      program.baseDir = dir ∧ ∃ after, statements (fun goal => Grammar.reach (depthBound tokens) goal)
        (Stream.ofTokens tokens) = .ok (program.body, after) := by
  unfold ofTokens
  constructor
  · intro done
    simp only at done
    split at done
    · next body after run =>
      cases done
      exact ⟨rfl, after, run⟩
    · exact nomatch done
    · exact nomatch done
  · rintro ⟨rfl, after, run⟩
    simp only [run]

theorem parse_eq_ok {text dir : String} {program : Program} :
    parse text dir = .ok program ↔
      ∃ tokens, tokenize text = .ok tokens ∧ ofTokens tokens dir = .ok program := by
  unfold parse
  cases tokenize text with
  | error error => exact ⟨nofun, fun ⟨_, bad, _⟩ => nomatch bad⟩
  | ok tokens => exact ⟨fun done => ⟨tokens, rfl, done⟩, fun ⟨_, same, done⟩ => by cases same; exact done⟩

theorem ofTokens_join {dir : String} {front back : List Token} {finish₁ finish₂ : Token}
    {first second : Program} (lines : Nat) (feed : Position)
    (genuine₁ : ∀ token ∈ front, token.Genuine) (genuine₂ : ∀ token ∈ back, token.Genuine)
    (kind₁ : finish₁.kind = .endOfInput) (text₁ : finish₁.text = "")
    (kind₂ : finish₂.kind = .endOfInput) (text₂ : finish₂.text = "")
    (before : ofTokens (front ++ [finish₁]) dir = .ok first)
    (after : ofTokens (back ++ [finish₂]) dir = .ok second) :
    ofTokens (front ++ ⟨.newline, "\n", feed⟩ :: (back ++ [finish₂]).map (Token.below lines)) dir
      = .ok ⟨first.body ++ Stmt.relocateAll (Position.below lines) second.body, dir⟩ := by
  obtain ⟨-, after₁, run₁⟩ := ofTokens_eq_ok.mp before
  obtain ⟨-, after₂, run₂⟩ := ofTokens_eq_ok.mp after
  rw [ofTokens_append front kind₁] at run₁
  rw [ofTokens_append back kind₂] at run₂
  have kind : (finish₂.below lines).kind = .endOfInput := by rw [Token.below, kind₂]; rfl
  have deep := depthBound_append_right (front ++ [⟨.newline, "\n", feed⟩])
    ((back ++ [finish₂]).map (Token.below lines))
  rw [depthBound_below, List.append_assoc, List.singleton_append] at deep
  obtain ⟨after₃, run⟩ := statements_append (depthBound_le_of_end front _ text₁ _) deep lines feed
    (finish₂.below lines) ⟨genuine₁, kind₁, text₁⟩ ⟨genuine₂, kind₂, text₂⟩ run₁ run₂ kind text₂
  refine ofTokens_eq_ok.mpr ⟨rfl, after₃, ?_⟩
  have whole : front ++ ⟨.newline, "\n", feed⟩ :: (back ++ [finish₂]).map (Token.below lines)
      = (front ++ ⟨.newline, "\n", feed⟩ :: back.map (Token.below lines))
        ++ [finish₂.below lines] := by
    rw [List.map_append, List.append_assoc]
    rfl
  rw [whole] at run ⊢
  rw [ofTokens_append _ kind]
  exact run

/-- Two texts that parse also parse with a line feed between them, to the statements of the first
and then those of the second, so many lines further down as the first text and the line feed take
up. -/
theorem parse_append {front back dir : String} {first second : Program}
    (before : parse front dir = .ok first) (after : parse back dir = .ok second) :
    parse (front ++ "\n" ++ back) dir
      = .ok ⟨first.body ++ Stmt.relocateAll (Position.below (front.toList.count '\n' + 1))
          second.body, dir⟩ := by
  obtain ⟨tokens₁, lexed₁, parsed₁⟩ := parse_eq_ok.mp before
  obtain ⟨tokens₂, lexed₂, parsed₂⟩ := parse_eq_ok.mp after
  obtain ⟨shown₁, finish₁, same₁, genuine₁⟩ :=
    (Scans.tokenizeAt_eq_ok.mp lexed₁).genuine (Position.clamp_placed _)
  obtain ⟨shown₂, finish₂, same₂, genuine₂⟩ :=
    (Scans.tokenizeAt_eq_ok.mp lexed₂).genuine (Position.clamp_placed _)
  obtain ⟨shown, finish, feed, same, lexed⟩ := tokenize_append lexed₁ lexed₂
  obtain rfl : shown = shown₁ := (List.append_inj' (same.symm.trans same₁) rfl).1
  subst same₁ same₂
  exact parse_eq_ok.mpr ⟨_, lexed,
    ofTokens_join _ feed genuine₁ genuine₂ rfl rfl rfl rfl parsed₁ parsed₂⟩

theorem parse_append_call :
    parse "f(x)" "" = .ok ⟨[.expr ⟨1, 1⟩ (.call ⟨1, 2⟩ (.ident ⟨1, 1⟩ "f") [.ident ⟨1, 3⟩ "x"])], ""⟩
    ∧ parse "(y)" "" = .ok ⟨[.expr ⟨1, 1⟩ (.ident ⟨1, 2⟩ "y")], ""⟩
    ∧ parse ("f(x)" ++ "\n" ++ "(y)") "" = .ok ⟨[
        .expr ⟨1, 1⟩ (.call ⟨1, 2⟩ (.ident ⟨1, 1⟩ "f") [.ident ⟨1, 3⟩ "x"]),
        .expr ⟨2, 1⟩ (.ident ⟨2, 2⟩ "y")], ""⟩ := by
  have front : parse "f(x)" ""
      = .ok ⟨[.expr ⟨1, 1⟩ (.call ⟨1, 2⟩ (.ident ⟨1, 1⟩ "f") [.ident ⟨1, 3⟩ "x"])], ""⟩ := by cbv
  have back : parse "(y)" "" = .ok ⟨[.expr ⟨1, 1⟩ (.ident ⟨1, 2⟩ "y")], ""⟩ := by cbv
  exact ⟨front, back, parse_append front back⟩

end Program

end Rill

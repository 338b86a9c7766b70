import Rill.Proofs.Concatenation
import Rill.Proofs.Progress.Expression

/-!
# Progress of statements and programs

Reading a program ends, with the program or with an error.
-/

set_option autoImplicit false

namespace Rill

namespace Grammar

variable {bound : Nat} {reach : Reach}

/-! ## Declarations -/

theorem destructure_lasts : Lasts bound destructure := by
  refine Lasts.advances fun opening => ?_
  split
  · exact (Lasts.listed Takes.identifier).bind fun _ => .result id
  · exact (Lasts.listed Takes.identifier).bind fun _ => .result id

def declaredRound (reach : Reach) (constant : Bool) (done : List Binding) :
    Parser (Parser.Round (List Binding) (List Binding)) := do
  let token ← Parser.current
  let name ← Parser.identifier
  let value ← initialiser reach
  if constant && value.isNone then
    Parser.fail (.invalid token.pos (.uninitialisedConstant name))
  let found : List Binding := ⟨name, value⟩ :: done
  if ← Parser.eat (.mark .comma) then
    Parser.skipNewlines
    return .again found
  else return .done found.reverse

theorem declared_eq (reach : Reach) (constant : Bool) :
    declared reach constant = Parser.loop (declaredRound reach constant) [] := rfl

theorem declaredRound_proceeds (progress : Progress bound reach) (constant : Bool)
    (done : List Binding) :
    Proceeds bound Parser.Round.GoesOn (declaredRound reach constant done) := by
  refine Lasts.current.bind fun _ => Takes.identifier.after fun name =>
    (initialiser_lasts progress).bind fun value => ?_
  split
  · exact .fails _
  · exact .eaten rfl (.skips (.result id)) (.result id)

theorem declared_lasts (progress : Progress bound reach) (constant : Bool) :
    Lasts bound (declared reach constant) := by
  rw [declared_eq]
  exact .loop (declaredRound_proceeds progress constant) []

theorem declaration_takes (progress : Progress bound reach) (constant : Bool) (pos : Position)
    {stream : Stream} (shown : stream.current.kind ≠ .endOfInput) :
    ProceedsFrom (bound + 1) (fun _ => True) stream (declaration reach constant pos) := by
  refine .advanced shown fun _ => Lasts.current.bind fun token => ?_
  split
  · exact destructure_lasts.bind fun _ => .expects rfl fun _ => .skips
      (progress.expression.after fun _ => .result id)
  · exact (declared_lasts progress constant).bind fun _ => .result id

/-! ## Assignments -/

theorem checkTarget_lasts (target : Expr) : Lasts bound (checkTarget target) := by
  unfold checkTarget
  split
  · exact .result id
  · exact .fail _

theorem assignment_takes (progress : Progress bound reach) (pos : Position) :
    Takes (bound + 1) (assignment reach pos) := by
  refine (expression_takes progress).took fun target => Lasts.current.bind fun token => ?_
  split
  · exact Lasts.advances fun _ => (checkTarget_lasts target).bind fun _ => .result id
  · exact Lasts.advances fun _ => (checkTarget_lasts target).bind fun _ => .skips
      (progress.expression.after fun _ => .result id)
  · exact .result id

theorem simple_takes (progress : Progress bound reach) : Takes (bound + 1) (simple reach) := by
  refine fun stream => .of_current ?_
  have declares (constant : Bool) (shown : stream.current.kind ≠ .endOfInput) :=
    declaration_takes progress constant stream.current.pos shown
  have assign := assignment_takes progress stream.current.pos stream
  generalize stream.current = token at declares assign
  obtain ⟨kind, text, pos⟩ := token
  cases kind with
  | keyword word =>
      cases word with
      | let_ | const_ => exact declares _ nofun
      | _ => exact assign
  | _ => exact assign

/-! ## Conditions and loops -/

theorem conditional_takes (progress : Progress bound reach) {stream : Stream}
    (shown : stream.current.kind ≠ .endOfInput) :
    ProceedsFrom (bound + 1) (fun _ => True) stream (conditional reach) := by
  have block : Takes bound (block reach) := (block_takes progress).sooner
  refine .advanced shown fun opening => progress.expression.after fun cond =>
    block.after fun yes => .belated (fun other => ?_) (.result id)
  refine fun stream => .checked (fun here => ?_) (block.after (fun _ => .result id) stream)
  exact (progress.takes .conditional stream here).after fun _ => .result id

theorem optional_lasts {α : Type} {stop : Mark} {part : Parser α} (takes : Takes bound part) :
    Lasts bound (optional stop part) :=
  .checked (.result id) (takes.after fun _ => .result id)

theorem counting_lasts (progress : Progress bound reach) (pos : Position) (inParens : Bool) :
    Lasts bound (counting reach pos inParens) := by
  have part (stop : Mark) : Lasts bound (optional stop (simple reach)) :=
    optional_lasts (simple_takes progress).sooner
  refine (part _).bind fun init => .expects rfl fun _ => ?_
  refine (optional_lasts progress.expression).bind fun cond => .expects rfl fun _ => ?_
  refine (part _).bind fun post => ?_
  have rest : Lasts bound (block reach >>= fun body => pure (Stmt.for_ pos init cond post body)) :=
    (block_takes progress).sooner.after fun _ => .result id
  split
  · exact .expects rfl fun _ => rest
  · exact rest

theorem forLoop_takes (progress : Progress bound reach) {stream : Stream}
    (shown : stream.current.kind ≠ .endOfInput) :
    ProceedsFrom (bound + 1) (fun _ => True) stream (forLoop reach) := by
  refine .advanced shown fun opening => (Proceeds.eat rfl).lasts.bind fun inParens =>
    (Lasts.check _).bind fun here => Lasts.peek.bind fun next => ?_
  split
  · refine Takes.identifier.after fun name => Lasts.advances fun _ =>
      progress.expression.after fun source => ?_
    have rest : Lasts bound
        (block reach >>= fun body => pure (Stmt.forIn opening.pos name source body)) :=
      (block_takes progress).sooner.after fun _ => .result id
    split
    · exact .expects rfl fun _ => rest
    · exact rest
  · exact counting_lasts progress opening.pos inParens

/-! ## Guards -/

theorem caughtName_lasts : Lasts bound caughtName :=
  .eaten rfl (Takes.identifier.after fun _ => .expects rfl fun _ => .result id)
    (.checked Takes.identifier.lasts (.result id))

theorem guarded_takes (progress : Progress bound reach) {stream : Stream}
    (shown : stream.current.kind ≠ .endOfInput) :
    ProceedsFrom (bound + 1) (fun _ => True) stream (guarded reach) := by
  have block : Takes bound (block reach) := (block_takes progress).sooner
  refine .advanced shown fun opening => block.after fun body => ?_
  have ends (handler : Option Handler) (cleanup : Option Block) : Lasts bound (do
      if handler.isNone && cleanup.isNone then Parser.fail (.invalid opening.pos .bareTry)
      return Stmt.try_ opening.pos body handler cleanup) := by
    split
    · exact .fails _
    · exact .result id
  refine .belated (fun _ => caughtName_lasts.bind fun name => block.after fun handler => ?_) ?_
  · exact .belated (fun _ => block.after fun cleanup => ends (some ⟨name, handler⟩) (some cleanup))
      (ends (some ⟨name, handler⟩) none)
  · exact .belated (fun _ => block.after fun cleanup => ends none (some cleanup)) (ends none none)

/-! ## Classes -/

theorem method_takes (progress : Progress bound reach) (pos : Position) :
    Takes bound (method reach pos) :=
  Takes.identifier.after fun name => (functionRest_takes progress (some name) pos).lasts

def fieldRound (reach : Reach) (done : List Binding) :
    Parser (Parser.Round (List Binding) (List Binding)) := do
  let name ← Parser.identifier
  let value ← initialiser reach
  let found : List Binding := ⟨name, value⟩ :: done
  if ← Parser.eat (.mark .comma) then return .again found
  else return .done found.reverse

theorem fields_eq (reach : Reach) : fields reach = Parser.loop (fieldRound reach) [] := rfl

theorem fieldRound_proceeds (progress : Progress bound reach) (done : List Binding) :
    Proceeds bound Parser.Round.GoesOn (fieldRound reach done) :=
  Takes.identifier.after fun _ => (initialiser_lasts progress).bind fun _ =>
    .eaten rfl (.result id) (.result id)

theorem fields_lasts (progress : Progress bound reach) : Lasts bound (fields reach) := by
  rw [fields_eq]
  exact .loop (fieldRound_proceeds progress) []

theorem classMember_proceeds (progress : Progress bound reach)
    (done : List Binding × List Function) :
    Proceeds bound Parser.Round.GoesOn (classMember reach done) := by
  refine .skips fun stream => .of_current ?_
  have moved {f : Token → Parser (Parser.Round (List Binding × List Function)
        (List Binding × List Function))} (shown : stream.current.kind ≠ .endOfInput)
      (next : ∀ token, Lasts bound (f token)) :
      ProceedsFrom bound Parser.Round.GoesOn stream (Parser.advance >>= f) :=
    (ProceedsFrom.advance shown).after next
  generalize stream.current = token at moved
  have other : Proceeds bound Parser.Round.GoesOn (Parser.fail (.expected .classMember token) :
      Parser (Parser.Round (List Binding × List Function) (List Binding × List Function))) :=
    .fail _
  have method : Takes bound (method reach token.pos) := method_takes progress token.pos
  obtain ⟨kind, text, pos⟩ := token
  cases kind with
  | keyword word =>
      cases word with
      | let_ | const_ => exact moved nofun fun _ => (fields_lasts progress).bind fun _ => .result id
      | func_ => exact moved nofun fun _ => method.after fun _ => .result id
      | _ => exact other stream
  | mark m =>
      cases m with
      | closeBrace => exact moved nofun fun _ => .result id
      | _ => exact other stream
  | ident =>
      refine .peeked fun next => ?_
      split
      · exact moved nofun fun _ => method.after fun _ => .result id
      · split
        · exact method.after (fun _ => .result id) stream
        · exact other stream
  | _ => exact other stream

theorem classDeclaration_takes (progress : Progress bound reach) {stream : Stream}
    (shown : stream.current.kind ≠ .endOfInput) :
    ProceedsFrom (bound + 1) (fun _ => True) stream (classDeclaration reach) := by
  refine .advanced shown fun opening => Takes.identifier.after fun name => ?_
  have rest (parent : Option String) : Lasts bound
      (Parser.skipNewlines >>= fun _ => Parser.expect (.mark .openBrace) >>= fun _ =>
        Parser.loop (classMember reach) ([], []) >>= fun members =>
          pure (ClassDecl.mk name parent members.1 members.2 opening.pos)) :=
    .skips (.expects rfl fun _ => (Lasts.loop (classMember_proceeds progress) ([], [])).bind fun _ =>
      .result id)
  exact .eaten rfl (Takes.identifier.after fun parent => rest (some parent)) (rest none)

theorem importing_lasts (pos : Position) : Lasts bound (importing pos) :=
  .expects rfl fun _ => .eaten rfl (Takes.identifier.after fun _ => .result id) (.result id)

/-! ## Statements -/

theorem statement_takes (progress : Progress bound reach) : Takes (bound + 1) (statement reach) := by
  refine fun stream => .of_current ?_
  have moved {f : Token → Parser Stmt} (shown : stream.current.kind ≠ .endOfInput)
      (next : ∀ token, Lasts bound (f token)) :
      ProceedsFrom (bound + 1) (fun _ => True) stream (Parser.advance >>= f) := .advanced shown next
  have declares (constant : Bool) (shown : stream.current.kind ≠ .endOfInput) :=
    declaration_takes progress constant stream.current.pos shown
  have assign := assignment_takes progress stream.current.pos stream
  have branch : _ → ProceedsFrom (bound + 1) _ stream _ := conditional_takes progress
  have loop : _ → ProceedsFrom (bound + 1) _ stream _ := forLoop_takes progress
  have guard : _ → ProceedsFrom (bound + 1) _ stream _ := guarded_takes progress
  have decl : _ → ProceedsFrom (bound + 1) _ stream _ := classDeclaration_takes progress
  generalize stream.current = token at moved declares assign branch loop guard decl
  obtain ⟨kind, text, pos⟩ := token
  cases kind with
  | keyword word =>
      cases word with
      | let_ | const_ => exact declares _ nofun
      | func_ =>
          refine .peeked fun next => ?_
          split
          · exact moved nofun fun _ => (method_takes progress pos).after fun _ => .result id
          · exact assign
      | class_ => exact (decl nofun).took fun _ => .result id
      | if_ => exact branch nofun
      | while_ =>
          exact moved nofun fun _ => progress.expression.after fun _ =>
            (block_takes progress).sooner.after fun _ => .result id
      | for_ => exact loop nofun
      | return_ =>
          refine moved nofun fun _ => Lasts.current.bind fun next => ?_
          split
          · exact .result id
          · exact progress.expression.after fun _ => .result id
      | break_ | continue_ => exact moved nofun fun _ => .result id
      | try_ => exact guard nofun
      | throw_ => exact moved nofun fun _ => progress.expression.after fun _ => .result id
      | import_ => exact moved nofun fun _ => importing_lasts pos
      | _ => exact assign
  | mark m =>
      cases m with
      | openBrace => exact (block_takes progress).took (fun _ => .result id) stream
      | _ => exact assign
  | _ => exact assign

/-! ## Goals -/

theorem reach_progress (depth : Nat) : Progress depth fun goal => Grammar.reach depth goal := by
  induction depth with
  | zero => exact ⟨fun _ stream _ => Proceeds.exhausted stream⟩
  | succ depth progress =>
      refine ⟨fun goal stream open_ => ?_⟩
      cases goal with
      | statement => exact statement_takes progress stream
      | conditional =>
          have here : stream.current.kind = .keyword .if_ := open_
          exact conditional_takes progress (by rw [here]; exact nofun)
      | expression => exact expression_takes progress stream
      | operation power => exact operation_takes progress power stream
      | operand => exact operand_takes progress stream
      | pattern => exact pattern_takes progress stream

/-! ## Programs -/

theorem programRound_proceeds (progress : Progress bound reach) (done : List Stmt) :
    Proceeds bound Parser.Round.GoesOn (programRound reach done) :=
  .skips (.checked (.result id) (progress.statement.after fun _ => .result id))

theorem statements_lasts (progress : Progress bound reach) : Lasts bound (statements reach) := by
  rw [statements_eq]
  exact .loop (programRound_proceeds progress) []

/-- What the loops of the grammar go round with. -/
inductive Looping (reach : Reach) : {β γ : Type} → (β → Parser (Parser.Round β γ)) → Prop
  | statements : Looping reach (programRound reach)
  | block : Looping reach (blockRound reach)
  | params : Looping reach (Parser.listedRound .closeParen (param reach))
  | arguments : Looping reach (Parser.listedRound .closeParen (reach .expression))
  | arrayNames : Looping reach (Parser.listedRound .closeBracket Parser.identifier)
  | recordNames : Looping reach (Parser.listedRound .closeBrace Parser.identifier)
  | patternFields : Looping reach (Parser.listedRound .closeBrace (patternField reach))
  | clauses : Looping reach (clauseRound reach)
  | items : Looping reach (itemRound reach)
  | entries (pos : Position) : Looping reach (entryRound reach pos)
  | elements : Looping reach (elementRound reach)
  | arms : Looping reach (armRound reach)
  | chain : Looping reach (link reach)
  | operators (power : Nat) : Looping reach (climb reach power)
  | declared (constant : Bool) : Looping reach (declaredRound reach constant)
  | fields : Looping reach (fieldRound reach)
  | members : Looping reach (classMember reach)

/-- Every round of a loop takes a token, unless it is the last. -/
theorem Looping.proceeds (progress : Progress bound reach) {β γ : Type}
    {round : β → Parser (Parser.Round β γ)} (looping : Looping reach round) (state : β) :
    Proceeds bound Parser.Round.GoesOn (round state) := by
  cases looping with
  | statements => exact programRound_proceeds progress state
  | block => exact blockRound_proceeds progress state
  | params => exact Parser.listedRound_proceeds (param_takes progress) state
  | arguments => exact Parser.listedRound_proceeds progress.expression state
  | arrayNames | recordNames => exact Parser.listedRound_proceeds Takes.identifier state
  | patternFields => exact Parser.listedRound_proceeds (patternField_takes progress) state
  | clauses => exact clauseRound_proceeds progress state
  | items => exact itemRound_proceeds progress state
  | entries pos => exact entryRound_proceeds progress pos state
  | elements => exact elementRound_proceeds progress state
  | arms => exact armRound_proceeds progress state
  | chain => exact link_proceeds progress state
  | operators power => exact climb_proceeds progress power state
  | declared constant => exact declaredRound_proceeds progress constant state
  | fields => exact fieldRound_proceeds progress state
  | members => exact classMember_proceeds progress state

end Grammar

/-- What is left is the end of what there was, and a token less at least. -/
structure Stream.Consumed (before after : Stream) : Prop extends Leaves before after where
  fewer : after.ahead.length < before.ahead.length

def Parser.Consumes {α : Type} (stream : Stream) (p : Parser α) : Prop :=
  ∀ ⦃x after⦄, p stream = .ok (x, after) → stream.Consumed after

/-- From this stream a step, and what the productions read, takes tokens from the front and leaves
the mark of the end where it is. Tokens that are skipped are taken one by one, and every round of a
loop takes a token or is the last. -/
structure Grammar.Advances (reach : Reach) (stream : Stream) : Prop where
  step : stream.Leaves stream.tail
    ∧ (stream.current.kind ≠ .endOfInput → stream.Consumed stream.tail)
  skip : ∀ {skipped : Token → Bool}, skipped stream.finish = false → skipped stream.current →
    stream.Consumed stream.tail ∧ stream.dropWhile skipped = stream.tail.dropWhile skipped
  statement : Parser.Consumes stream (statement reach)
  expression : Parser.Consumes stream (expression reach)
  primary : Parser.Consumes stream (primary reach)
  pattern : Parser.Consumes stream (pattern reach)
  block : Parser.Consumes stream (block reach)
  again : ∀ {β γ : Type} {round : β → Parser (Parser.Round β γ)}, Looping reach round →
    ∀ ⦃state next after⦄, round state stream = .ok (.again next, after) → stream.Consumed after
  done : ∀ {β γ : Type} {round : β → Parser (Parser.Round β γ)}, Looping reach round →
    ∀ ⦃state result after⦄, round state stream = .ok (.done result, after) → stream.Leaves after

theorem Takes.consumes {α : Type} {bound : Nat} {stream : Stream} {p : Parser α}
    (takes : Takes bound p) (fed : stream.Fed) : Parser.Consumes stream p := fun _ _ run =>
  have left := (takes stream fed).1 run
  ⟨left.1, left.2 trivial⟩

namespace Grammar

theorem skip_consumed {stream : Stream} {skipped : Token → Bool}
    (ends : skipped stream.finish = false) (here : skipped stream.current) :
    stream.Consumed stream.tail ∧ stream.dropWhile skipped = stream.tail.dropWhile skipped := by
  cases front : stream.ahead with
  | nil =>
      rw [Stream.current, front] at here
      exact absurd here (Bool.eq_false_iff.mp ends)
  | cons token rest =>
      rw [Stream.current_of_front front] at here
      refine ⟨⟨.tail stream, ?_⟩, ?_⟩
      · show stream.ahead.tail.length < _
        rw [front]
        exact Nat.lt_succ_self _
      · simp only [Stream.dropWhile, Stream.tail, front, List.dropWhile_cons_of_pos here,
          List.tail_cons]

theorem advances_of_fed {bound : Nat} {reach : Reach} (progress : Progress bound reach)
    {stream : Stream} (fed : stream.Fed) : Advances reach stream where
  step := ⟨.tail stream, fun shown => ⟨.tail stream, fed.tail_shorter shown⟩⟩
  skip := skip_consumed
  statement := (statement_takes progress).consumes fed
  expression := (expression_takes progress).consumes fed
  primary := (primary_takes progress).consumes fed
  pattern := (pattern_takes progress).consumes fed
  block := (block_takes progress).consumes fed
  again looping _ _ _ run :=
    have left := (looping.proceeds progress _ stream fed).1 run
    ⟨left.1, left.2 trivial⟩
  done looping _ _ _ run := ((looping.proceeds progress _ stream fed).1 run).1

theorem room_lt_depthBound {front shown : List Token} (before : front <+: shown) :
    (front.map Token.room).sum < depthBound shown := by
  obtain ⟨more, rfl⟩ := before
  have small : (front.map Token.room).sum
      ≤ (front.map fun token => token.text.length + 1).sum := by
    induction front with
    | nil => exact Nat.le_refl _
    | cons token rest ih =>
        rw [List.map_cons, List.map_cons, List.sum_cons, List.sum_cons]
        exact Nat.add_le_add token.room_le ih
  rw [depthBound_eq, List.map_append, List.sum_append]
  omega

end Grammar

namespace Program

open Grammar

/-- What comes of the tokens is what their statements give, a program or an error in the text; the
bound on the depth does not run out. -/
def Ends (tokens : List Token) (dir : String) : Prop :=
  (∃ body after, statements (fun goal => Grammar.reach (depthBound tokens) goal)
      (Stream.ofTokens tokens) = .ok (body, after) ∧ ofTokens tokens dir = .ok ⟨body, dir⟩)
  ∨ ∃ error, statements (fun goal => Grammar.reach (depthBound tokens) goal)
      (Stream.ofTokens tokens) = .error (.error error) ∧ ofTokens tokens dir = .error error

theorem ends_of_fed {tokens : List Token} (fed : (Stream.ofTokens tokens).Fed)
    (before : (Stream.ofTokens tokens).ahead <+: tokens) (dir : String) : Ends tokens dir := by
  have lasts := (statements_lasts (reach_progress (depthBound tokens)) _ fed).2
    (room_lt_depthBound before)
  cases run : statements (fun goal => Grammar.reach (depthBound tokens) goal)
      (Stream.ofTokens tokens) with
  | ok found => exact .inl ⟨found.1, found.2, run, ofTokens_eq_ok.mpr ⟨rfl, found.2, run⟩⟩
  | error failure =>
      cases failure with
      | error error => exact .inr ⟨error, run, by simp only [ofTokens, run]⟩
      | exhausted => exact absurd run lasts

/-- Reading a program makes progress and ends. Take the tokens of a text, cut short or not. The
source of a hole is shorter than the template around it; from every place among the tokens a
production that gives something has taken a token, and so has every round of a loop but the last;
and what comes of the tokens is a program or an error in the text. -/
theorem parse_progresses {text : String} {start : Position} {tokens : List Token}
    (read : tokenizeAt text start = .ok tokens) (cut : Nat) (dir : String) :
    (∀ token ∈ tokens, ∀ pieces, token.kind = .template pieces → ∀ source pos,
      .hole source pos ∈ pieces → source.length < token.text.length)
    ∧ (∀ stream, (Stream.ofTokens (tokens.take cut)).Leaves stream → ∀ depth,
      Advances (fun goal => Grammar.reach depth goal) stream)
    ∧ Ends (tokens.take cut) dir := by
  obtain ⟨fed, -, before⟩ := Stream.fed_ofTokens read cut
  refine ⟨fun token member pieces template source pos inside => ?_, fun stream leaves depth =>
    advances_of_fed (reach_progress depth) (leaves.fed fed), ends_of_fed fed before dir⟩
  obtain ⟨front, finish, same, roomy, -⟩ := (Scans.tokenizeAt_eq_ok.mp read).laid.room
  rw [← Token.room_template template]
  rcases List.mem_append.mp (same ▸ member) with shown | ends
  · exact (roomy token shown).holes template inside
  · rw [List.mem_singleton.mp ends] at template
    exact nomatch template

/-- A text of which only the template is left. -/
theorem parse_progresses_cut :
    tokenizeAt "`$\x7ba\x7d`;" ⟨1, 1⟩ = .ok [⟨.template [.hole "a" ⟨1, 4⟩], "`$\x7ba\x7d`", ⟨1, 1⟩⟩,
      ⟨.mark .semicolon, ";", ⟨1, 7⟩⟩, ⟨.endOfInput, "", ⟨1, 8⟩⟩]
    ∧ "a".length < "`$\x7ba\x7d`".length
    ∧ (∀ stream, (Stream.ofTokens [⟨.template [.hole "a" ⟨1, 4⟩], "`$\x7ba\x7d`", ⟨1, 1⟩⟩]).Leaves
        stream → ∀ depth, Advances (fun goal => Grammar.reach depth goal) stream)
    ∧ Ends [⟨.template [.hole "a" ⟨1, 4⟩], "`$\x7ba\x7d`", ⟨1, 1⟩⟩] "" := by
  have read : tokenizeAt "`$\x7ba\x7d`;" ⟨1, 1⟩ = .ok [⟨.template [.hole "a" ⟨1, 4⟩],
      "`$\x7ba\x7d`", ⟨1, 1⟩⟩, ⟨.mark .semicolon, ";", ⟨1, 7⟩⟩, ⟨.endOfInput, "", ⟨1, 8⟩⟩] := by cbv
  obtain ⟨holes, advances, ends⟩ := parse_progresses read 1 ""
  exact ⟨read, holes _ List.mem_cons_self _ rfl "a" ⟨1, 4⟩ List.mem_cons_self, advances, ends⟩

end Program

end Rill

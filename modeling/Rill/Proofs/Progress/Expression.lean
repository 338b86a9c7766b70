import Rill.Proofs.Progress

/-!
# Progress of expressions

Every loop of a production goes round with a production of its own, one that takes a token unless
it is the last.
-/

set_option autoImplicit false

namespace Rill

/-- A way to reach goals, each of which takes a token. -/
structure Progress (bound : Nat) (reach : Reach) : Prop where
  takes : ∀ {α : Type} (goal : Goal α) (stream : Stream), goal.Open stream →
    ProceedsFrom bound (fun _ => True) stream (reach goal)

namespace Progress

variable {bound : Nat} {reach : Reach}

theorem statement (progress : Progress bound reach) : Takes bound (reach .statement) :=
  fun stream => progress.takes .statement stream trivial

theorem expression (progress : Progress bound reach) : Takes bound (reach .expression) :=
  fun stream => progress.takes .expression stream trivial

theorem operation (progress : Progress bound reach) (power : Nat) :
    Takes bound (reach (.operation power)) :=
  fun stream => progress.takes (.operation power) stream trivial

theorem operand (progress : Progress bound reach) : Takes bound (reach .operand) :=
  fun stream => progress.takes .operand stream trivial

theorem pattern (progress : Progress bound reach) : Takes bound (reach .pattern) :=
  fun stream => progress.takes .pattern stream trivial

end Progress

namespace Grammar

variable {bound : Nat} {reach : Reach}

/-! ## Blocks and functions -/

def blockRound (reach : Reach) (done : List Stmt) : Parser (Parser.Round (List Stmt) (List Stmt)) := do
  Parser.skipSeparators
  if ← Parser.eat (.mark .closeBrace) then return .done done.reverse
  if ← Parser.check .endOfInput then Parser.unexpected (.token (.mark .closeBrace))
  let stmt ← reach .statement
  return .again (stmt :: done)

theorem block_eq (reach : Reach) : block reach = do
    Parser.skipNewlines
    let opening ← Parser.expect (.mark .openBrace)
    let stmts ← Parser.loop (blockRound reach) []
    return ⟨stmts, opening.pos⟩ := rfl

theorem blockRound_proceeds (progress : Progress bound reach) (done : List Stmt) :
    Proceeds bound Parser.Round.GoesOn (blockRound reach done) := by
  refine .skips (.eaten rfl (.result id) (.checked (.unexpecteds _) ?_))
  exact progress.statement.after fun _ => .result id

theorem block_takes (progress : Progress bound reach) : Takes (bound + 1) (block reach) := by
  rw [block_eq]
  refine .skips ((Takes.expect rfl).took fun _ => ?_)
  exact (Lasts.loop (blockRound_proceeds progress) []).bind fun _ => .result id

theorem initialiser_lasts (progress : Progress bound reach) : Lasts bound (initialiser reach) :=
  .eaten rfl (.skips (progress.expression.after fun _ => .result id)) (.result id)

def param (reach : Reach) : Parser Binding := do
  let name ← Parser.identifier
  return ⟨name, ← initialiser reach⟩

theorem params_eq (reach : Reach) : params reach =
    (Parser.expect (.mark .openParen) >>= fun _ =>
      Parser.loop (Parser.listedRound .closeParen (param reach)) []) := rfl

theorem param_takes (progress : Progress bound reach) : Takes bound (param reach) :=
  Takes.identifier.after fun _ => (initialiser_lasts progress).bind fun _ => .result id

theorem params_takes (progress : Progress bound reach) : Takes (bound + 1) (params reach) := by
  rw [params_eq]
  exact (Takes.expect rfl).took fun _ =>
    .loop (Parser.listedRound_proceeds (param_takes progress)) []

theorem functionRest_takes (progress : Progress bound reach) (name : Option String)
    (pos : Position) : Takes bound (functionRest reach name pos) :=
  (params_takes progress).sooner.after fun _ => (block_takes progress).sooner.after fun _ =>
    .result id

/-! ## Collections -/

def clauseRound (reach : Reach) (done : List Clause) :
    Parser (Parser.Round (List Clause) (List Clause)) := do
  Parser.skipNewlines
  if ← Parser.eat (.keyword .for_) then
    let name ← Parser.identifier
    let _ ← Parser.expect (.keyword .in_)
    let source ← reach .expression
    return .again (.each name source :: done)
  if !done.isEmpty then
    if ← Parser.eat (.keyword .if_) then
      let cond ← reach .expression
      return .again (.only cond :: done)
  return .done done.reverse

theorem clauses_eq (reach : Reach) : clauses reach = Parser.loop (clauseRound reach) [] := rfl

theorem clauseRound_proceeds (progress : Progress bound reach) (done : List Clause) :
    Proceeds bound Parser.Round.GoesOn (clauseRound reach done) := by
  refine .skips (.eaten rfl ?_ ?_)
  · exact Takes.identifier.after fun _ => .expects rfl fun _ =>
      progress.expression.after fun _ => .result id
  · split
    · exact .eaten rfl (progress.expression.after fun _ => .result id) (.result id)
    · exact .result id

theorem clauses_lasts (progress : Progress bound reach) : Lasts bound (clauses reach) := by
  rw [clauses_eq]
  exact .loop (clauseRound_proceeds progress) []

/-- One more item of an array after its comma, or what follows the last. -/
def itemRound (reach : Reach) (done : List Expr) : Parser (Parser.Round (List Expr) (List Expr)) := do
  if ← Parser.eat (.mark .comma) then
    Parser.skipNewlines
    if ← Parser.check (.mark .closeBracket) then return .done done.reverse
    let item ← reach .expression
    Parser.skipNewlines
    return .again (item :: done)
  else return .done done.reverse

theorem array_eq (reach : Reach) (pos : Position) : array reach pos = do
    Parser.skipNewlines
    if ← Parser.eat (.mark .closeBracket) then return .array pos []
    let first ← reach .expression
    Parser.skipNewlines
    if ← Parser.check (.keyword .for_) then
      let found ← clauses reach
      Parser.skipNewlines
      let _ ← Parser.expect (.mark .closeBracket)
      return .arrayOf pos first found
    let items ← Parser.loop (itemRound reach) [first]
    let _ ← Parser.expect (.mark .closeBracket)
    return .array pos items := rfl

theorem itemRound_proceeds (progress : Progress bound reach) (done : List Expr) :
    Proceeds bound Parser.Round.GoesOn (itemRound reach done) := by
  refine .eaten rfl (.skips (.checked (.result id) ?_)) (.result id)
  exact progress.expression.after fun _ => .skips (.result id)

theorem array_lasts (progress : Progress bound reach) (pos : Position) :
    Lasts bound (array reach pos) := by
  rw [array_eq]
  refine .skips (.eaten rfl (.result id) (progress.expression.after fun first => .skips ?_))
  refine .checked ((clauses_lasts progress).bind fun _ => .skips (.expects rfl fun _ => .result id)) ?_
  exact (Lasts.loop (itemRound_proceeds progress) [first]).bind fun _ => .expects rfl fun _ =>
    .result id

theorem key_takes (progress : Progress bound reach) : Takes bound (key reach) := by
  refine fun stream => .of_current ?_
  have moved {f : Token → Parser (Key × Expr)} (shown : stream.current.kind ≠ .endOfInput)
      (next : ∀ token, Lasts bound (f token)) :
      ProceedsFrom bound (fun _ => True) stream (Parser.advance >>= f) :=
    (ProceedsFrom.advance shown).after next
  generalize stream.current = token at moved
  obtain ⟨kind, text, pos⟩ := token
  have named : Takes bound
      (Parser.memberName >>= fun name => pure (Key.name name, Expr.ident pos name)) :=
    Takes.memberName.after fun _ => .result id
  cases kind with
  | text | number => exact moved nofun fun _ => .result id
  | mark m =>
      cases m with
      | openBracket =>
          exact moved nofun fun _ => .skips (progress.expression.after fun _ =>
            .skips (.expects rfl fun _ => .result id))
      | _ => exact named stream
  | _ => exact named stream

theorem entryValue_lasts (progress : Progress bound reach) (found : Key × Expr) :
    Lasts bound (entryValue reach found) := by
  obtain ⟨key, meant⟩ := found
  refine .eaten rfl (.skips progress.expression.lasts) ?_
  split
  · exact .result id
  · exact .unexpected _

/-- One entry of a record, the end of the record, or all of a comprehension. -/
def entryRound (reach : Reach) (pos : Position) (done : List Entry) :
    Parser (Parser.Round (List Entry) Expr) := do
  Parser.skipEntrySeparators
  if ← Parser.eat (.mark .closeBrace) then return .done (.record pos done.reverse)
  if ← Parser.eat (.mark .ellipsis) then
    let source ← reach .expression
    return .again (.spread source :: done)
  let (key, meant) ← key reach
  let value ← entryValue reach (key, meant)
  if done.isEmpty && (← Parser.pastNewlines).kind = .keyword .for_ then
    Parser.skipNewlines
    let found ← clauses reach
    Parser.skipNewlines
    let _ ← Parser.expect (.mark .closeBrace)
    return .done (.recordOf pos meant value found)
  if endsEntry (← Parser.current) then return .again (.field key value :: done)
  Parser.unexpected .entryEnd

theorem record_eq (reach : Reach) (pos : Position) :
    record reach pos = Parser.loop (entryRound reach pos) [] := rfl

theorem entryRound_proceeds (progress : Progress bound reach) (pos : Position) (done : List Entry) :
    Proceeds bound Parser.Round.GoesOn (entryRound reach pos done) := by
  refine .skips (.eaten rfl (.result id) (.eaten rfl ?_ ?_))
  · exact progress.expression.after fun _ => .result id
  · refine (key_takes progress).after fun found => (entryValue_lasts progress found).bind fun _ => ?_
    refine Lasts.pastNewlines.bind fun next => ?_
    split
    · exact .skips ((clauses_lasts progress).bind fun _ => .skips (.expects rfl fun _ => .result id))
    · refine Lasts.current.bind fun token => ?_
      split
      · exact .result id
      · exact .unexpected _

theorem record_lasts (progress : Progress bound reach) (pos : Position) :
    Lasts bound (record reach pos) := by
  rw [record_eq]
  exact .loop (entryRound_proceeds progress pos) []

/-! ## Templates -/

theorem holeExpression_lasts (progress : Progress bound reach) (pos : Position) :
    Lasts bound (holeExpression reach pos) := by
  refine .skips (.checked (.fails _) (progress.expression.after fun _ => .skips ?_))
  exact .checked (.result id) (.unexpected _)

theorem hole_lasts (progress : Progress bound reach) {bound' : Nat} {source : String}
    (pos : Position) (fits : 0 < bound' → source.length < bound) :
    Lasts bound' (hole reach source pos) := by
  intro stream fed
  unfold hole
  cases read : tokenizeAt source pos with
  | error error => exact ⟨fun _ _ done => (nomatch done), fun _ out => nomatch out⟩
  | ok tokens =>
      have whole := Stream.fed_ofTokens read tokens.length
      rw [List.take_length] at whole
      obtain ⟨inner, room, -⟩ := whole
      obtain ⟨-, lasts⟩ := holeExpression_lasts progress pos _ inner
      simp only
      split
      · next failure run =>
        refine ⟨fun _ _ done => (nomatch done), fun small out => ?_⟩
        cases out
        have bound := fits (Nat.zero_lt_of_lt small)
        exact lasts (by omega) run
      · next expr after run =>
        refine ⟨fun _ _ done => ?_, fun _ out => nomatch out⟩
        cases done
        exact ⟨.refl stream, False.elim⟩

theorem templateParts_lasts (progress : Progress bound reach) {bound' : Nat}
    {pieces : List TemplatePiece}
    (fits : 0 < bound' → ∀ ⦃source pos⦄, .hole source pos ∈ pieces → source.length < bound) :
    Lasts bound' (templateParts reach pieces) := by
  induction pieces with
  | nil => exact .result id
  | cons first later ih =>
      have rest := ih fun nonempty source pos member => fits nonempty (List.mem_cons_of_mem _ member)
      cases first with
      | text cooked => exact rest.bind fun _ => .result id
      | hole source pos =>
          have here := hole_lasts progress pos fun nonempty => fits nonempty List.mem_cons_self
          exact here.bind fun _ => rest.bind fun _ => .result id

/-! ## Patterns and matches -/

theorem numberValue_lasts (token : Token) : Lasts bound (numberValue token) := by
  unfold numberValue
  split
  · exact .result id
  · exact .fail _

/-- One pattern of an array pattern and the comma after it, or the end of the array pattern. -/
def elementRound (reach : Reach) (done : List Pattern) :
    Parser (Parser.Round (List Pattern) Pattern) := do
  Parser.skipNewlines
  if ← Parser.eat (.mark .closeBracket) then return .done (.array done.reverse none)
  if ← Parser.eat (.mark .ellipsis) then
    let rest ← Parser.identifier
    Parser.skipNewlines
    let _ ← Parser.expect (.mark .closeBracket)
    return .done (.array done.reverse (some rest))
  let element ← reach .pattern
  Parser.skipNewlines
  if ← Parser.eat (.mark .comma) then return .again (element :: done)
  Parser.skipNewlines
  let _ ← Parser.expect (.mark .closeBracket)
  return .done (.array (element :: done).reverse none)

theorem arrayPattern_eq (reach : Reach) :
    arrayPattern reach = Parser.loop (elementRound reach) [] := rfl

theorem elementRound_proceeds (progress : Progress bound reach) (done : List Pattern) :
    Proceeds bound Parser.Round.GoesOn (elementRound reach done) := by
  refine .skips (.eaten rfl (.result id) (.eaten rfl ?_ (progress.pattern.after fun _ => .skips ?_)))
  · exact Takes.identifier.after fun _ => .skips (.expects rfl fun _ => .result id)
  · exact .eaten rfl (.result id) (.skips (.expects rfl fun _ => .result id))

theorem arrayPattern_lasts (progress : Progress bound reach) : Lasts bound (arrayPattern reach) := by
  rw [arrayPattern_eq]
  exact .loop (elementRound_proceeds progress) []

theorem patternField_takes (progress : Progress bound reach) : Takes bound (patternField reach) := by
  have rest (key : String) : Lasts bound (Parser.eat (.mark .colon) >>= fun found =>
      if found = true then reach .pattern >>= fun inner => pure (key, inner)
      else pure (key, Pattern.binding key)) :=
    .eaten rfl (progress.pattern.after fun _ => .result id) (.result id)
  refine fun stream => .checked (fun here => ?_) (Takes.memberName.after rest stream)
  exact (ProceedsFrom.advance (here ▸ nofun)).after fun token => rest token.text

theorem pattern_takes (progress : Progress bound reach) : Takes (bound + 1) (pattern reach) := by
  refine fun stream => .of_current ?_
  have moved {f : Token → Parser Pattern} (shown : stream.current.kind ≠ .endOfInput)
      (next : ∀ token, Lasts bound (f token)) :
      ProceedsFrom (bound + 1) (fun _ => True) stream (Parser.advance >>= f) := .advanced shown next
  generalize stream.current = token at moved
  have other : Takes (bound + 1) (Parser.fail (.expected .pattern token) : Parser Pattern) := .fail _
  obtain ⟨kind, text, pos⟩ := token
  cases kind with
  | ident | text => exact moved nofun fun _ => .result id
  | number => exact moved nofun fun _ => (numberValue_lasts _).bind fun _ => .result id
  | keyword word =>
      cases word with
      | true_ | false_ | nil_ => exact moved nofun fun _ => .result id
      | _ => exact other stream
  | mark m =>
      cases m with
      | minus =>
          refine .peeked fun next => ?_
          split
          · exact moved nofun fun _ => Lasts.advances fun number =>
              (numberValue_lasts number).bind fun _ => .result id
          · exact other stream
      | openBracket => exact moved nofun fun _ => arrayPattern_lasts progress
      | openBrace =>
          exact moved nofun fun _ => (Lasts.listed (patternField_takes progress)).bind fun _ =>
            .result id
      | _ => exact other stream
  | _ => exact other stream

theorem arm_takes (progress : Progress bound reach) : Takes bound (arm reach) := by
  refine .expects rfl fun _ => progress.pattern.after fun pattern => ?_
  have rest (guard : Option Expr) : Lasts bound (Parser.expect (.mark .fatArrow) >>= fun _ =>
      Parser.skipNewlines >>= fun _ => reach .expression >>= fun body =>
        pure (Arm.mk pattern guard body)) :=
    .expects rfl fun _ => .skips (progress.expression.after fun _ => .result id)
  exact .eaten rfl (progress.expression.after fun cond => rest (some cond)) (rest none)

def armRound (reach : Reach) (done : List Arm) : Parser (Parser.Round (List Arm) (List Arm)) := do
  Parser.skipEntrySeparators
  if ← Parser.eat (.mark .closeBrace) then return .done done.reverse
  let next ← arm reach
  return .again (next :: done)

theorem matching_eq (reach : Reach) (pos : Position) : matching reach pos = do
    let subject ← reach .expression
    Parser.skipNewlines
    let _ ← Parser.expect (.mark .openBrace)
    let arms ← Parser.loop (armRound reach) []
    return .match_ pos subject arms := rfl

theorem armRound_proceeds (progress : Progress bound reach) (done : List Arm) :
    Proceeds bound Parser.Round.GoesOn (armRound reach done) :=
  .skips (.eaten rfl (.result id) ((arm_takes progress).after fun _ => .result id))

theorem matching_lasts (progress : Progress bound reach) (pos : Position) :
    Lasts bound (matching reach pos) := by
  rw [matching_eq]
  refine progress.expression.after fun _ => .skips (.expects rfl fun _ => ?_)
  exact (Lasts.loop (armRound_proceeds progress) []).bind fun _ => .result id

/-! ## Operands -/

theorem arrowBody_lasts (progress : Progress bound reach) (params : List Binding) (pos : Position) :
    Lasts bound (arrowBody reach params pos) :=
  .skips (.checked ((block_takes progress).sooner.after fun _ => .result id)
    (progress.expression.after fun _ => .result id))

theorem parenthesised_takes (progress : Progress bound reach) (pos : Position) {stream : Stream}
    (shown : stream.current.kind ≠ .endOfInput) :
    ProceedsFrom (bound + 1) (fun _ => True) stream (parenthesised reach pos) := by
  show ProceedsFrom (bound + 1) (fun _ => True) stream
    (if arrowAfterClose 0 stream.ahead = true then _ else _)
  split
  · exact (params_takes progress).took (fun params => .expects rfl fun _ =>
      arrowBody_lasts progress params pos) stream
  · exact .advanced shown fun _ => .skips (progress.expression.after fun _ =>
      .skips (.expects rfl fun _ => .result id))

theorem named_takes (progress : Progress bound reach) (token : Token) {stream : Stream}
    (shown : stream.current.kind ≠ .endOfInput) :
    ProceedsFrom (bound + 1) (fun _ => True) stream (named reach token) :=
  .advanced shown fun _ => .eaten rfl (arrowBody_lasts progress _ token.pos) (.result id)

theorem functionLiteral_lasts (progress : Progress bound reach) (pos : Position) :
    Lasts bound (functionLiteral reach pos) := by
  have rest (name : Option String) : Lasts bound
      (functionRest reach name pos >>= fun fn => pure (Expr.function pos fn)) :=
    (functionRest_takes progress name pos).after fun _ => .result id
  exact .checked (Takes.identifier.after fun name => rest (some name)) (rest none)

theorem superReference_lasts (pos : Position) : Lasts bound (superReference pos) :=
  .eaten rfl (Takes.memberName.after fun _ => .result id) (.result id)

theorem template_takes (progress : Progress bound reach) (pos : Position) {stream : Stream}
    {pieces : List TemplatePiece} (template : stream.current.kind = .template pieces) :
    ProceedsFrom (bound + 1) (fun _ => True) stream (Parser.advance >>= fun _ =>
      templateParts reach pieces >>= fun parts => pure (Expr.template pos parts)) := by
  have shown : stream.current.kind ≠ .endOfInput := template ▸ nofun
  refine .within ?_ fun fed small => .advanced shown fun _ => ?_
  · exact (ProceedsFrom.advance shown).after fun _ =>
      (templateParts_lasts progress (absurd · (Nat.lt_irrefl 0))).bind fun _ => .result id
  · refine (templateParts_lasts progress fun _ source pos member => ?_).bind fun _ => .result id
    exact Nat.lt_of_lt_of_le (fed.hole_lt template member) (Nat.le_of_lt_succ small)

theorem primary_takes (progress : Progress bound reach) : Takes (bound + 1) (primary reach) := by
  refine fun stream => .of_current ?_
  have moved {f : Token → Parser Expr} (shown : stream.current.kind ≠ .endOfInput)
      (next : ∀ token, Lasts bound (f token)) :
      ProceedsFrom (bound + 1) (fun _ => True) stream (Parser.advance >>= f) := .advanced shown next
  have parts (pieces : List TemplatePiece) (template : stream.current.kind = .template pieces) :=
    template_takes progress stream.current.pos template
  have name : _ → ProceedsFrom (bound + 1) _ stream _ := named_takes progress stream.current
  have parens : _ → ProceedsFrom (bound + 1) _ stream _ :=
    parenthesised_takes progress stream.current.pos
  generalize stream.current = token at moved parts name parens
  have other : Takes (bound + 1) (Parser.fail (.expected .expression token) : Parser Expr) := .fail _
  obtain ⟨kind, text, pos⟩ := token
  cases kind with
  | number => exact moved nofun fun _ => (numberValue_lasts _).bind fun _ => .result id
  | text => exact moved nofun fun _ => .result id
  | template pieces => exact parts pieces rfl
  | ident => exact name nofun
  | keyword word =>
      cases word with
      | true_ | false_ | nil_ => exact moved nofun fun _ => .result id
      | func_ => exact moved nofun fun _ => functionLiteral_lasts progress pos
      | match_ => exact moved nofun fun _ => matching_lasts progress pos
      | super_ => exact moved nofun fun _ => superReference_lasts pos
      | _ => exact other stream
  | mark m =>
      cases m with
      | openParen => exact parens nofun
      | openBracket => exact moved nofun fun _ => array_lasts progress pos
      | openBrace => exact moved nofun fun _ => record_lasts progress pos
      | _ => exact other stream
  | _ => exact other stream

theorem memberAccess_takes (object : Expr) (pos : Position) (optional : Bool) {stream : Stream}
    (shown : stream.current.kind ≠ .endOfInput) :
    ProceedsFrom bound (fun _ => True) stream (memberAccess object pos optional) :=
  (ProceedsFrom.advance shown).after fun _ => Takes.memberName.after fun _ => .result id

theorem link_proceeds (progress : Progress bound reach) (object : Expr) :
    Proceeds bound Parser.Round.GoesOn (link reach object) := by
  refine fun stream => .of_current ?_
  have moved {f : Token → Parser (Parser.Round Expr Expr)}
      (shown : stream.current.kind ≠ .endOfInput) (next : ∀ token, Lasts bound (f token)) :
      ProceedsFrom bound Parser.Round.GoesOn stream (Parser.advance >>= f) :=
    (ProceedsFrom.advance shown).after next
  have member (pos : Position) (optional : Bool) (shown : stream.current.kind ≠ .endOfInput) :
      ProceedsFrom bound Parser.Round.GoesOn stream
        (memberAccess object pos optional >>= fun access =>
          (pure (.again access) : Parser (Parser.Round Expr Expr))) :=
    (memberAccess_takes object pos optional shown).after fun _ => .result id
  have feeds : stream.current.kind = .newline → ProceedsFrom bound _ stream Parser.skipNewlines :=
    ProceedsFrom.skipNewlines
  have last : Proceeds bound Parser.Round.GoesOn
      (pure (.done object) : Parser (Parser.Round Expr Expr)) := .result id
  generalize stream.current = token at moved member feeds
  obtain ⟨kind, text, pos⟩ := token
  cases kind with
  | newline =>
      refine .lookedPast fun next => ?_
      split
      · exact (feeds rfl).after fun _ => .result id
      · exact last stream
  | mark m =>
      cases m with
      | openParen =>
          exact moved nofun fun _ => (Lasts.listed progress.expression).bind fun _ => .result id
      | dot | questionDot => exact member pos _ nofun
      | openBracket =>
          exact moved nofun fun _ => .skips (progress.expression.after fun _ => .skips
            (.expects rfl fun _ => .result id))
      | _ => exact last stream
  | _ => exact last stream

theorem chain_takes (progress : Progress bound reach) : Takes (bound + 1) (chain reach) :=
  (primary_takes progress).took fun object => .loop (link_proceeds progress) object

theorem operand_takes (progress : Progress bound reach) : Takes (bound + 1) (operand reach) := by
  refine fun stream => .of_current ?_
  split
  · next dots => exact .advanced (dots ▸ nofun) fun _ => progress.operand.after fun _ => .result id
  · split
    · next op sign =>
      have shown : stream.current.kind ≠ .endOfInput := fun finish => by
        rw [finish] at sign
        exact nomatch sign
      exact .advanced shown fun _ => progress.operand.after fun _ => .result id
    · exact chain_takes progress stream

/-! ## Expressions -/

theorem climb_proceeds (progress : Progress bound reach) (power : Nat) (left : Expr) :
    Proceeds bound Parser.Round.GoesOn (climb reach power left) := by
  refine fun stream => .of_current ?_
  split
  · exact Proceeds.result id stream
  · next op sign =>
    split
    · exact Proceeds.result id stream
    · have shown : stream.current.kind ≠ .endOfInput := fun finish => by
        rw [finish] at sign
        exact nomatch sign
      exact (ProceedsFrom.advance shown).after fun _ => .skips
        ((progress.operation op.power).after fun _ => .result id)

theorem operation_takes (progress : Progress bound reach) (power : Nat) :
    Takes (bound + 1) (operation reach power) :=
  (operand_takes progress).took fun left => .loop (climb_proceeds progress power) left

theorem expression_takes (progress : Progress bound reach) : Takes (bound + 1) (expression reach) := by
  refine (operation_takes progress 0).took fun _ => .eaten rfl (.skips ?_) (.result id)
  exact progress.expression.after fun _ => .skips (.expects rfl fun _ => .skips
    (progress.expression.after fun _ => .result id))

end Grammar

end Rill

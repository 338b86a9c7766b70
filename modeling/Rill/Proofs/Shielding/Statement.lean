import Rill.Proofs.Shielding

/-!
# Statements before other tokens

What a statement is does not depend on a token behind it that could start the next one, whether or
not anything stands between the two. Only a `return` alone takes what comes behind it for its value.
-/

set_option autoImplicit false

namespace Rill

open Rill.Stream (Longer Leaves)
open Rill.Grammar (Apart)

/-- A kind that no statement goes on with, unless it is a `return` without a value. A line feed may
have a word behind it that does. -/
def TokenKind.afterStatement : TokenKind → Bool
  | mark .comma | mark .fatArrow | keyword .else_ | keyword .catch_ | keyword .finally_
  | keyword .as_ => false
  | kind => kind.afterExpression && (AssignOp.ofStep? kind).isNone && (AssignOp.ofKind? kind).isNone

open TokenKind (afterExpression afterStatement)

theorem TokenKind.afterStatement_expression {kind : TokenKind} (stops : kind.afterStatement = true) :
    kind.afterExpression = true := by
  cases kind with
  | mark m => cases m <;> first | rfl | exact nomatch stops
  | keyword word => cases word <;> first | rfl | exact nomatch stops
  | newline => exact nomatch stops
  | _ => rfl

theorem TokenKind.afterStatement_assignment {kind : TokenKind} (stops : kind.afterStatement = true) :
    AssignOp.ofStep? kind = none ∧ AssignOp.ofKind? kind = none := by
  cases kind with
  | mark m => cases m <;> first | exact ⟨rfl, rfl⟩ | exact nomatch stops
  | _ => exact ⟨rfl, rfl⟩

/-- A `return` without a value. -/
def Stmt.bare : Stmt → Bool
  | .return_ _ none => true
  | _ => false

/-- A production whose end does not depend on a token that could start a statement. -/
abbrev Closed {α : Type} (p : Parser α) : Prop := Shielded afterStatement false p

theorem Grammar.Apart.afterStatement {start : Bool} {tokens : List Token} {next : Token}
    (stops : next.kind.afterStatement = true) : Apart TokenKind.afterStatement start tokens next where
  stops := stops
  aside := TokenKind.aside_of_afterExpression (TokenKind.afterStatement_expression stops)
  hidden arrow := by
    rw [arrow] at stops
    exact nomatch stops

section Rules

variable {α β : Type} {near : Stream} {start : Bool} {p : Parser α}

theorem ShieldedFrom.anywhere {start' : Bool} (closed : ShieldedFrom afterStatement near start' p) :
    ShieldedFrom afterStatement near start p := fun sound _ _ done =>
  ⟨(closed sound done).1, fun _ _ _ apart longer =>
    (closed sound done).2 (.afterStatement apart.stops) longer⟩

theorem Shielded.closed {start' : Bool} (shielded : Shielded afterExpression start' p) :
    Closed p :=
  fun near => ((shielded.mono fun _ => TokenKind.afterStatement_expression) near).anywhere

theorem ShieldedFrom.past {token : Token} {rest : List Token} (front : near.ahead = token :: rest)
    {f : Token → Parser α} (next : Closed (f token)) :
    ShieldedFrom afterStatement near start (Parser.advance >>= f) :=
  .advance front (next near.tail).anywhere

theorem Closed.belated {word : Keyword} {part : Token → Parser α} {part' : Parser α}
    (other : afterStatement (.keyword word) = false) (yes : ∀ token, Closed (part token))
    (dead : ∀ token, Dead (part token)) (no : Closed part') :
    Closed (Parser.pastNewlines >>= fun token =>
      if token.kind = .keyword word then
        Parser.skipNewlines >>= fun _ => Parser.advance >>= part
      else part') := by
  refine .pastNewlines (P := (· = .keyword word)) nofun (fun kind stops => ⟨?_, ?_⟩) ?_ no
  · rintro rfl
    exact nomatch stops
  · rintro rfl
    exact nomatch other.symm.trans stops
  · exact .bind (.skipNewlines rfl) fun _ => .onward .advance yes dead

theorem Closed.eat {kind : TokenKind} {p p' : Parser α} (plain : kind.plain)
    (other : afterStatement kind = false) (yes : Closed p) (no : Closed p') :
    Closed (Parser.eat kind >>= fun found => if found = true then p else p') :=
  Shielded.eat plain other (fun near => (yes near).anywhere) no

end Rules

namespace Grammar

variable {reach : Reach}

theorem expression_closed (shielding : Shielding reach) : Closed (reach .expression) :=
  shielding.expression'.closed

theorem feeds_closed (shielding : Shielding reach) {α : Type} (made : Expr → α) :
    Closed (Parser.skipNewlines >>= fun _ => reach .expression >>= fun expr => pure (made expr)) :=
  .bind (.skipNewlines rfl) fun _ => (expression_closed shielding).bind fun _ => .result

theorem initialiser_closed (shielding : Shielding reach) : Closed (initialiser reach) :=
  .eat rfl rfl (feeds_closed shielding some) .result

/-! ## Declarations and assignments -/

theorem declared_closed (shielding : Shielding reach) (constant : Bool) :
    Closed (declared reach constant) := by
  have ends (done : List Binding) (binding : Binding) : Closed (do
      if ← Parser.eat (.mark .comma) then
        Parser.skipNewlines
        return Parser.Round.again (binding :: done)
      else return .done (binding :: done).reverse) :=
    .eat rfl rfl (.bind (.skipNewlines rfl) fun _ => .result) .result
  refine .loop (fun done => .currents (.currents fun _ _ => Stops.identifiers)
    fun near token rest front => ?_) []
  refine Shielded.bind (.of_firm .identifier) (fun name => (initialiser_closed shielding).bind
    fun value => ?_) near
  split
  · exact .of_firm (.failed _)
  · exact ends done _

theorem declaration_closed (shielding : Shielding reach) (constant : Bool) {near : Stream}
    {token : Token} {rest : List Token} (front : near.ahead = token :: rest) (pos : Position) :
    ShieldedFrom afterStatement near false (declaration reach constant pos) := by
  refine .past front (.currents (.currents fun token kind => ?_) fun near token rest front => ?_)
  · rcases kind with kind | kind <;>
      (simp only [kind, reduceCtorEq, or_self, if_false]; exact (declared_dead reach constant).bind)
  split
  · exact Shielded.onward destructure_loose (fun names => .bind (.of_firm (.expect rfl)) fun _ =>
      feeds_closed shielding _) (fun _ => .expects rfl) near
  · exact (declared_closed shielding constant).bind (fun _ => .result) near

theorem assignment_closed (shielding : Shielding reach) (pos : Position) :
    Closed (assignment reach pos) := by
  refine (expression_shielded shielding).closed.bind fun target => ?_
  refine .glimpse (fun token next ends stops => ?_) (fun token ends => ?_) fun near token rest front => ?_
  · obtain ⟨step, assign⟩ := TokenKind.afterStatement_assignment stops
    rw [step, assign, ends]
    rfl
  · rw [ends]
    exact .result
  · split
    · exact .past front (.bind (.of_firm (checkTarget_firm target)) fun _ => .result)
    · exact .past front (.bind (.of_firm (checkTarget_firm target)) fun _ => feeds_closed shielding _)
    · exact Shielded.result near

/-! ## Branches and guarded blocks -/

theorem conditional_closed (shielding : Shielding reach) (conditional' : Closed (reach .conditional)) :
    Closed (conditional reach) := by
  have enduring := shielding.toEnduring
  refine .onward .advance (fun opening => (expression_closed shielding).bind fun cond =>
    .bind (.of_firm (block_firm enduring)) fun yes => ?_) fun _ => (enduring.dead .expression).bind
  refine Closed.belated rfl (fun other => .checkAhead rfl ?_ ?_ ?_) (fun other => .checks rfl ?_) .result
  · exact conditional'.bind fun _ => .result
  · exact .bind (.of_firm (block_firm enduring)) fun _ => .result
  · exact (block_dead reach).bind
  · exact (block_dead reach).bind

theorem guarded_closed (shielding : Shielding reach) : Closed (guarded reach) := by
  have enduring := shielding.toEnduring
  refine .onward .advance (fun opening => .bind (.of_firm (block_firm enduring)) fun body => ?_)
    fun _ => (block_dead reach).bind
  have ends (handler : Option Handler) (cleanup : Option Block) : Closed (do
      if handler.isNone && cleanup.isNone then Parser.fail (.invalid opening.pos .bareTry)
      return Stmt.try_ opening.pos body handler cleanup) := by
    split
    · exact .of_firm (.failed _)
    · exact .result
  have cleanup (handler : Option Handler) : Closed (do
      let cleanup ←
        if (← Parser.pastNewlines).kind = .keyword .finally_ then
          Parser.skipNewlines
          let _ ← Parser.advance
          pure (some (← block reach))
        else pure none
      if handler.isNone && cleanup.isNone then Parser.fail (.invalid opening.pos .bareTry)
      return Stmt.try_ opening.pos body handler cleanup) := by
    exact Closed.belated rfl (fun _ => .bind (.of_firm (block_firm enduring)) fun found =>
      ends handler (some found)) (fun _ => (block_dead reach).bind) (ends handler none)
  exact Closed.belated rfl (fun _ => .onward caughtName_loose (fun name =>
      .bind (.of_firm (block_firm enduring)) fun found => cleanup (some ⟨name, found⟩))
    fun _ => (block_dead reach).bind)
    (fun _ => caughtName_loose.stops.bind fun _ _ => (block_dead reach).bind) (cleanup none)

theorem importing_closed (pos : Position) : Closed (importing pos) := by
  refine .bind (.of_firm (.expect rfl)) fun path => ?_
  exact .eat rfl rfl (.bind (.of_firm .identifier) fun _ => .result) .result

/-! ## Statements -/

theorem return_closed (shielding : Shielding reach) {near : Stream} {token second : Token}
    {rest : List Token} (front : near.ahead = token :: second :: rest) (pos : Position) :
    ShieldedFrom afterStatement near false (Parser.advance >>= fun _ => Parser.current >>= fun token =>
      if token.kind.isTerminator = true then pure (Stmt.return_ pos none)
      else reach .expression >>= fun value => pure (Stmt.return_ pos (some value))) := by
  have front' : near.tail.ahead = second :: rest := by
    show near.ahead.tail = _
    rw [front, List.tail_cons]
  refine .advance front (.current front' ?_)
  split
  · exact Shielded.result near.tail
  · exact ((expression_closed shielding).bind (fun _ => .result) near.tail).anywhere

theorem return_alone (reach : Reach) {stream : Stream} {token : Token} {rest : List Token}
    (front : stream.ahead = token :: rest) (kind : token.kind = .keyword .return_)
    (ends : stream.tail.current.kind.isTerminator = true) :
    statement reach stream = .ok (.return_ token.pos none, stream.tail) := by
  have here : stream.current = token := Stream.current_of_front front
  simp only [statement, bind, StateT.bind, Parser.current, Parser.advance, Except.bind, here, kind,
    ends, if_true]
  rfl

theorem statement_closed (shielding : Shielding reach) (conditional' : Closed (reach .conditional))
    {near : Stream} {token : Token} {rest : List Token} (front : near.ahead = token :: rest)
    (more : token.kind = .keyword .return_ → rest ≠ []) :
    ShieldedFrom afterStatement near false (statement reach) := by
  have enduring := shielding.toEnduring
  refine .current front ?_
  obtain ⟨kind, text, pos⟩ := token
  cases kind with
  | keyword word =>
      cases word with
      | let_ | const_ => exact declaration_closed shielding _ front pos
      | func_ =>
          refine .peeks front (fun sound lone ends found => ?_) ?_
          · simp only [ends, reduceCtorEq, if_false]
            exact assignment_of_lone_func sound (lone ▸ front) rfl pos
          split
          · exact .past front (.bind (.of_firm (method_firm enduring pos)) fun _ => .result)
          · exact assignment_closed shielding pos near
      | class_ =>
          exact Shielded.bind (.of_firm (classDeclaration_firm enduring)) (fun _ => .result) near
      | if_ => exact conditional_closed shielding conditional' near
      | while_ =>
          exact .past front ((expression_closed shielding).bind fun cond =>
            .bind (.of_firm (block_firm enduring)) fun _ => .result)
      | for_ => exact Shielded.of_firm (forLoop_firm enduring) near
      | return_ =>
          obtain ⟨second, rest, rfl⟩ := List.exists_cons_of_ne_nil (more rfl)
          exact return_closed shielding front pos
      | break_ | continue_ => exact .past front .result
      | try_ => exact guarded_closed shielding near
      | throw_ => exact .past front ((expression_closed shielding).bind fun _ => .result)
      | import_ => exact .past front (importing_closed pos)
      | _ => exact assignment_closed shielding pos near
  | mark m =>
      cases m with
      | openBrace => exact Shielded.bind (.of_firm (block_firm enduring)) (fun _ => .result) near
      | _ => exact assignment_closed shielding pos near
  | _ => exact assignment_closed shielding pos near

/-- What a statement is does not depend on a token behind it that no statement goes on with. Behind
a `return` without a value the token has to end the statement. -/
theorem statement_before (shielding : Shielding reach)
    (conditional' : Closed (reach .conditional)) {near after far : Stream} (sound : near.Sound)
    {stmt : Stmt} (run : statement reach near = .ok (stmt, after)) {next : Token}
    {more : List Token} (stops : next.kind.afterStatement = true)
    (bare : after.ahead = [] → stmt.bare = true → next.kind.isTerminator = true)
    (longer : Longer (next :: more) near far) :
    ∃ after', statement reach far = .ok (stmt, after') ∧ Longer (next :: more) after after' := by
  have apart : Apart afterStatement false near.ahead next := .afterStatement stops
  cases front : near.ahead with
  | nil => exact (statement_dead reach (Stream.spent_of_nil sound front) run).1.elim
  | cons token rest =>
      by_cases alone : token.kind = .keyword .return_ ∧ rest = []
      · obtain ⟨kind, rfl⟩ := alone
        have empty : near.tail.ahead = [] := by
          show near.ahead.tail = _
          rw [front, List.tail_cons]
        have ends : near.tail.current.kind.isTerminator = true := by
          rw [Stream.current, empty]
          exact congrArg TokenKind.isTerminator sound.kind
        rw [return_alone reach front kind ends] at run
        cases run
        have front' : far.ahead = token :: next :: more := by
          rw [longer.ahead, front]
          rfl
        refine ⟨far.tail, return_alone reach front' kind ?_, longer.tail front⟩
        rw [(longer.tail front).current_of_nil empty]
        exact bare empty rfl
      · exact (statement_closed shielding conditional' front
          (fun kind empty => alone ⟨kind, empty⟩) sound run).2 apart longer

/-! ## Goals -/

theorem reach_conditional (depth : Nat) : Closed (Grammar.reach depth .conditional) := by
  induction depth with
  | zero => exact fun _ _ _ _ done => nomatch done
  | succ depth ih => exact conditional_closed (reach_shielding depth) ih

theorem reach_before {depth : Nat} {near after far : Stream} {next : Token} {more : List Token}
    (stops : next.kind.afterStatement = true) {stmt : Stmt}
    (bare : after.ahead = [] → stmt.bare = true → next.kind.isTerminator = true)
    (sound : near.Sound) (run : Grammar.reach depth .statement near = .ok (stmt, after))
    (longer : Longer (next :: more) near far) :
    ∃ after', Grammar.reach depth .statement far = .ok (stmt, after')
      ∧ Longer (next :: more) after after' := by
  cases depth with
  | zero => exact nomatch run
  | succ depth =>
      exact statement_before (reach_shielding depth) (reach_conditional depth) sound run stops bare
        longer

end Grammar

end Rill

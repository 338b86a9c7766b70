import Rill.Proofs.Enduring.Expression

/-!
# Statements with more tokens after them

No statement needs to be told from a longer one: statements only stand inside brackets, where they
are read the same unless the stream ends.
-/

set_option autoImplicit false

namespace Rill.Grammar

section Productions

variable {reach : Reach}

theorem destructure_loose : Loose destructure := by
  refine Endures.advance.chain fun opening => ?_
  split
  · exact .then (.listed (.of_firm .identifier) Stops.identifier) fun _ => .result
  · exact .then (.listed (.of_firm .identifier) Stops.identifier) fun _ => .result

theorem declared_loose (enduring : Enduring reach) (constant : Bool) :
    Loose (declared reach constant) := by
  have ends (done : List Binding) (binding : Binding) : Loose (do
      if ← Parser.eat (.mark .comma) then
        Parser.skipNewlines
        return Parser.Round.again (binding :: done)
      else return .done (binding :: done).reverse) :=
    .eatLoosely rfl (.skipLoosely .result) .result
  refine .loopLoosely (fun done => .glimpseLoosely fun token => .then .identifier fun name =>
    (initialiser_loose enduring).chain fun value => ?_) []
  split
  · exact .failed _
  · exact ends done _

theorem declaration_loose (enduring : Enduring reach) (constant : Bool) (pos : Position) :
    Loose (declaration reach constant pos) := by
  refine Endures.advance.chain fun _ => .glimpseLoosely fun token => ?_
  split
  · exact destructure_loose.chain fun _ => .expects rfl fun _ =>
      .skipLoosely (enduring.expression.chain fun _ => .result)
  · exact (declared_loose enduring constant).chain fun _ => .result

theorem checkTarget_firm (target : Expr) : Firm (checkTarget target) := by
  unfold checkTarget
  split
  · exact .result
  · exact .fail _

theorem assignment_loose (enduring : Enduring reach) (pos : Position) :
    Loose (assignment reach pos) := by
  refine (expression_loose enduring).chain fun target => .glimpseLoosely fun token => ?_
  split
  · exact Endures.advance.chain fun _ => .then (checkTarget_firm target) fun _ => .result
  · exact Endures.advance.chain fun _ => .then (checkTarget_firm target) fun _ =>
      .skipLoosely (enduring.expression.chain fun _ => .result)
  · exact .result

theorem assignment_of_lone_func {near : Stream} (sound : near.Sound) {token : Token}
    (front : near.ahead = [token]) (kind : token.kind = .keyword .func_) (pos : Position)
    {found : Stmt × Stream} :
    assignment reach pos near ≠ .ok found := by
  intro run
  have here : near.current = token := Stream.current_of_front front
  obtain ⟨target, middle, run, -⟩ := Parser.bind_eq_ok.mp run
  obtain ⟨cond, middle, run, -⟩ := Parser.bind_eq_ok.mp run
  obtain ⟨left, middle, run, -⟩ := Parser.bind_eq_ok.mp run
  obtain ⟨first, middle, look, run⟩ := Parser.bind_eq_ok.mp run
  cases look
  simp only [here, kind, reduceCtorEq, if_false, UnaryOp.ofKind?] at run
  obtain ⟨object, middle, run, -⟩ := Parser.bind_eq_ok.mp run
  obtain ⟨first, middle, look, run⟩ := Parser.bind_eq_ok.mp run
  cases look
  simp only [here, kind] at run
  obtain ⟨first, middle, step, run⟩ := Parser.bind_eq_ok.mp run
  cases step
  have spent : near.tail.Spent := Stream.spent_of_nil ((Stream.Leaves.tail near).sound sound) (by
    show near.ahead.tail = []
    rw [front, List.tail_cons])
  exact (functionLiteral_dead reach token.pos spent run).1

theorem simple_loose (enduring : Enduring reach) : Loose (simple reach) := by
  refine .glimpseLoosely fun token => ?_
  dsimp only
  split
  · exact declaration_loose enduring false token.pos
  · exact declaration_loose enduring true token.pos
  · exact assignment_loose enduring token.pos

theorem conditional_loose (enduring : Enduring reach) : Loose (conditional reach) := by
  refine Endures.advance.chain fun opening => enduring.expression.chain fun cond =>
    .then (block_firm enduring) fun yes => ?_
  refine .pastNewlines (P := (· = .keyword .else_)) nofun ?_ .result (.result trivial)
  refine .skipLoosely (Endures.advance.chain fun other => .checkLoosely rfl ?_ ?_)
  · exact enduring.conditional.chain fun _ => .result
  · exact .then (block_firm enduring) fun _ => .result

theorem optional_loose {α : Type} {part : Parser α} (loose : Loose part) (stop : Mark) :
    Loose (optional stop part) :=
  .checkLoosely rfl .result (loose.chain fun _ => .result)

theorem counting_dead (enduring : Enduring reach) (pos : Position) (inParens : Bool) :
    Dead (counting reach pos inParens) :=
  (optional_loose (simple_loose enduring) _).stops.bind fun _ _ => .expects rfl

theorem counting_firm (enduring : Enduring reach) (pos : Position) (inParens : Bool) :
    Firm (counting reach pos inParens) := by
  have body (init : Option Stmt) (cond : Option Expr) (post : Option Stmt) :
      Firm (block reach >>= fun body => pure (Stmt.for_ pos init cond post body)) :=
    .then (block_firm enduring) fun _ => .result
  refine (optional_loose (simple_loose enduring) _).bind (fun init => .expects rfl fun _ => ?_)
    fun _ _ => .expects rfl
  refine (optional_loose enduring.expression _).bind (fun cond => .expects rfl fun _ => ?_)
    fun _ _ => .expects rfl
  cases inParens with
  | true =>
      exact (optional_loose (simple_loose enduring) _).bind
        (fun post => .expects rfl fun _ => body init cond post) fun _ _ => .expects rfl
  | false =>
      exact (optional_loose (simple_loose enduring) _).bind (fun post => body init cond post)
        fun _ _ => (block_dead reach).bind

theorem forHead_firm (enduring : Enduring reach) (pos : Position) (inParens : Bool) : Firm (do
    if (← Parser.check .ident) && (← Parser.peek).kind = .keyword .in_ then
      let name ← Parser.identifier
      let _ ← Parser.advance
      let source ← reach .expression
      if inParens then
        let _ ← Parser.expect (.mark .closeParen)
      let body ← block reach
      return .forIn pos name source body
    else counting reach pos inParens) := by
  have counts := counting_firm enduring pos inParens
  refine .checked rfl (fun near first rest front _ => ?_) counts
    (counting_dead enduring pos inParens)
  simp only [Bool.true_and, decide_eq_true_eq]
  refine .peek rfl rfl front (fun _ => ?_) (counts near)
  refine Endures.then .identifier (fun name => Endures.advance.bind (fun _ =>
    enduring.expression.bind (fun source => ?_) fun source _ => ?_)
      fun _ _ => (enduring.dead .expression).bind) near
  · cases inParens with
    | true => exact .expects rfl fun _ => .then (block_firm enduring) fun _ => .result
    | false => exact .then (block_firm enduring) fun _ => .result
  · cases inParens with
    | true => exact .expects rfl
    | false => exact (block_dead reach).bind

theorem forLoop_firm (enduring : Enduring reach) : Firm (forLoop reach) := by
  refine Endures.advance.bind (fun opening => ?_) fun opening _ => ?_
  · have head := forHead_firm enduring opening.pos
    refine .eaten rfl (head true) (head false) ?_
    exact (Stops.check rfl).bind fun x absent => by
      rw [absent]
      exact counting_dead enduring opening.pos false
  · refine (Stops.eat rfl).bind fun x absent => ?_
    exact (Stops.check rfl).bind fun y absent' => by
      rw [absent, absent']
      exact counting_dead enduring opening.pos false

theorem caughtName_loose : Loose caughtName :=
  .eatLoosely rfl (.then .identifier fun _ => .expects rfl fun _ => .result)
    (.checkLoosely rfl (.of_firm .identifier) .result)

theorem belated_loose {α : Type} {word : Keyword} {part part' : Parser α} (yes : Loose part)
    (no : Loose part') :
    Loose (Parser.pastNewlines >>= fun token =>
      if token.kind = .keyword word then
        Parser.skipNewlines >>= fun _ => Parser.advance >>= fun _ => part
      else part') :=
  .pastNewlines (P := (· = .keyword word)) nofun
    (.skipLoosely (Endures.advance.chain fun _ => yes)) no no.stops

theorem guarded_loose (enduring : Enduring reach) : Loose (guarded reach) := by
  refine Endures.advance.chain fun opening => .then (block_firm enduring) fun body => ?_
  have ends (handler : Option Handler) (cleanup : Option Block) : Loose (do
      if handler.isNone && cleanup.isNone then Parser.fail (.invalid opening.pos .bareTry)
      return Stmt.try_ opening.pos body handler cleanup) := by
    split
    · exact .failed _
    · exact .result
  have cleanup (handler : Option Handler) : Loose (do
      let cleanup ←
        if (← Parser.pastNewlines).kind = .keyword .finally_ then
          Parser.skipNewlines
          let _ ← Parser.advance
          pure (some (← block reach))
        else pure none
      if handler.isNone && cleanup.isNone then Parser.fail (.invalid opening.pos .bareTry)
      return Stmt.try_ opening.pos body handler cleanup) := by
    exact belated_loose (.then (block_firm enduring) fun found => ends handler (some found))
      (ends handler none)
  exact belated_loose (caughtName_loose.chain fun name => .then (block_firm enduring) fun found =>
    cleanup (some ⟨name, found⟩)) (cleanup none)

/-! ## Classes -/

theorem method_firm (enduring : Enduring reach) (pos : Position) : Firm (method reach pos) :=
  .then .identifier fun name => functionRest_firm enduring (some name) pos

theorem fields_loose (enduring : Enduring reach) : Loose (fields reach) :=
  .loopLoosely (fun _ => .then .identifier fun _ => (initialiser_loose enduring).chain fun _ =>
    .eatLoosely rfl .result .result) []

theorem classMember_endures (enduring : Enduring reach) (done : List Binding × List Function) :
    Endures (Parser.Round.spare fun _ => False) (classMember reach done) := by
  refine .skips (.currents (.currents fun token kind => ?_) fun near token rest front => ?_)
    (.currents fun token kind => ?_)
  · rcases kind with kind | kind <;> (simp only [kind]; exact Dead.fail _)
  rotate_left
  · rcases kind with kind | kind <;> (simp only [kind]; exact Dead.fail _)
  obtain ⟨kind, text, pos⟩ := token
  cases kind with
  | keyword word =>
      cases word with
      | let_ | const_ =>
          exact .advance front ((fields_loose enduring).bind (fun _ => .result) fun _ _ =>
            .result trivial)
      | func_ => exact .advance front (.then (method_firm enduring pos) fun _ => .result)
      | _ => exact Endures.fail _ near
  | mark m =>
      cases m with
      | closeBrace => exact .advance front .result
      | _ => exact Endures.fail _ near
  | ident =>
      have method : Firm (method reach pos >>= fun fn =>
          pure (Parser.Round.again (γ := List Binding × List Function) (done.1, done.2 ++ [fn]))) :=
        .then (method_firm enduring pos) fun _ => .result
      refine .peeks front (fun _ _ ends found => ?_) ?_
      · simp only [ends, reduceCtorEq, and_false, if_false]
        exact nofun
      · dsimp only
        split
        · exact .advance front (.of_firm method)
        split
        · exact Endures.of_firm method near
        · exact Endures.fail _ near
  | _ => exact Endures.fail _ near

theorem classDeclaration_firm (enduring : Enduring reach) : Firm (classDeclaration reach) := by
  have members (name : String) (parent : Option String) (pos : Position) : Firm (do
      Parser.skipNewlines
      let _ ← Parser.expect (.mark .openBrace)
      let members ← Parser.loop (classMember reach) ([], [])
      return ClassDecl.mk name parent members.1 members.2 pos) :=
    .skips (.expects rfl fun _ => .then (.loop (classMember_endures enduring)
      (classMember_stops reach) ([], [])) fun _ => .result) (.expects rfl)
  have ends (name : String) (pos : Position) : Dead (do
      Parser.skipNewlines
      let _ ← Parser.expect (.mark .openBrace)
      let members ← Parser.loop (classMember reach) ([], [])
      return ClassDecl.mk name none members.1 members.2 pos) := .skips (.expects rfl)
  refine Endures.advance.bind (fun opening => .then .identifier fun name => ?_) fun opening _ =>
    Stops.identifiers
  exact .eat rfl (.then .identifier fun parent => members name (some parent) opening.pos)
    (members name none opening.pos) (ends name opening.pos)

theorem importing_loose (pos : Position) : Loose (importing pos) :=
  .expects rfl fun _ => .eatLoosely rfl (.then .identifier fun _ => .result) .result

/-! ## Statements -/

theorem statement_loose (enduring : Enduring reach) : Loose (statement reach) := by
  refine .currents (statement_dead reach) fun near token rest front => ?_
  obtain ⟨kind, text, pos⟩ := token
  cases kind with
  | keyword word =>
      cases word with
      | let_ | const_ => exact declaration_loose enduring _ pos near
      | func_ =>
          refine .peeks front (fun sound lone ends found => ?_) ?_
          · simp only [ends, reduceCtorEq, if_false]
            exact assignment_of_lone_func sound (lone ▸ front) rfl pos
          split
          · exact .advance front (.then (method_firm enduring pos) fun _ => .result)
          · exact assignment_loose enduring pos near
      | class_ => exact Endures.then (classDeclaration_firm enduring) (fun _ => .result) near
      | if_ => exact conditional_loose enduring near
      | while_ =>
          exact .advance front (enduring.expression.chain fun cond =>
            .then (block_firm enduring) fun _ => .result)
      | for_ => exact Endures.of_firm (forLoop_firm enduring) near
      | return_ =>
          refine .advance front (.glimpseLoosely fun token => ?_)
          split
          · exact .result
          · exact enduring.expression.chain fun _ => .result
      | break_ | continue_ => exact .advance front .result
      | try_ => exact guarded_loose enduring near
      | throw_ => exact .advance front (enduring.expression.chain fun _ => .result)
      | import_ => exact .advance front (importing_loose pos)
      | _ => exact assignment_loose enduring pos near
  | mark m =>
      cases m with
      | openBrace => exact Endures.then (block_firm enduring) (fun _ => .result) near
      | _ => exact assignment_loose enduring pos near
  | _ => exact assignment_loose enduring pos near

end Productions

/-! ## Goals -/

theorem reach_enduring (depth : Nat) : Enduring fun goal => Grammar.reach depth goal := by
  induction depth with
  | zero => exact ⟨reach_follows 0 (Nat.le_refl 0), fun _ _ _ _ _ done => nomatch done⟩
  | succ depth ih =>
      refine ⟨reach_follows 0 (Nat.le_refl _), fun goal => ?_⟩
      cases goal with
      | statement => exact statement_loose ih
      | conditional => exact conditional_loose ih
      | expression => exact expression_loose ih
      | operation power => exact operation_loose ih power
      | operand => exact operand_loose ih
      | pattern => exact pattern_firm ih

/-! ## Readings -/

section Readings

open Rill.Stream (Aside Shows)

variable {depth : Nat} {stream : Stream} {tokens rest : List Token}

theorem not_newline_of_expression {after : Stream} {expr : Expr}
    (run : reach depth .expression stream = .ok (expr, after)) :
    stream.current.kind ≠ .newline := by
  intro feed
  cases depth with
  | zero => cases run
  | succ depth =>
      obtain ⟨cond, middle, first, -⟩ := Parser.bind_eq_ok.mp run
      obtain ⟨left, middle, first, -⟩ := Parser.bind_eq_ok.mp first
      obtain ⟨token, middle, look, first⟩ := Parser.bind_eq_ok.mp first
      cases look
      simp only [feed, reduceCtorEq, if_false, UnaryOp.ofKind?] at first
      obtain ⟨object, middle, first, -⟩ := Parser.bind_eq_ok.mp first
      obtain ⟨token, middle, look, first⟩ := Parser.bind_eq_ok.mp first
      cases look
      simp only [feed] at first
      cases first

theorem starts_of_reads {expr : Expr} (reads : Reads (reach depth .expression) tokens expr rest) :
    ∀ token ∈ tokens.head?, token.kind ≠ .newline := by
  obtain ⟨pos, after, run, -⟩ := reads
  intro token first
  have starts := not_newline_of_expression run
  rwa [Stream.current, Stream.ofList, first, Option.getD_some] at starts

theorem reads_in {p p' : Parser Expr} {expr : Expr}
    (follows : FollowsFlat 0 (Expr.relocate (Position.below 0)) p p')
    (reads : Reads p tokens expr rest) (shows_ : stream.Shows tokens) :
    ∃ after, p' stream = .ok (expr, after) ∧ after.Shows rest := by
  obtain ⟨pos, after, run, left⟩ := reads
  have whole : stream.Shows (tokens ++ []) := by rwa [List.append_nil]
  have near := whole.ofList pos
  have mimics : Stream.Mimics 0 [] (Stream.ofList tokens ⟨.endOfInput, "", pos⟩) stream := by
    refine ⟨?_, (whole.longer _).size, shows_.kind, shows_.text⟩
    rw [Token.below_zero, List.map_id]
    exact whole.ahead
  obtain ⟨taken, follow⟩ := follows _ near run
  obtain ⟨bad, -⟩ | ⟨after', run', mimics'⟩ := follow .nil mimics
  · exact bad.elim
  · have ahead : after'.ahead = rest := by
      rw [mimics'.ahead, left, Token.below_zero, List.map_id, List.append_nil]
    rw [Position.below_zero, Expr.relocate_id] at run'
    have genuine := (taken.sound near).genuine
    exact ⟨after', run', ⟨ahead.symm ▸ left ▸ genuine, mimics'.kind, mimics'.text⟩, ahead⟩

/-- A pattern that is read from its tokens is read from them before any token that decides nothing
from behind. -/
theorem pattern_before {pattern : Pattern} (reads : Reads (reach depth .pattern) tokens pattern [])
    {token : Token} (aside : token.kind.aside) (shows_ : stream.Shows (tokens ++ token :: rest)) :
    ∃ after, reach depth .pattern stream = .ok (pattern, after) ∧ after.Shows (token :: rest) := by
  obtain ⟨pos, after, run, left⟩ := reads
  have enduring := (reach_enduring depth).pattern
  obtain ⟨-, endures⟩ := enduring _ (shows_.ofList pos) run
  obtain ⟨bad, -⟩ | ⟨after', run', longer⟩ := endures ⟨token, rest, rfl, aside⟩ (shows_.longer _)
  · exact bad.elim
  · refine ⟨after', run', (enduring _ shows_.toSound run').1.sound shows_.toSound, ?_⟩
    rw [longer.ahead, left, List.nil_append]

end Readings

end Rill.Grammar

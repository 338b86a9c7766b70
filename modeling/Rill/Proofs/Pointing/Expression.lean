import Rill.Proofs.Following.Statement
import Rill.Proofs.Pointing

/-!
# What the positions of expressions point at
-/

set_option autoImplicit false

namespace Rill

def Goal.Everywhere (good : Position → Prop) : {α : Type} → Goal α → α → Prop
  | _, .statement => Stmt.Everywhere good
  | _, .conditional => Stmt.Everywhere good
  | _, .expression => Expr.Everywhere good
  | _, .operation _ => Expr.Everywhere good
  | _, .operand => Expr.Everywhere good
  | _, .pattern => fun _ => True

/-- A way to reach goals gives trees whose positions are those of nested tokens. -/
structure Pointer (whole : String) (reach : Reach) : Prop where
  yields : ∀ {α : Type} (goal : Goal α) (stream : Stream), goal.Open stream →
    YieldsFrom whole stream (goal.Everywhere (StartsToken whole)) (reach goal)

namespace Pointer

variable {whole : String} {reach : Reach}

theorem statement (pointer : Pointer whole reach) :
    Yields whole (Stmt.Everywhere (StartsToken whole)) (reach .statement) :=
  fun stream => pointer.yields .statement stream trivial

theorem expression (pointer : Pointer whole reach) :
    Yields whole (Expr.Everywhere (StartsToken whole)) (reach .expression) :=
  fun stream => pointer.yields .expression stream trivial

theorem operation (pointer : Pointer whole reach) (power : Nat) :
    Yields whole (Expr.Everywhere (StartsToken whole)) (reach (.operation power)) :=
  fun stream => pointer.yields (.operation power) stream trivial

theorem operand (pointer : Pointer whole reach) :
    Yields whole (Expr.Everywhere (StartsToken whole)) (reach .operand) :=
  fun stream => pointer.yields .operand stream trivial

theorem pattern (pointer : Pointer whole reach) :
    Yields whole (fun _ => True) (reach .pattern) :=
  fun stream => pointer.yields .pattern stream trivial

end Pointer

namespace Grammar

variable {whole : String} {reach : Reach}

/-! ## Blocks and functions -/

theorem block_yields (pointer : Pointer whole reach) :
    Yields whole (Block.Everywhere (StartsToken whole)) (block reach) := by
  refine .skips (Yields.expect.bind fun opening ⟨nested, brace⟩ => ?_)
  have place : StartsToken whole opening.pos := nested.starts (brace ▸ nofun)
  refine .gathers (Stmt.Everywhere (StartsToken whole)) (Stmt.EverywhereAll (StartsToken whole)) nofun
    (fun before all => ?_) fun stmts all => .result ⟨all, place⟩
  refine .skips (.eaten (.result ?_) (.checked (.unexpecteds _) ?_))
  · exact Stmt.everywhereAll_iff.mpr (forall_mem_reverse all)
  · exact pointer.statement.bind fun stmt here => .result (List.forall_mem_cons.mpr ⟨here, all⟩)

theorem initialiser_yields (pointer : Pointer whole reach) :
    Yields whole (Expr.Everywhere? (StartsToken whole)) (initialiser reach) :=
  .eaten (.skips (pointer.expression.bind fun _ here => .result here)) (.result trivial)

theorem params_yields (pointer : Pointer whole reach) :
    Yields whole (Binding.EverywhereAll (StartsToken whole)) (params reach) := by
  refine .expects fun _ => ?_
  have item : Yields whole (Binding.Everywhere (StartsToken whole))
      (Parser.identifier >>= fun name => initialiser reach >>= fun value => pure ⟨name, value⟩) :=
    Yields.identifier.bind fun name _ => (initialiser_yields pointer).bind fun value here =>
      .result here
  exact (Yields.listed item).mono fun found all => Binding.everywhereAll_iff.mpr all

theorem functionRest_yields (pointer : Pointer whole reach) (name : Option String) {pos : Position}
    (place : StartsToken whole pos) :
    Yields whole (Function.Everywhere (StartsToken whole)) (functionRest reach name pos) :=
  (params_yields pointer).bind fun _ params => (block_yields pointer).bind fun _ body =>
    .result ⟨params, body, place⟩

/-! ## Collections -/

theorem clauses_yields (pointer : Pointer whole reach) :
    Yields whole (Clause.EverywhereAll (StartsToken whole)) (clauses reach) := by
  refine .loop (fun before (all : ∀ clause ∈ before, clause.Everywhere (StartsToken whole)) => ?_)
    fun _ bad => nomatch bad
  have more (clause : Clause) (here : clause.Everywhere (StartsToken whole)) :
      ∀ found ∈ clause :: before, found.Everywhere (StartsToken whole) :=
    List.forall_mem_cons.mpr ⟨here, all⟩
  have last : Clause.EverywhereAll (StartsToken whole) before.reverse :=
    Clause.everywhereAll_iff.mpr (forall_mem_reverse all)
  refine .skips (.eaten ?_ ?_)
  · exact Yields.identifier.bind fun name _ => .expects fun _ =>
      pointer.expression.bind fun source here => .result (more (.each name source) here)
  · split
    · exact .eaten (pointer.expression.bind fun cond here => .result (more (.only cond) here))
        (.result last)
    · exact .result last

theorem array_yields (pointer : Pointer whole reach) {pos : Position} (place : StartsToken whole pos) :
    Yields whole (Expr.Everywhere (StartsToken whole)) (array reach pos) := by
  refine .skips (.eaten (.result ⟨place, trivial⟩) (pointer.expression.bind fun first here => ?_))
  refine .skips (.checked ?_ ?_)
  · exact (clauses_yields pointer).bind fun found clauses => .skips (.expects fun _ =>
      .result ⟨place, here, clauses⟩)
  · refine .gathers (Expr.Everywhere (StartsToken whole)) (Expr.EverywhereAll (StartsToken whole))
      (List.forall_mem_singleton.mpr here) (fun before all => ?_) fun items all =>
        .expects fun _ => .result ⟨place, all⟩
    have last := Expr.everywhereAll_iff.mpr (forall_mem_reverse all)
    refine .eaten (.skips (.checked (.result last) ?_)) (.result last)
    exact pointer.expression.bind fun item here => .skips
      (.result (List.forall_mem_cons.mpr ⟨here, all⟩))

theorem key_yields (pointer : Pointer whole reach) :
    Yields whole (fun found => found.1.Everywhere (StartsToken whole)
      ∧ found.2.Everywhere (StartsToken whole)) (key reach) := by
  refine fun stream => .of_current fun nested => ?_
  have name : YieldsFrom whole stream _ Parser.memberName :=
    (Yields.memberName stream).alive Stops.memberName
  generalize stream.current = token at nested name
  obtain ⟨kind, text, pos⟩ := token
  have named : YieldsFrom whole stream (fun found => found.1.Everywhere (StartsToken whole)
      ∧ found.2.Everywhere (StartsToken whole))
      (Parser.memberName >>= fun name => pure (Key.name name, Expr.ident pos name)) :=
    name.bind fun _ here => .result ⟨trivial, here.2⟩
  cases kind with
  | text | number => exact Yields.advances (fun _ => .result ⟨trivial, nested.starts nofun⟩) stream
  | mark m =>
      cases m with
      | openBracket =>
          refine Yields.advances (fun _ => .skips ?_) stream
          exact pointer.expression.bind fun key here => .skips (.expects fun _ =>
            .result ⟨here, here⟩)
      | _ => exact named
  | _ => exact named

theorem entryValue_yields (pointer : Pointer whole reach) {found : Key × Expr}
    (meant : found.2.Everywhere (StartsToken whole)) :
    Yields whole (Expr.Everywhere (StartsToken whole)) (entryValue reach found) := by
  obtain ⟨key, expr⟩ := found
  refine .eaten (.skips pointer.expression) ?_
  split
  · exact .result meant
  · exact .unexpected _

theorem record_yields (pointer : Pointer whole reach) {pos : Position} (place : StartsToken whole pos) :
    Yields whole (Expr.Everywhere (StartsToken whole)) (record reach pos) := by
  refine .loop (fun before (all : ∀ entry ∈ before, entry.Everywhere (StartsToken whole)) => ?_)
    fun _ bad => nomatch bad
  have more (entry : Entry) (here : entry.Everywhere (StartsToken whole)) :
      ∀ found ∈ entry :: before, found.Everywhere (StartsToken whole) :=
    List.forall_mem_cons.mpr ⟨here, all⟩
  refine .skips (.eaten (.result ⟨place, Entry.everywhereAll_iff.mpr (forall_mem_reverse all)⟩) ?_)
  refine .eaten (pointer.expression.bind fun source here => .result (more (.spread source) here)) ?_
  refine (key_yields pointer).bind fun found keys => ?_
  refine (entryValue_yields pointer keys.2).bind fun value here => ?_
  refine Yields.pastNewlines.bind fun next _ => ?_
  split
  · refine .skips ((clauses_yields pointer).bind fun clauses each => .skips ?_)
    exact .expects fun _ => .result ⟨place, keys.2, here, each⟩
  · refine Yields.current.bind fun after _ => ?_
    split
    · exact .result (more (.field found.1 value) ⟨keys.1, here⟩)
    · exact .unexpected _

/-! ## Templates -/

theorem real_ofTokens {source : String} {start : Position} {tokens : List Token}
    (inside : Inside whole source start) (read : tokenizeAt source start = .ok tokens) :
    (Stream.ofTokens tokens).Real whole := by
  obtain ⟨front, finish, rfl, genuine⟩ :=
    (Scans.tokenizeAt_eq_ok.mp read).genuine (Position.clamp_placed start)
  have nested : ∀ token ∈ front ++ [⟨.endOfInput, "", finish⟩], token.Nested whole :=
    fun token member => ⟨source, start, _, inside, read, member⟩
  rw [ofTokens_append front rfl]
  exact ⟨⟨genuine, rfl, rfl⟩, fun token member => nested token (List.mem_append_left _ member),
    nested _ (List.mem_append_right _ (List.mem_singleton_self _))⟩

theorem holeExpression_yields (pointer : Pointer whole reach) {pos : Position} {token : Token}
    {pieces : List TemplatePiece} {source : String} (nested : token.Nested whole)
    (template : token.kind = .template pieces) (piece : .hole source pos ∈ pieces) :
    Yields whole (Expr.Everywhere (StartsToken whole)) (holeExpression reach pos) := by
  refine .skips (.checked (.fails (.hole nested template piece)) ?_)
  exact pointer.expression.bind fun expr here => .skips (.checked (.result here) (.unexpected _))

theorem hole_yields (pointer : Pointer whole reach) {pos : Position} {token : Token}
    {pieces : List TemplatePiece} {source : String} (nested : token.Nested whole)
    (template : token.kind = .template pieces) (piece : .hole source pos ∈ pieces) :
    Yields whole (Expr.Everywhere (StartsToken whole)) (hole reach source pos) := by
  intro stream real
  have inside : Inside whole source pos := by
    obtain ⟨outer, start, tokens, within, read, member⟩ := nested
    exact .hole within read member template piece
  unfold hole
  cases read : tokenizeAt source pos with
  | error error =>
      refine ⟨fun _ _ done => (nomatch done), fun error' bad => ?_⟩
      cases bad
      exact .lexical inside read
  | ok tokens =>
      obtain ⟨ok, failed⟩ := holeExpression_yields pointer nested template piece _
        (real_ofTokens inside read)
      simp only
      split
      · next failure run =>
        refine ⟨fun _ _ done => (nomatch done), fun error bad => ?_⟩
        cases bad
        exact failed run
      · next expr after run =>
        refine ⟨fun expr' after' done => ?_, fun error bad => nomatch bad⟩
        cases done
        exact ⟨(ok run).1, real⟩

theorem templateParts_yields (pointer : Pointer whole reach) {token : Token}
    {pieces : List TemplatePiece} (nested : token.Nested whole)
    (template : token.kind = .template pieces) {nonempty : List TemplatePiece}
    (sub : nonempty ⊆ pieces) :
    Yields whole (TemplatePart.EverywhereAll (StartsToken whole)) (templateParts reach nonempty) := by
  induction nonempty with
  | nil => exact .result trivial
  | cons first later ih =>
      obtain ⟨first, later⟩ := List.cons_subset.mp sub
      cases ‹TemplatePiece› with
      | text cooked => exact (ih later).bind fun parts all => .result all
      | hole source pos =>
          exact (hole_yields pointer nested template first).bind fun expr here =>
            (ih later).bind fun parts all => .result ⟨here, all⟩

/-! ## Patterns and matches -/

theorem numberValue_yields {token : Token} (nested : token.Nested whole) :
    Yields whole (fun _ => True) (numberValue token) := by
  unfold numberValue
  split
  · exact .result trivial
  · exact .fail (.token nested rfl)

theorem arrayPattern_yields (pointer : Pointer whole reach) :
    Yields whole (fun _ => True) (arrayPattern reach) := by
  refine .loop (fun before (_ : True) => ?_) trivial
  refine .skips (.eaten (.result trivial) (.eaten ?_ (pointer.pattern.bind fun _ _ => ?_)))
  · exact Yields.identifier.bind fun _ _ => .skips (.expects fun _ => .result trivial)
  · exact .skips (.eaten (.result trivial) (.skips (.expects fun _ => .result trivial)))

theorem patternField_yields (pointer : Pointer whole reach) :
    Yields whole (fun _ => True) (patternField reach) := by
  have rest (key : String) : Yields whole (fun _ => True)
      (Parser.eat (.mark .colon) >>= fun found =>
        if found = true then reach .pattern >>= fun inner => pure (key, inner)
        else pure (key, Pattern.binding key)) :=
    .eaten (pointer.pattern.bind fun _ _ => .result trivial) (.result trivial)
  exact .checked (.advances fun token => rest token.text) (Yields.memberName.bind fun key _ => rest key)

theorem pattern_yields (pointer : Pointer whole reach) :
    Yields whole (fun _ => True) (pattern reach) := by
  refine Yields.current.bind fun token nested => ?_
  have other : Yields whole (fun _ => True) (Parser.fail (.expected .pattern token) : Parser Pattern) :=
    .fail (.token nested rfl)
  have read := numberValue_yields nested
  obtain ⟨kind, text, pos⟩ := token
  cases kind with
  | ident | text => exact .advances fun _ => .result trivial
  | number => exact .advances fun _ => read.bind fun _ _ => .result trivial
  | keyword word =>
      cases word with
      | true_ | false_ | nil_ => exact .advances fun _ => .result trivial
      | _ => exact other
  | mark m =>
      cases m with
      | minus =>
          refine Yields.peek.bind fun next _ => ?_
          split
          · exact .advances fun _ => Yields.advance.bind fun number digits =>
              (numberValue_yields digits).bind fun _ _ => .result trivial
          · exact other
      | openBracket => exact .advances fun _ => arrayPattern_yields pointer
      | openBrace =>
          exact .advances fun _ => (Yields.listed (patternField_yields pointer)).bind fun _ _ =>
            .result trivial
      | _ => exact other
  | _ => exact other

theorem arm_yields (pointer : Pointer whole reach) :
    Yields whole (Arm.Everywhere (StartsToken whole)) (arm reach) := by
  refine .expects fun _ => pointer.pattern.bind fun pattern _ => ?_
  have rest (guard : Option Expr) (here : Expr.Everywhere? (StartsToken whole) guard) :
      Yields whole (Arm.Everywhere (StartsToken whole))
        (Parser.expect (.mark .fatArrow) >>= fun _ => Parser.skipNewlines >>= fun _ =>
          reach .expression >>= fun body => pure ⟨pattern, guard, body⟩) :=
    .expects fun _ => .skips (pointer.expression.bind fun _ body => .result ⟨here, body⟩)
  exact .eaten (pointer.expression.bind fun cond here => rest (some cond) here) (rest none trivial)

theorem matching_yields (pointer : Pointer whole reach) {pos : Position}
    (place : StartsToken whole pos) :
    Yields whole (Expr.Everywhere (StartsToken whole)) (matching reach pos) := by
  refine pointer.expression.bind fun subject here => .skips (.expects fun _ => ?_)
  refine .gathers (Arm.Everywhere (StartsToken whole)) (Arm.EverywhereAll (StartsToken whole)) nofun
    (fun before all => .skips (.eaten (.result ?_) ?_)) fun arms all => .result ⟨place, here, all⟩
  · exact Arm.everywhereAll_iff.mpr (forall_mem_reverse all)
  · exact (arm_yields pointer).bind fun arm here => .result (List.forall_mem_cons.mpr ⟨here, all⟩)

/-! ## Operands -/

theorem arrowBody_yields (pointer : Pointer whole reach) {params : List Binding}
    (given : Binding.EverywhereAll (StartsToken whole) params) {pos : Position}
    (place : StartsToken whole pos) :
    Yields whole (Expr.Everywhere (StartsToken whole)) (arrowBody reach params pos) :=
  .skips (.checked
    ((block_yields pointer).bind fun _ body => .result ⟨place, given, body, place⟩)
    (pointer.expression.bind fun _ body => .result ⟨place, given, body, place⟩))

theorem parenthesised_yields (pointer : Pointer whole reach) {pos : Position}
    (place : StartsToken whole pos) :
    Yields whole (Expr.Everywhere (StartsToken whole)) (parenthesised reach pos) := by
  have ahead : Yields whole (fun _ => True) arrowAhead := by
    intro stream real
    refine ⟨fun found after done => ?_, fun error bad => nomatch bad⟩
    cases done
    exact ⟨trivial, real⟩
  refine ahead.bind fun arrow _ => ?_
  split
  · exact (params_yields pointer).bind fun params given => .expects fun _ =>
      arrowBody_yields pointer given place
  · exact .advances fun _ => .skips (pointer.expression.bind fun inner here =>
      .skips (.expects fun _ => .result here))

theorem named_yields (pointer : Pointer whole reach) {token : Token}
    (place : StartsToken whole token.pos) :
    Yields whole (Expr.Everywhere (StartsToken whole)) (named reach token) := by
  have given : Binding.EverywhereAll (StartsToken whole) [⟨token.text, none⟩] := ⟨trivial, trivial⟩
  exact .advances fun _ => .eaten (arrowBody_yields pointer given place) (.result place)

theorem functionLiteral_yields (pointer : Pointer whole reach) {pos : Position}
    (place : StartsToken whole pos) :
    Yields whole (Expr.Everywhere (StartsToken whole)) (functionLiteral reach pos) := by
  have rest (name : Option String) : Yields whole (Expr.Everywhere (StartsToken whole))
      (functionRest reach name pos >>= fun fn => pure (.function pos fn)) :=
    (functionRest_yields pointer name place).bind fun fn here => .result ⟨place, here⟩
  exact .checked (Yields.identifier.bind fun name _ => rest (some name)) (rest none)

theorem superReference_yields {pos : Position} (place : StartsToken whole pos) :
    Yields whole (Expr.Everywhere (StartsToken whole)) (superReference pos) :=
  .eaten (Yields.memberName.bind fun _ _ => .result place) (.result place)

theorem primary_yields (pointer : Pointer whole reach) :
    Yields whole (Expr.Everywhere (StartsToken whole)) (primary reach) := by
  refine Yields.current.bind fun token nested => ?_
  have other : Yields whole (Expr.Everywhere (StartsToken whole))
      (Parser.fail (.expected .expression token) : Parser Expr) := .fail (.token nested rfl)
  have place : token.kind ≠ .endOfInput → StartsToken whole token.pos := nested.starts
  have read := numberValue_yields nested
  have parts (pieces : List TemplatePiece) (template : token.kind = .template pieces) :=
    templateParts_yields pointer nested template (List.Subset.refl pieces)
  obtain ⟨kind, text, pos⟩ := token
  cases kind with
  | number => exact .advances fun _ => read.bind fun _ _ => .result (place nofun)
  | text => exact .advances fun _ => .result (place nofun)
  | template pieces =>
      exact .advances fun _ => (parts pieces rfl).bind fun _ all => .result ⟨place nofun, all⟩
  | ident => exact named_yields pointer (place nofun)
  | keyword word =>
      cases word with
      | true_ | false_ | nil_ => exact .advances fun _ => .result (place nofun)
      | func_ => exact .advances fun _ => functionLiteral_yields pointer (place nofun)
      | match_ => exact .advances fun _ => matching_yields pointer (place nofun)
      | super_ => exact .advances fun _ => superReference_yields (place nofun)
      | _ => exact other
  | mark m =>
      cases m with
      | openParen => exact parenthesised_yields pointer (place nofun)
      | openBracket => exact .advances fun _ => array_yields pointer (place nofun)
      | openBrace => exact .advances fun _ => record_yields pointer (place nofun)
      | _ => exact other
  | _ => exact other

theorem memberAccess_yields {object : Expr} (inner : object.Everywhere (StartsToken whole))
    {pos : Position} (place : StartsToken whole pos) (optional : Bool) :
    Yields whole (Expr.Everywhere (StartsToken whole)) (memberAccess object pos optional) :=
  .advances fun _ => Yields.memberName.bind fun _ _ => .result ⟨place, inner⟩

theorem link_yields (pointer : Pointer whole reach) {object : Expr}
    (inner : object.Everywhere (StartsToken whole)) :
    Yields whole (Parser.Round.All (Expr.Everywhere (StartsToken whole))
      (Expr.Everywhere (StartsToken whole))) (link reach object) := by
  refine Yields.current.bind fun token nested => ?_
  obtain ⟨kind, text, pos⟩ := token
  cases kind with
  | newline =>
      refine Yields.pastNewlines.bind fun next _ => ?_
      split
      · exact .skips (.result inner)
      · exact .result inner
  | mark m =>
      have place : StartsToken whole pos := nested.starts nofun
      cases m with
      | openParen =>
          exact .advances fun _ => (Yields.listed pointer.expression).bind fun args all =>
            .result ⟨place, inner, Expr.everywhereAll_iff.mpr all⟩
      | dot => exact (memberAccess_yields inner place false).bind fun _ here => .result here
      | questionDot => exact (memberAccess_yields inner place true).bind fun _ here => .result here
      | openBracket =>
          exact .advances fun _ => .skips (pointer.expression.bind fun index here =>
            .skips (.expects fun _ => .result ⟨place, inner, here⟩))
      | _ => exact .result inner
  | _ => exact .result inner

theorem chain_yields (pointer : Pointer whole reach) :
    Yields whole (Expr.Everywhere (StartsToken whole)) (chain reach) :=
  (primary_yields pointer).bind fun _ inner => .loop (fun _ inner => link_yields pointer inner)
    inner

theorem operand_yields (pointer : Pointer whole reach) :
    Yields whole (Expr.Everywhere (StartsToken whole)) (operand reach) := by
  refine Yields.current.bind fun token nested => ?_
  split
  · next dots =>
    exact .advances fun _ => pointer.operand.bind fun inner here =>
      .result ⟨nested.starts (dots ▸ nofun), here⟩
  · split
    · next op sign =>
      have place : StartsToken whole token.pos := nested.starts fun finish => by
        rw [finish] at sign
        exact nomatch sign
      exact .advances fun _ => pointer.operand.bind fun inner here => .result ⟨place, here⟩
    · exact chain_yields pointer

/-! ## Expressions -/

theorem operation_yields (pointer : Pointer whole reach) (power : Nat) :
    Yields whole (Expr.Everywhere (StartsToken whole)) (operation reach power) := by
  refine (operand_yields pointer).bind fun left here => .loop (fun left here => ?_) here
  refine Yields.current.bind fun token _ => ?_
  split
  · exact .result here
  · split
    · exact .result here
    · exact .advances fun _ => .skips ((pointer.operation _).bind fun right there =>
        .result ⟨here.here, here, there⟩)

theorem expression_yields (pointer : Pointer whole reach) :
    Yields whole (Expr.Everywhere (StartsToken whole)) (expression reach) := by
  refine (operation_yields pointer 0).bind fun cond here => .eaten (.skips ?_) (.result here)
  exact pointer.expression.bind fun yes first => .skips (.expects fun _ => .skips
    (pointer.expression.bind fun no second => .result ⟨here.here, here, first, second⟩))

end Grammar

end Rill

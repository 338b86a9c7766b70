import Rill.Proofs.Concatenation
import Rill.Proofs.Pointing.Expression

/-!
# What the positions of statements and programs point at
-/

set_option autoImplicit false

namespace Rill

namespace Grammar

variable {whole : String} {reach : Reach}

/-! ## Declarations -/

theorem destructure_yields : Yields whole (fun _ => True) destructure := by
  refine Yields.advances fun opening => ?_
  split
  · exact (Yields.listed Yields.identifier).bind fun _ _ => .result trivial
  · exact (Yields.listed Yields.identifier).bind fun _ _ => .result trivial

theorem declared_yields (pointer : Pointer whole reach) (constant : Bool) :
    Yields whole (Binding.EverywhereAll (StartsToken whole)) (declared reach constant) := by
  refine .loop (fun before (all : ∀ binding ∈ before, binding.Everywhere (StartsToken whole)) => ?_)
    fun _ bad => nomatch bad
  refine Yields.current.bind fun token nested => Yields.identifier.bind fun name _ =>
    (initialiser_yields pointer).bind fun value here => ?_
  have more : ∀ found ∈ (⟨name, value⟩ : Binding) :: before, found.Everywhere (StartsToken whole) :=
    List.forall_mem_cons.mpr ⟨here, all⟩
  split
  · exact .fails (.token nested rfl)
  · exact .eaten (.skips (.result more))
      (.result (Binding.everywhereAll_iff.mpr (forall_mem_reverse more)))

theorem declaration_yields (pointer : Pointer whole reach) (constant : Bool) {pos : Position}
    (place : StartsToken whole pos) :
    Yields whole (Stmt.Everywhere (StartsToken whole)) (declaration reach constant pos) := by
  refine .advances fun _ => Yields.current.bind fun token _ => ?_
  split
  · exact destructure_yields.bind fun names _ => .expects fun _ => .skips
      (pointer.expression.bind fun value here => .result ⟨place, here⟩)
  · exact (declared_yields pointer constant).bind fun bindings all => .result ⟨place, all⟩

/-! ## Assignments -/

theorem checkTarget_yields {target : Expr} (here : target.Everywhere (StartsToken whole)) :
    Yields whole (fun _ => True) (checkTarget target) := by
  unfold checkTarget
  split
  · exact .result trivial
  · obtain ⟨token, -, -, -, nested, place, -⟩ := here.here
    exact .fail (.token nested place.symm)

theorem assignment_yields (pointer : Pointer whole reach) (stream : Stream) :
    YieldsFrom whole stream (Stmt.Everywhere (StartsToken whole))
      (assignment reach stream.current.pos) := by
  refine ((expression_yields pointer stream).alive (expression_dead reach)).bind
    fun target ⟨here, place⟩ => Yields.current.bind fun token nested => ?_
  have checked := checkTarget_yields here
  split
  · next op step =>
    have sign : StartsToken whole token.pos := nested.starts fun finish => by
      rw [finish] at step
      exact nomatch step
    exact .advances fun _ => checked.bind fun _ _ => .result ⟨place, here, sign⟩
  · exact .advances fun _ => checked.bind fun _ _ => .skips
      (pointer.expression.bind fun value there => .result ⟨place, here, there⟩)
  · exact .result ⟨place, here⟩

theorem simple_yields (pointer : Pointer whole reach) :
    Yields whole (Stmt.Everywhere (StartsToken whole)) (simple reach) := by
  refine fun stream => .of_current fun nested => ?_
  have assign := assignment_yields pointer stream
  generalize stream.current = token at nested assign
  obtain ⟨kind, text, pos⟩ := token
  cases kind with
  | keyword word =>
      have place : StartsToken whole pos := nested.starts nofun
      cases word with
      | let_ | const_ => exact declaration_yields pointer _ place stream
      | _ => exact assign
  | _ => exact assign

/-! ## Conditions and loops -/

theorem conditional_yields (pointer : Pointer whole reach) {stream : Stream}
    (shown : stream.current.kind ≠ .endOfInput) :
    YieldsFrom whole stream (Stmt.Everywhere (StartsToken whole)) (conditional reach) := by
  refine .advanced shown fun opening place => pointer.expression.bind fun cond test =>
    (block_yields pointer).bind fun yes body => .belated nofun (fun other start => ?_)
      (.result ⟨place, test, body, trivial⟩)
  refine fun stream => .checked (fun here => ?_) ?_
  · exact (pointer.yields .conditional stream here).bind fun inner all =>
      .result ⟨place, test, body, all⟩
  · exact (block_yields pointer).bind (fun no other => .result ⟨place, test, body, start, other⟩) stream

theorem optional_yields {α : Type} {good : α → Prop} {stop : Mark} {part : Parser α}
    (yields : Yields whole good part) :
    Yields whole (fun found => ∀ x ∈ found, good x) (optional stop part) :=
  .checked (.result nofun) (yields.bind fun x here => .result (by simpa using here))

theorem Expr.everywhere?_of {good : Position → Prop} {found : Option Expr}
    (all : ∀ expr ∈ found, expr.Everywhere good) : Expr.Everywhere? good found := by
  cases found with
  | none => trivial
  | some expr => exact all expr rfl

theorem Stmt.everywhere?_of {good : Position → Prop} {found : Option Stmt}
    (all : ∀ stmt ∈ found, stmt.Everywhere good) : Stmt.Everywhere? good found := by
  cases found with
  | none => trivial
  | some stmt => exact all stmt rfl

theorem counting_yields (pointer : Pointer whole reach) {pos : Position} (place : StartsToken whole pos)
    (inParens : Bool) :
    Yields whole (Stmt.Everywhere (StartsToken whole)) (counting reach pos inParens) := by
  refine (optional_yields (simple_yields pointer)).bind fun init first => .expects fun _ => ?_
  refine (optional_yields pointer.expression).bind fun cond test => .expects fun _ => ?_
  refine (optional_yields (simple_yields pointer)).bind fun post last => ?_
  have rest : Yields whole (Stmt.Everywhere (StartsToken whole))
      (block reach >>= fun body => pure (.for_ pos init cond post body)) :=
    (block_yields pointer).bind fun body all => .result
      ⟨place, Stmt.everywhere?_of first, Expr.everywhere?_of test, Stmt.everywhere?_of last, all⟩
  split
  · exact .expects fun _ => rest
  · exact rest

theorem forLoop_yields (pointer : Pointer whole reach) {stream : Stream}
    (shown : stream.current.kind ≠ .endOfInput) :
    YieldsFrom whole stream (Stmt.Everywhere (StartsToken whole)) (forLoop reach) := by
  refine .advanced shown fun opening place => (Yields.eat _).bind fun inParens _ =>
    (Yields.check _).bind fun name _ => Yields.peek.bind fun next _ => ?_
  split
  · refine Yields.identifier.bind fun name _ => .advances fun _ => pointer.expression.bind
      fun source here => ?_
    have rest : Yields whole (Stmt.Everywhere (StartsToken whole))
        (block reach >>= fun body => pure (.forIn opening.pos name source body)) :=
      (block_yields pointer).bind fun body all => .result ⟨place, here, all⟩
    split
    · exact .expects fun _ => rest
    · exact rest
  · exact counting_yields pointer place inParens

/-! ## Guards -/

theorem caughtName_yields : Yields whole (fun _ => True) caughtName :=
  .eaten (Yields.identifier.bind fun _ _ => .expects fun _ => .result trivial)
    (.checked Yields.identifier (.result trivial))

theorem guarded_yields (pointer : Pointer whole reach) {stream : Stream}
    (shown : stream.current.kind ≠ .endOfInput) :
    YieldsFrom whole stream (Stmt.Everywhere (StartsToken whole)) (guarded reach) := by
  refine .advanced shown fun opening place => (block_yields pointer).bind fun body all => ?_
  have bare : (ParseError.invalid opening.pos .bareTry).Located whole := by
    obtain ⟨token, -, -, -, nested, same, -⟩ := place
    exact .token nested same.symm
  have ends (handler : Option Handler) (cleanup : Option Block)
      (caught : Handler.Everywhere? (StartsToken whole) handler)
      (last : Block.Everywhere? (StartsToken whole) cleanup) :
      Yields whole (Stmt.Everywhere (StartsToken whole)) (do
        if handler.isNone && cleanup.isNone then Parser.fail (.invalid opening.pos .bareTry)
        return .try_ opening.pos body handler cleanup) := by
    split
    · exact .fails bare
    · exact .result ⟨place, all, caught, last⟩
  refine .belated nofun (fun _ _ => ?_) ?_
  · refine caughtName_yields.bind fun name _ => (block_yields pointer).bind fun handler caught => ?_
    exact .belated nofun (fun _ _ => (block_yields pointer).bind fun cleanup last =>
      ends (some ⟨name, handler⟩) (some cleanup) caught last)
      (ends (some ⟨name, handler⟩) none caught trivial)
  · exact .belated nofun (fun _ _ => (block_yields pointer).bind fun cleanup last =>
      ends none (some cleanup) trivial last) (ends none none trivial trivial)

/-! ## Classes -/

theorem method_yields (pointer : Pointer whole reach) {pos : Position} (place : StartsToken whole pos) :
    Yields whole (Function.Everywhere (StartsToken whole)) (method reach pos) :=
  Yields.identifier.bind fun name _ => functionRest_yields pointer (some name) place

theorem fields_yields (pointer : Pointer whole reach) :
    Yields whole (Binding.EverywhereAll (StartsToken whole)) (fields reach) := by
  refine .loop (fun before (all : ∀ binding ∈ before, binding.Everywhere (StartsToken whole)) => ?_)
    fun _ bad => nomatch bad
  refine Yields.identifier.bind fun name _ => (initialiser_yields pointer).bind fun value here => ?_
  have more : ∀ found ∈ (⟨name, value⟩ : Binding) :: before, found.Everywhere (StartsToken whole) :=
    List.forall_mem_cons.mpr ⟨here, all⟩
  exact .eaten (.result more) (.result (Binding.everywhereAll_iff.mpr (forall_mem_reverse more)))

def MembersEverywhere (good : Position → Prop) (done : List Binding × List Function) : Prop :=
  Binding.EverywhereAll good done.1 ∧ Function.EverywhereAll good done.2

theorem classMember_yields (pointer : Pointer whole reach) {done : List Binding × List Function}
    (all : MembersEverywhere (StartsToken whole) done) :
    Yields whole (Parser.Round.All (MembersEverywhere (StartsToken whole))
      (MembersEverywhere (StartsToken whole))) (classMember reach done) := by
  refine .skips (Yields.current.bind fun token nested => ?_)
  have other : Yields whole (Parser.Round.All (MembersEverywhere (StartsToken whole))
      (MembersEverywhere (StartsToken whole))) (Parser.fail (.expected .classMember token)) :=
    .fail (.token nested rfl)
  have method (place : StartsToken whole token.pos) :
      Yields whole (Parser.Round.All (MembersEverywhere (StartsToken whole))
        (MembersEverywhere (StartsToken whole)))
        (method reach token.pos >>= fun fn => pure (.again (done.1, done.2 ++ [fn]))) := by
    refine (method_yields pointer place).bind fun fn here => .result ⟨all.1, ?_⟩
    exact Function.everywhereAll_iff.mpr (List.forall_mem_append.mpr
      ⟨Function.everywhereAll_iff.mp all.2, List.forall_mem_singleton.mpr here⟩)
  have place : token.kind ≠ .endOfInput → StartsToken whole token.pos := nested.starts
  obtain ⟨kind, text, pos⟩ := token
  cases kind with
  | keyword word =>
      cases word with
      | let_ | const_ =>
          refine .advances fun _ => (fields_yields pointer).bind fun found here =>
            .result ⟨?_, all.2⟩
          exact Binding.everywhereAll_iff.mpr (List.forall_mem_append.mpr
            ⟨Binding.everywhereAll_iff.mp all.1, Binding.everywhereAll_iff.mp here⟩)
      | func_ => exact .advances fun _ => method (place nofun)
      | _ => exact other
  | mark m =>
      cases m with
      | closeBrace => exact .advances fun _ => .result all
      | _ => exact other
  | ident =>
      refine Yields.peek.bind fun next _ => ?_
      split
      · exact .advances fun _ => method (place nofun)
      · split
        · exact method (place nofun)
        · exact other
  | _ => exact other

theorem classDeclaration_yields (pointer : Pointer whole reach) {stream : Stream}
    (shown : stream.current.kind ≠ .endOfInput) :
    YieldsFrom whole stream (ClassDecl.Everywhere (StartsToken whole)) (classDeclaration reach) := by
  refine .advanced shown fun opening place => Yields.identifier.bind fun name _ => ?_
  have nothing : MembersEverywhere (StartsToken whole) ([], []) := ⟨trivial, trivial⟩
  have rest (parent : Option String) : Yields whole (ClassDecl.Everywhere (StartsToken whole))
      (Parser.skipNewlines >>= fun _ => Parser.expect (.mark .openBrace) >>= fun _ =>
        Parser.loop (classMember reach) ([], []) >>= fun members =>
          pure ⟨name, parent, members.1, members.2, opening.pos⟩) :=
    .skips (.expects fun _ => (Yields.loop (fun _ all => classMember_yields pointer all)
      nothing).bind fun members all => .result ⟨all.1, all.2, place⟩)
  exact .eaten (Yields.identifier.bind fun parent _ => rest (some parent)) (rest .none)

theorem importing_yields {pos : Position} (place : StartsToken whole pos) :
    Yields whole (Stmt.Everywhere (StartsToken whole)) (importing pos) := by
  exact .expects fun path => .eaten (Yields.identifier.bind fun _ _ => .result place)
    (.result place)

/-! ## Statements -/

theorem statement_yields (pointer : Pointer whole reach) :
    Yields whole (Stmt.Everywhere (StartsToken whole)) (statement reach) := by
  refine fun stream => .of_current fun nested => ?_
  have assign := assignment_yields pointer stream
  have branch : _ → YieldsFrom whole stream _ _ := conditional_yields pointer
  have loop : _ → YieldsFrom whole stream _ _ := forLoop_yields pointer
  have guard : _ → YieldsFrom whole stream _ _ := guarded_yields pointer
  have decl : _ → YieldsFrom whole stream _ _ := classDeclaration_yields pointer
  generalize stream.current = token at nested assign branch loop guard decl
  obtain ⟨kind, text, pos⟩ := token
  cases kind with
  | keyword word =>
      have place : StartsToken whole pos := nested.starts nofun
      cases word with
      | let_ | const_ => exact declaration_yields pointer _ place stream
      | func_ =>
          refine .peeked fun next => ?_
          split
          · exact Yields.advances (fun _ => (method_yields pointer place).bind fun fn here =>
              .result ⟨place, here⟩) stream
          · exact assign
      | class_ => exact (decl nofun).bind fun decl here => .result ⟨place, here⟩
      | if_ => exact branch nofun
      | while_ =>
          exact Yields.advances (fun _ => pointer.expression.bind fun cond test =>
            (block_yields pointer).bind fun body all => .result ⟨place, test, all⟩) stream
      | for_ => exact loop nofun
      | return_ =>
          refine Yields.advances (fun _ => Yields.current.bind fun next _ => ?_) stream
          split
          · exact .result ⟨place, trivial⟩
          · exact pointer.expression.bind fun value here => .result ⟨place, here⟩
      | break_ | continue_ => exact Yields.advances (fun _ => .result (by exact place)) stream
      | try_ => exact guard nofun
      | throw_ =>
          exact Yields.advances (fun _ => pointer.expression.bind fun value here =>
            .result ⟨place, here⟩) stream
      | import_ => exact Yields.advances (fun _ => importing_yields place) stream
      | _ => exact assign
  | mark m =>
      cases m with
      | openBrace =>
          have place : StartsToken whole pos := nested.starts nofun
          exact (block_yields pointer).bind (fun block all => .result ⟨place, all⟩) stream
      | _ => exact assign
  | _ => exact assign

/-! ## Goals -/

theorem reach_points (whole : String) (depth : Nat) :
    Pointer whole fun goal => Grammar.reach depth goal := by
  induction depth with
  | zero => exact ⟨fun _ _ _ => Yields.exhausted _⟩
  | succ depth pointer =>
      refine ⟨fun goal stream open_ => ?_⟩
      cases goal with
      | statement => exact statement_yields pointer stream
      | conditional =>
          have here : stream.current.kind = .keyword .if_ := open_
          exact conditional_yields pointer (by rw [here]; exact nofun)
      | expression => exact expression_yields pointer stream
      | operation power => exact operation_yields pointer power stream
      | operand => exact operand_yields pointer stream
      | pattern => exact pattern_yields pointer stream

theorem statements_yields (pointer : Pointer whole reach) :
    Yields whole (Stmt.EverywhereAll (StartsToken whole)) (statements reach) := by
  refine .loop (fun before (all : ∀ stmt ∈ before, stmt.Everywhere (StartsToken whole)) => ?_)
    fun _ bad => nomatch bad
  refine .skips (.checked (.result (Stmt.everywhereAll_iff.mpr (forall_mem_reverse all))) ?_)
  exact pointer.statement.bind fun stmt here => .result (List.forall_mem_cons.mpr ⟨here, all⟩)

end Grammar

/-! ## Programs -/

theorem ParseError.Located.errorAt {text : String} {error : ParseError}
    (located : error.Located text) : ErrorAt text error := by
  cases located with
  | token nested place => exact nested.errorAt place
  | hole nested template piece =>
      obtain ⟨before, after, hole, place⟩ := nested.holeAt template piece
      exact .holeStart hole place
  | lexical inside fails => exact inside.errorAt fails

namespace Program

theorem ofTokens_eq_error {tokens : List Token} {dir : String} {error : ParseError}
    (failed : ofTokens tokens dir = .error error) :
    Grammar.statements (fun goal => Grammar.reach (Grammar.depthBound tokens) goal)
        (Stream.ofTokens tokens) = .error (.error error)
      ∨ error.pos = (Stream.ofTokens tokens).finish.pos := by
  unfold ofTokens at failed
  simp only at failed
  split at failed
  · exact nomatch failed
  · next error' run =>
    cases failed
    exact .inl run
  · cases failed
    exact .inr rfl

/-- Every position in a program is that of a character of the text, counted on from its start, at
which a token of the text or of a hole in it starts, and an error stands at such a token, at the
end of the text or of a hole, at the start of a hole, or where a source cannot be read. -/
theorem parse_points (text dir : String) :
    match parse text dir with
    | .ok program => program.Everywhere (StartsToken text)
    | .error error => ErrorAt text error := by
  cases read : tokenize text with
  | error error =>
      have failed : parse text dir = .error (.lexical error) := by rw [parse, read]
      rw [failed]
      exact Inside.whole.errorAt read
  | ok tokens =>
      have same : parse text dir = ofTokens tokens dir := by rw [parse, read]
      have real : (Stream.ofTokens tokens).Real text := Grammar.real_ofTokens .whole read
      obtain ⟨ok, failed⟩ := Grammar.statements_yields
        (Grammar.reach_points text (Grammar.depthBound tokens)) _ real
      rw [same]
      cases done : ofTokens tokens dir with
      | ok program =>
          obtain ⟨-, after, run⟩ := ofTokens_eq_ok.mp done
          exact (ok run).1
      | error error =>
          rcases ofTokens_eq_error done with run | place
          · exact (failed run).errorAt
          · exact real.ends.errorAt place

/-- The empty hole of a template that stands in a hole on the second line. -/
example : parse "`a\n$\x7b`$\x7b\x7d`\x7d`" "" = .error (.invalid ⟨2, 6⟩ .emptyHole) := by cbv

end Program

end Rill

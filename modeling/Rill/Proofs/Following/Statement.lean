import Rill.Proofs.Following.Expression

/-!
# Statements on a longer text
-/

set_option autoImplicit false

namespace Rill.Grammar

variable {lines : Nat} {reach reach' : Reach}

/-! ## Declarations -/

theorem destructure_follows {near : Stream} {token : Token} {rest : List Token}
    (front : near.ahead = token :: rest)
    (kind : token.kind = .mark .openBracket ∨ token.kind = .mark .openBrace) :
    FollowsFrom lines near (fun _ => 0) (fun _ => False) id destructure destructure := by
  have names {close : Mark} (closes : (TokenKind.mark close).weight = -1) :
      FollowsBy lines (fun _ => -1) (fun _ => False) id (Parser.listed close Parser.identifier)
        (Parser.listed close Parser.identifier) := by
    have listed : FollowsBy lines _ _ (List.map id) _ _ :=
      .listed closes .identifier Stops.identifier
    rwa [List.map_id_fun] at listed
  obtain ⟨kind', text, pos⟩ := token
  rcases kind with rfl | rfl
  · exact .advance front ((names rfl).bind (fun found => .result rfl rfl) fun _ bad => bad.elim)
  · exact .advance front ((names rfl).bind (fun found => .result rfl rfl) fun _ bad => bad.elim)

theorem declared_dead (reach : Reach) (constant : Bool) : Dead (declared reach constant) :=
  .loop (fun _ => .currents fun _ _ => .identifiers) []

theorem declared_follows (follower : Follower lines reach reach') (constant : Bool) :
    FollowsFlat lines (Binding.relocateAll (Position.below lines)) (declared reach constant)
      (declared reach' constant) := by
  refine .loop (Binding.relocateAll (Position.below lines)) (fun done => ?_)
    (fun _ => .currents fun _ _ => .identifiers) []
  refine .currents (.currents fun _ _ => .identifiers) fun near token rest front => .of ?_
  refine .then .identifier fun name => .then (initialiser_follows follower) fun value => ?_
  have goesOn : FollowsBy lines (Parser.Round.opens 0) (Parser.Round.spare fun _ => False)
      (Parser.Round.map (Binding.relocateAll (Position.below lines))
        (Binding.relocateAll (Position.below lines)))
      (do if ← Parser.eat (.mark .comma) then
            Parser.skipNewlines
            return .again (⟨name, value⟩ :: done)
          else return .done (Binding.mk name value :: done).reverse)
      (do if ← Parser.eat (.mark .comma) then
            Parser.skipNewlines
            return .again (⟨name, Expr.relocate? (Position.below lines) value⟩
              :: Binding.relocateAll (Position.below lines) done)
          else return .done (Binding.mk name (Expr.relocate? (Position.below lines) value)
            :: Binding.relocateAll (Position.below lines) done).reverse) := by
    refine .eat rfl (.skipNewlines (.result rfl rfl) (.result trivial)) (.result rfl ?_)
    simp only [Binding.relocateAll_eq_map, Parser.Round.map, List.map_reverse, List.map_cons,
      Binding.relocate]
  cases constant with
  | false => exact goesOn
  | true =>
      cases value with
      | none => exact .failed _
      | some value => exact goesOn

theorem declaration_follows (follower : Follower lines reach reach') {near : Stream} {token : Token}
    {rest : List Token} (front : near.ahead = token :: rest) (flat : token.kind.weight = 0)
    (constant : Bool) (pos : Position) :
    FollowsFrom lines near (fun _ => 0) (fun _ => False) (Stmt.relocate (Position.below lines))
      (declaration reach constant pos) (declaration reach' constant (pos.below lines)) := by
  refine .advanceFlat front flat ?_
  refine .currents ?_ fun near token rest front => ?_
  · refine .currents fun token kind => ?_
    rcases kind with kind | kind <;>
      (simp only [kind, reduceCtorEq, or_self, if_false]; exact (declared_dead reach constant).bind)
  · have bracket : token.kind.below lines = .mark .openBracket ↔ _ :=
      TokenKind.below_eq_iff lines rfl _
    have brace : token.kind.below lines = .mark .openBrace ↔ _ := TokenKind.below_eq_iff lines rfl _
    simp only [Token.below, bracket, brace]
    split
    · next kind =>
      refine (destructure_follows front kind).bind (fun names => .cast (.expects rfl fun _ => ?_)
        fun _ => (Int.sub_zero 0)) fun _ bad => bad.elim
      exact .skipNewlines (.then follower.expression fun value => .result rfl rfl)
        (follower.dead .expression).bind
    · exact .of (.then (declared_follows follower constant) fun found => .result rfl rfl)

/-! ## Assignments -/

theorem isTarget_relocate (place : Position → Position) (target : Expr) :
    isTarget (target.relocate place) = isTarget target := by
  cases target with
  | member pos object name optional => cases optional <;> rfl
  | _ => rfl

theorem checkTarget_follows (target : Expr) :
    FollowsFlat lines id (checkTarget target)
      (checkTarget (target.relocate (Position.below lines))) := by
  unfold checkTarget
  rw [isTarget_relocate]
  split
  · exact .result rfl rfl
  · exact .fail _

theorem weight_of_step {kind : TokenKind} {op : AssignOp} (found : AssignOp.ofStep? kind = some op) :
    kind.weight = 0 := by
  cases kind with
  | mark m => cases m <;> first | rfl | exact nomatch found
  | _ => rfl

theorem weight_of_assign {kind : TokenKind} {op : AssignOp}
    (found : AssignOp.ofKind? kind = some op) : kind.weight = 0 := by
  cases kind with
  | mark m => cases m <;> first | rfl | exact nomatch found
  | _ => rfl

theorem expression_dead (reach : Reach) : Dead (expression reach) :=
  Dead.bind (Dead.bind (operand_dead reach))

theorem assignment_dead (reach : Reach) (pos : Position) : Dead (assignment reach pos) :=
  (expression_dead reach).bind

theorem assignment_follows (follower : Follower lines reach reach') (pos : Position) :
    FollowsFlat lines (Stmt.relocate (Position.below lines)) (assignment reach pos)
      (assignment reach' (pos.below lines)) := by
  refine .then (expression_follows follower) fun target => .of_current
    (fun near token token' empty kind kind' => .of ?_) fun near token rest front => ?_
  · rcases kind' with kind' | kind' <;>
      simp only [kind, kind', AssignOp.ofStep?, AssignOp.ofKind?] <;> exact .result rfl rfl
  · have steps : AssignOp.ofStep? (token.below lines).kind = AssignOp.ofStep? token.kind := by
      obtain ⟨kind, text, pos⟩ := token
      cases kind <;> rfl
    have assigns : AssignOp.ofKind? (token.below lines).kind = AssignOp.ofKind? token.kind := by
      obtain ⟨kind, text, pos⟩ := token
      cases kind <;> rfl
    rw [steps, assigns]
    cases step : AssignOp.ofStep? token.kind with
    | some op =>
        exact .advanceFlat front (weight_of_step step)
          (.then (checkTarget_follows target) fun _ => .result rfl rfl)
    | none =>
        cases assign : AssignOp.ofKind? token.kind with
        | none => exact .of (.result rfl rfl)
        | some op =>
            refine .advanceFlat front (weight_of_assign assign)
              (.then (checkTarget_follows target) fun _ => ?_)
            exact .skipNewlines (.then follower.expression fun value => .result rfl rfl)
              (follower.dead .expression).bind

theorem simple_dead (reach : Reach) : Dead (simple reach) :=
  .currents fun token kind => by
    rcases kind with kind | kind <;> (simp only [kind]; exact assignment_dead reach _)

theorem simple_follows (follower : Follower lines reach reach') :
    FollowsFlat lines (Stmt.relocate (Position.below lines)) (simple reach) (simple reach') := by
  refine .currents (simple_dead reach) fun near token rest front => ?_
  obtain ⟨kind, text, pos⟩ := token
  cases kind with
  | keyword word =>
      cases word with
      | let_ | const_ => exact declaration_follows follower front rfl _ pos
      | _ => exact .of (assignment_follows follower pos)
  | _ => exact .of (assignment_follows follower pos)

/-! ## Control -/

theorem conditional_dead (follower : Follower lines reach reach') : Dead (conditional reach) :=
  Stops.advance.bind fun _ _ => (follower.dead .expression).bind

theorem conditional_follows (follower : Follower lines reach reach') {near : Stream} {token : Token}
    {rest : List Token} (front : near.ahead = token :: rest) (kind : token.kind = .keyword .if_) :
    FollowsFrom lines near (fun _ => 0) (fun _ => False) (Stmt.relocate (Position.below lines))
      (conditional reach) (conditional reach') := by
  refine .advanceFlat front (by rw [kind]; rfl) ?_
  refine .then follower.expression fun cond => .then (block_follows follower) fun yes => ?_
  refine .belated rfl (by decide) (fun opening => ?_) (.result rfl rfl)
  refine .check rfl (fun near token rest front here => ?_) ?_
  · have open_ : near.current.kind = .keyword .if_ := by rw [Stream.current_of_front front, here]
    exact (follower.follows .conditional near open_).bind (fun more => .result rfl rfl)
      fun _ bad => bad.elim
  · exact .then (block_follows follower) fun no => .result rfl rfl

theorem optional_follows {α β : Type} {image : α → β} {part : Parser α} {part' : Parser β}
    (stop : Mark) (follows : FollowsFlat lines image part part') :
    FollowsFlat lines (Option.map image) (optional stop part) (optional stop part') :=
  .check rfl (fun _ _ _ _ _ => .of (.result rfl rfl)) (.then follows fun _ => .result rfl rfl)

theorem counting_follows (follower : Follower lines reach reach') (pos : Position)
    (inParens : Bool) :
    FollowsBy lines (fun _ => if inParens then -1 else 0) (fun _ => False)
      (Stmt.relocate (Position.below lines)) (counting reach pos inParens)
      (counting reach' (pos.below lines) inParens) := by
  refine .then (optional_follows _ (simple_follows follower)) fun init => .expects rfl fun _ => ?_
  refine .then (optional_follows _ follower.expression) fun cond => .expects rfl fun _ => ?_
  refine .then (optional_follows _ (simple_follows follower)) fun post => ?_
  have loop (body : Block) : Stmt.for_ (pos.below lines) (init.map (Stmt.relocate (Position.below lines)))
      (cond.map (Expr.relocate (Position.below lines))) (post.map (Stmt.relocate (Position.below lines)))
      (body.relocate (Position.below lines))
      = (Stmt.for_ pos init cond post body).relocate (Position.below lines) := by
    simp only [Stmt.relocate, Stmt.relocate?_eq_map, Expr.relocate?_eq_map]
  cases inParens with
  | true => exact .expects rfl fun _ => .then (block_follows follower) fun body => .result rfl (loop body)
  | false => exact .then (block_follows follower) fun body => .result rfl (loop body)

theorem forHead_follows (follower : Follower lines reach reach') (pos : Position)
    (inParens : Bool) :
    FollowsBy lines (fun _ => if inParens then -1 else 0) (fun _ => False)
      (Stmt.relocate (Position.below lines))
      (do
        if (← Parser.check .ident) && (← Parser.peek).kind = .keyword .in_ then
          let name ← Parser.identifier
          let _ ← Parser.advance
          let source ← reach .expression
          if inParens then
            let _ ← Parser.expect (.mark .closeParen)
          let body ← block reach
          return .forIn pos name source body
        else counting reach pos inParens)
      (do
        if (← Parser.check .ident) && (← Parser.peek).kind = .keyword .in_ then
          let name ← Parser.identifier
          let _ ← Parser.advance
          let source ← reach' .expression
          if inParens then
            let _ ← Parser.expect (.mark .closeParen)
          let body ← block reach'
          return .forIn (pos.below lines) name source body
        else counting reach' (pos.below lines) inParens) := by
  have each (name : String) : FollowsBy lines (fun _ => if inParens then -1 else 0) (fun _ => False)
      (Stmt.relocate (Position.below lines))
      (do
        let source ← reach .expression
        if inParens then
          let _ ← Parser.expect (.mark .closeParen)
        let body ← block reach
        return .forIn pos name source body)
      (do
        let source ← reach' .expression
        if inParens then
          let _ ← Parser.expect (.mark .closeParen)
        let body ← block reach'
        return .forIn (pos.below lines) name source body) := by
    refine .then follower.expression fun source => ?_
    cases inParens with
    | true => exact .expects rfl fun _ => .then (block_follows follower) fun body => .result rfl rfl
    | false => exact .then (block_follows follower) fun body => .result rfl rfl
  refine .checked rfl (fun near first rest front here => ?_) (counting_follows follower pos inParens)
  simp only [Bool.true_and, decide_eq_true_eq]
  refine .peek rfl front (fun second rest' later in_ => ?_)
    (.of (counting_follows follower pos inParens))
  refine .identifierOn front here ?_
  have front' : near.tail.ahead = second :: rest' := by
    show near.ahead.tail = second :: rest'
    rw [front, later, List.tail_cons]
  exact .advanceFlat front' (by rw [in_]; rfl) (each first.text)

theorem forLoop_follows (follower : Follower lines reach reach') {near : Stream} {token : Token}
    {rest : List Token} (front : near.ahead = token :: rest) (flat : token.kind.weight = 0) :
    FollowsFrom lines near (fun _ => 0) (fun _ => False) (Stmt.relocate (Position.below lines))
      (forLoop reach) (forLoop reach') :=
  .advanceFlat front flat (.eaten rfl (forHead_follows follower token.pos true)
    (forHead_follows follower token.pos false))

theorem caughtName_follows : FollowsFlat lines id caughtName caughtName :=
  .eat rfl (.then .identifier fun _ => .expects rfl fun _ => .result rfl rfl)
    (.check rfl (fun _ _ _ _ _ => .of .identifier) (.result rfl rfl))

theorem guarded_follows (follower : Follower lines reach reach') {near : Stream} {token : Token}
    {rest : List Token} (front : near.ahead = token :: rest) (flat : token.kind.weight = 0) :
    FollowsFrom lines near (fun _ => 0) (fun _ => False) (Stmt.relocate (Position.below lines))
      (guarded reach) (guarded reach') := by
  refine .advanceFlat front flat (.then (block_follows follower) fun body => ?_)
  have ends (handler : Option Handler) (cleanup : Option Block) :
      FollowsFlat lines (Stmt.relocate (Position.below lines))
        (do
          if handler.isNone && cleanup.isNone then Parser.fail (.invalid token.pos .bareTry)
          return .try_ token.pos body handler cleanup)
        (do
          if (Handler.relocate? (Position.below lines) handler).isNone
              && (Block.relocate? (Position.below lines) cleanup).isNone then
            Parser.fail (.invalid (token.pos.below lines) .bareTry)
          return .try_ (token.pos.below lines) (body.relocate (Position.below lines))
            (Handler.relocate? (Position.below lines) handler)
            (Block.relocate? (Position.below lines) cleanup)) := by
    simp only [Handler.isNone_relocate?, Block.isNone_relocate?]
    split
    · exact .failed _
    · exact .result rfl rfl
  refine .belated rfl (by decide) (fun _ => ?_) ?_
  · refine .then caughtName_follows fun name => .then (block_follows follower) fun handler => ?_
    exact .belated rfl (by decide) (fun _ => .then (block_follows follower) fun cleanup =>
      ends (some ⟨name, handler⟩) (some cleanup)) (ends (some ⟨name, handler⟩) none)
  · exact .belated rfl (by decide) (fun _ => .then (block_follows follower) fun cleanup =>
      ends none (some cleanup)) (ends none none)

/-! ## Classes -/

theorem method_follows (follower : Follower lines reach reach') (pos : Position) :
    FollowsFlat lines (Function.relocate (Position.below lines)) (method reach pos)
      (method reach' (pos.below lines)) :=
  .then .identifier fun name => functionRest_follows follower (some name) pos

theorem fields_follows (follower : Follower lines reach reach') :
    FollowsFlat lines (Binding.relocateAll (Position.below lines)) (fields reach) (fields reach') := by
  refine .loop (Binding.relocateAll (Position.below lines)) (fun done => ?_)
    (fun _ => .identifiers) []
  refine .then .identifier fun name => .then (initialiser_follows follower) fun value => ?_
  refine .eat rfl (.result rfl rfl) (.result rfl ?_)
  simp only [Binding.relocateAll_eq_map, Parser.Round.map, List.map_reverse, List.map_cons,
    Binding.relocate, id_eq]

/-- The fields and the methods of a class that are read so far, with each position replaced. -/
def relocateMembers (place : Position → Position) (done : List Binding × List Function) :
    List Binding × List Function :=
  (Binding.relocateAll place done.1, Function.relocateAll place done.2)

theorem relocateMembers_field (place : Position → Position) (done : List Binding × List Function)
    (fields : List Binding) :
    relocateMembers place (done.1 ++ fields, done.2)
      = ((relocateMembers place done).1 ++ Binding.relocateAll place fields,
          (relocateMembers place done).2) := by
  simp only [relocateMembers, Binding.relocateAll_eq_map, List.map_append]

theorem relocateMembers_method (place : Position → Position) (done : List Binding × List Function)
    (fn : Function) :
    relocateMembers place (done.1, done.2 ++ [fn])
      = ((relocateMembers place done).1, (relocateMembers place done).2 ++ [fn.relocate place]) := by
  simp only [relocateMembers, Function.relocateAll_eq_map, List.map_append, List.map_singleton]

theorem classMember_stops (reach : Reach) (done : List Binding × List Function) :
    Stops (Parser.Round.spare fun _ => False) (classMember reach done) :=
  .skips (.currents fun token kind => by
    rcases kind with kind | kind <;> (simp only [kind]; exact Dead.fail _))

theorem classMember_follows (follower : Follower lines reach reach')
    (done : List Binding × List Function) :
    FollowsBy lines (Parser.Round.opens (-1)) (Parser.Round.spare fun _ => False)
      (Parser.Round.map (relocateMembers (Position.below lines))
        (relocateMembers (Position.below lines)))
      (classMember reach done) (classMember reach' (relocateMembers (Position.below lines) done)) := by
  refine .skips (.separators lines) (.currents (.currents fun token kind => ?_)
    fun near token rest front => ?_) (.currents fun token kind => ?_)
  · rcases kind with kind | kind <;> (simp only [kind]; exact Dead.fail _)
  rotate_left
  · rcases kind with kind | kind <;> (simp only [kind]; exact Dead.fail _)
  obtain ⟨kind, text, pos⟩ := token
  have methods : FollowsFlat lines (Function.relocate (Position.below lines)) (method reach pos)
    (method reach' (pos.below lines)) := method_follows follower pos
  cases kind with
  | keyword word =>
      cases word with
      | let_ | const_ =>
          exact .advance front (.then (fields_follows follower) fun found => .result rfl
            (congrArg _ (relocateMembers_field _ done found).symm))
      | func_ =>
          exact .advance front (.then methods fun fn => .result rfl
            (congrArg _ (relocateMembers_method _ done fn).symm))
      | _ => exact .of (.fail _)
  | mark m =>
      cases m with
      | closeBrace => exact .advance front (.result rfl rfl)
      | _ => exact .of (.fail _)
  | ident =>
      have method : FollowsBy lines (Parser.Round.opens (-1)) (Parser.Round.spare fun _ => False)
          (Parser.Round.map (relocateMembers (Position.below lines))
            (relocateMembers (Position.below lines)))
          (method reach pos >>= fun fn => pure (.again (done.1, done.2 ++ [fn])))
          (method reach' (pos.below lines) >>= fun fn =>
            pure (.again ((relocateMembers (Position.below lines) done).1,
              (relocateMembers (Position.below lines) done).2 ++ [fn]))) :=
        .then methods fun fn => .result rfl (congrArg _ (relocateMembers_method _ done fn).symm)
      refine .of_peek front (fun token token' kind kind' => .of ?_) fun second rest' later => ?_
      · simp only [kind, reduceCtorEq, and_false, if_false]
        exact .fail _
      · have name : second.kind.below lines = .ident ↔ _ := TokenKind.below_eq_iff lines rfl _
        have paren : second.kind.below lines = .mark .openParen ↔ _ :=
          TokenKind.below_eq_iff lines rfl _
        simp only [Token.below, name, paren]
        split
        · exact .advanceFlat front rfl method
        split
        · exact .of method
        · exact .of (.fail _)
  | _ => exact .of (.fail _)

theorem classDeclaration_follows (follower : Follower lines reach reach') {near : Stream}
    {token : Token} {rest : List Token} (front : near.ahead = token :: rest)
    (flat : token.kind.weight = 0) :
    FollowsFrom lines near (fun _ => 0) (fun _ => False) (ClassDecl.relocate (Position.below lines))
      (classDeclaration reach) (classDeclaration reach') := by
  refine .advanceFlat front flat (.then .identifier fun name => ?_)
  refine .announced rfl rfl .identifier fun parent => ?_
  refine .skipNewlines (.expects rfl fun _ => ?_) (.expects rfl)
  rw [Option.map_id]
  exact (FollowsBy.loop (relocateMembers (Position.below lines)) (classMember_follows follower)
    (classMember_stops reach) ([], [])).bind (fun members => .result rfl rfl) fun _ bad => bad.elim

theorem importing_follows (pos : Position) :
    FollowsFlat lines (Stmt.relocate (Position.below lines)) (importing pos)
      (importing (pos.below lines)) :=
  .expects rfl fun path => .announced rfl rfl .identifier fun name =>
    .result rfl (by rw [Option.map_id]; rfl)

/-! ## Statements -/

theorem statement_dead (reach : Reach) : Dead (statement reach) :=
  .currents fun token kind => by
    rcases kind with kind | kind <;> (simp only [kind]; exact assignment_dead reach _)

theorem isTerminator_below (lines : Nat) (kind : TokenKind) :
    (kind.below lines).isTerminator = kind.isTerminator := by
  cases kind <;> rfl

theorem returning_follows (follower : Follower lines reach reach') (pos : Position) :
    FollowsFlat lines (Stmt.relocate (Position.below lines))
      (Parser.current >>= fun token =>
        if token.kind.isTerminator = true then pure (.return_ pos none)
        else reach .expression >>= fun value => pure (.return_ pos (some value)))
      (Parser.current >>= fun token =>
        if token.kind.isTerminator = true then pure (.return_ (pos.below lines) none)
        else reach' .expression >>= fun value => pure (.return_ (pos.below lines) (some value))) := by
  refine .of_current (fun near token token' empty kind kind' => .of ?_) fun near token rest _ => .of ?_
  · have ends : token.kind.isTerminator = true := by rw [kind]; rfl
    have ends' : token'.kind.isTerminator = true := by
      rcases kind' with kind' | kind' <;> (rw [kind']; rfl)
    rw [if_pos ends, if_pos ends']
    exact .result rfl rfl
  · rw [Token.below, isTerminator_below]
    split
    · exact .result rfl rfl
    · exact .then follower.expression fun value => .result rfl rfl

theorem statement_follows (follower : Follower lines reach reach') :
    FollowsFlat lines (Stmt.relocate (Position.below lines)) (statement reach) (statement reach') := by
  refine .currents (statement_dead reach) fun near token rest front => ?_
  obtain ⟨kind, text, pos⟩ := token
  cases kind with
  | keyword word =>
      cases word with
      | let_ | const_ => exact declaration_follows follower front rfl _ pos
      | func_ =>
          exact .peek rfl front (fun _ _ _ _ => .advance front (.then (method_follows follower pos)
            fun fn => .result rfl rfl)) (.of (assignment_follows follower pos))
      | class_ =>
          exact (classDeclaration_follows follower front rfl).bind (fun decl => .result rfl rfl)
            fun _ bad => bad.elim
      | if_ => exact conditional_follows follower front rfl
      | while_ =>
          exact .advance front (.then follower.expression fun cond => .then (block_follows follower)
            fun body => .result rfl rfl)
      | for_ => exact forLoop_follows follower front rfl
      | return_ => exact .advance front (returning_follows follower pos)
      | break_ | continue_ => exact .advance front (.result rfl rfl)
      | try_ => exact guarded_follows follower front rfl
      | throw_ => exact .advance front (.then follower.expression fun value => .result rfl rfl)
      | import_ => exact .advance front (importing_follows pos)
      | _ => exact .of (assignment_follows follower pos)
  | mark m =>
      cases m with
      | openBrace => exact .of (.then (block_follows follower) fun block => .result rfl rfl)
      | _ => exact .of (assignment_follows follower pos)
  | _ => exact .of (assignment_follows follower pos)

/-! ## Goals -/

theorem reach_follows (lines : Nat) {depth depth' : Nat} (le : depth ≤ depth') :
    Follower lines (fun goal => Grammar.reach depth goal) (fun goal => Grammar.reach depth' goal) := by
  induction depth generalizing depth' with
  | zero => exact ⟨fun _ _ _ _ _ _ done => (nomatch done), fun _ _ _ _ _ done => (nomatch done)⟩
  | succ depth ih =>
      obtain ⟨depth', rfl⟩ : ∃ n, depth' = n + 1 := ⟨depth' - 1, by omega⟩
      have follower := ih (Nat.le_of_succ_le_succ le)
      constructor
      · intro α goal near open_
        cases goal with
        | statement => exact statement_follows follower near
        | conditional =>
            have open_ : near.current.kind = .keyword .if_ := open_
            intro sound
            obtain ⟨rest, front⟩ := Stream.front_of_current sound (by rw [open_]; exact nofun)
            exact conditional_follows follower front open_ sound
        | expression => exact expression_follows follower near
        | operation power => exact operation_follows follower power near
        | operand => exact operand_follows follower near
        | pattern => exact pattern_follows follower near
      · intro α goal
        cases goal with
        | statement => exact statement_dead _
        | conditional => exact conditional_dead follower
        | expression => exact expression_dead _
        | operation power => exact Dead.bind (operand_dead _)
        | operand => exact operand_dead _
        | pattern => exact pattern_dead _

end Rill.Grammar

import Rill.Proofs.Following.Collection

/-!
# Patterns and expressions on a longer text

The one production that looks further ahead than a token or a line is the choice between an arrow
function and a group: it searches for the bracket that closes the one ahead. In a group that is read
to its end all brackets close, so that the search does not leave the group either.
-/

set_option autoImplicit false

namespace Rill.Grammar

variable {lines : Nat} {reach reach' : Reach}

/-! ## Patterns -/

theorem arrayPattern_follows (follower : Follower lines reach reach') :
    FollowsBy lines (fun _ => -1) (fun _ => False) id (arrayPattern reach) (arrayPattern reach') := by
  refine .skipLoop (.newlines lines) id (fun done => ?_) (fun done => ?_) []
  · refine .eat rfl (.result rfl rfl) (.eat rfl ?_ (.then follower.pattern fun element => ?_))
    · exact .then .identifier fun rest =>
        .skipNewlines (.expects rfl fun _ => .result rfl rfl) (.expects rfl)
    · refine .skipNewlines (.eat rfl (.result rfl rfl) ?_) (.eats rfl (.skips (.expects rfl)))
      exact .skipNewlines (.expects rfl fun _ => .result rfl rfl) (.expects rfl)
  · exact .eats rfl (.eats rfl (follower.dead .pattern).bind)

theorem patternField_dead (reach : Reach) : Dead (patternField reach) :=
  .checks rfl (Dead.bind Stops.memberName)

theorem patternField_follows (follower : Follower lines reach reach') :
    FollowsFlat lines id (patternField reach) (patternField reach') := by
  have value (key : String) : FollowsFlat lines id
      (do if ← Parser.eat (.mark .colon) then return (key, ← reach .pattern)
          return (key, .binding key))
      (do if ← Parser.eat (.mark .colon) then return (key, ← reach' .pattern)
          return (key, .binding key)) :=
    .eat rfl (.then follower.pattern fun _ => .result rfl rfl) (.result rfl rfl)
  refine .check rfl (fun near token rest front here => ?_) (.then .memberName value)
  refine .advance front ((value token.text).cast fun _ => ?_)
  rw [here]
  rfl

theorem numberValue_follows (token : Token) :
    FollowsFlat lines id (numberValue token) (numberValue (token.below lines)) := by
  cases read : Number.read token.text with
  | none =>
      simp only [numberValue, read]
      exact .fail _
  | some value =>
      simp only [numberValue, Token.below, read]
      exact .result rfl rfl

theorem pattern_dead (reach : Reach) : Dead (pattern reach) :=
  .currents fun token kind => by
    rcases kind with kind | kind <;> (simp only [kind]; exact Dead.fail _)

theorem pattern_follows (follower : Follower lines reach reach') :
    FollowsFlat lines id (pattern reach) (pattern reach') := by
  refine .currents (pattern_dead reach) fun near token rest front => ?_
  obtain ⟨kind, text, pos⟩ := token
  cases kind with
  | ident | text => exact .advance front (.result rfl rfl)
  | number => exact .advance front (.then (numberValue_follows _) fun _ => .result rfl rfl)
  | keyword word =>
      cases word with
      | true_ | false_ | nil_ => exact .advance front (.result rfl rfl)
      | _ => exact .of (.fail _)
  | mark m =>
      cases m with
      | openBracket => exact .advance front (arrayPattern_follows follower)
      | openBrace =>
          refine .advance front ((FollowsBy.listed rfl (patternField_follows follower)
            (patternField_dead reach)).bind (fun fields => .result rfl ?_) fun _ bad => bad.elim)
          rw [List.map_id]
          rfl
      | minus =>
          refine .peek rfl front (fun second rest' later here => ?_) (.of (.fail _))
          have front' : near.tail.ahead = second :: rest' := by
            show near.ahead.tail = _
            rw [front, later]
            rfl
          refine .advanceOn front (.advance front' (.then (numberValue_follows _) fun value => ?_))
          exact .result (by rw [here]; rfl) rfl
      | _ => exact .of (.fail _)
  | _ => exact .of (.fail _)

theorem arm_dead (reach : Reach) : Dead (arm reach) := .expects rfl

theorem arm_follows (follower : Follower lines reach reach') :
    FollowsFlat lines (Arm.relocate (Position.below lines)) (arm reach) (arm reach') := by
  refine .expects rfl fun _ => .then follower.pattern fun pattern => ?_
  refine .announced rfl rfl follower.expression fun guard => .expects rfl fun _ => ?_
  refine .skipNewlines (.then follower.expression fun body => .result rfl ?_)
    (follower.dead .expression).bind
  cases guard <;> rfl

theorem matching_follows (follower : Follower lines reach reach') (pos : Position) :
    FollowsFlat lines (Expr.relocate (Position.below lines)) (matching reach pos)
      (matching reach' (pos.below lines)) := by
  refine .then follower.expression fun subject => .skipNewlines (.expects rfl fun _ => ?_)
    (.expects rfl)
  refine .skipLoops (.entrySeparators lines) (Arm.relocateAll (Position.below lines))
    (Arm.relocateAll (Position.below lines)) (-1) (fun done => ?_) (fun done => ?_)
    fun arms => .result rfl rfl
  · refine .eat rfl (.result rfl ?_) (.then (arm_follows follower) fun next => .result rfl rfl)
    simp only [Arm.relocateAll_eq_map, Parser.Round.map, List.map_reverse]
  · exact .eats rfl (arm_dead reach).bind

/-! ## Operands -/

theorem arrowBody_follows (follower : Follower lines reach reach') (params : List Binding)
    (pos : Position) :
    FollowsFlat lines (Expr.relocate (Position.below lines)) (arrowBody reach params pos)
      (arrowBody reach' (Binding.relocateAll (Position.below lines) params) (pos.below lines)) := by
  refine .skipNewlines (.check rfl (fun near token rest front here => ?_) ?_) ?_
  · exact .of (.then (block_follows follower) fun body => .result rfl rfl)
  · exact .then follower.expression fun body => .result rfl rfl
  · exact .checks rfl (follower.dead .expression).bind

theorem named_follows (follower : Follower lines reach reach') {near : Stream} {token : Token}
    {rest : List Token} (front : near.ahead = token :: rest) (kind : token.kind = .ident) :
    FollowsFrom lines near (fun _ => 0) (fun _ => False) (Expr.relocate (Position.below lines))
      (named reach token) (named reach' (token.below lines)) := by
  refine .advance front ?_
  rw [kind]
  exact .eat rfl (arrowBody_follows follower [⟨token.text, none⟩] token.pos) (.result rfl rfl)

theorem functionLiteral_follows (follower : Follower lines reach reach') (pos : Position) :
    FollowsFlat lines (Expr.relocate (Position.below lines)) (functionLiteral reach pos)
      (functionLiteral reach' (pos.below lines)) := by
  have rest (name : Option String) : FollowsFlat lines (Expr.relocate (Position.below lines))
      (functionRest reach name pos >>= fun fn => pure (.function pos fn))
      (functionRest reach' name (pos.below lines) >>= fun fn =>
        pure (.function (pos.below lines) fn)) :=
    .then (functionRest_follows follower name pos) fun fn => .result rfl rfl
  exact .check rfl (fun near token more front here => .of (.then .identifier fun name =>
    rest (some name))) (rest none)

theorem superReference_follows (pos : Position) :
    FollowsFlat lines (Expr.relocate (Position.below lines)) (superReference pos)
      (superReference (pos.below lines)) :=
  .announced rfl rfl .memberName fun name => .result rfl (by cases name <;> rfl)

/-! ## Arrow functions -/

theorem arrowAfterClose_cons (depth : Nat) (token : Token) (rest : List Token) :
    arrowAfterClose depth (token :: rest) =
      if token.kind.weight = 1 then arrowAfterClose (depth + 1) rest
      else if token.kind.weight = -1 then
        if depth = 0 then false
        else if depth = 1 then rest.head?.map Token.kind == some (.mark .fatArrow)
        else arrowAfterClose (depth - 1) rest
      else arrowAfterClose depth rest := by
  obtain ⟨kind, text, pos⟩ := token
  cases kind with
  | mark m => cases m <;> rfl
  | _ => rfl

theorem arrow_append {more : List Token} (seam : Stream.Seam more) (rest : List Token) :
    ((rest.map (Token.below lines) ++ more).head?.map Token.kind == some (.mark .fatArrow))
      = (rest.head?.map Token.kind == some (.mark .fatArrow)) := by
  cases rest with
  | cons token rest =>
      obtain ⟨kind, text, pos⟩ := token
      cases kind <;> rfl
  | nil =>
      cases more with
      | nil => rfl
      | cons feed rest =>
          have kind := (seam.feed feed rfl).1
          simp [kind]

theorem arrowAfterClose_append {more : List Token} (seam : Stream.Seam more) (left : List Token)
    (taken : List Token) {depth : Nat} (open_ : 0 < depth) (closes : depth + netOpen taken ≤ 0) :
    arrowAfterClose depth ((taken ++ left).map (Token.below lines) ++ more)
      = arrowAfterClose depth (taken ++ left) := by
  induction taken generalizing depth with
  | nil =>
      rw [netOpen_nil] at closes
      omega
  | cons token rest ih =>
      rw [netOpen_cons] at closes
      have weight : (token.below lines).kind.weight = token.kind.weight :=
        TokenKind.weight_below lines token.kind
      rw [List.cons_append, List.map_cons, List.cons_append, arrowAfterClose_cons,
        arrowAfterClose_cons, weight]
      split
      · next opens => exact ih (Nat.succ_pos depth) (by omega)
      split
      · next shuts =>
        split
        · rfl
        split
        · exact arrow_append seam _
        · exact ih (by omega) (by omega)
      · next flat =>
        have : token.kind.weight = 0 := by
          obtain ⟨kind, text, pos⟩ := token
          cases kind with
          | mark m => cases m <;> first | rfl | contradiction
          | _ => rfl
        exact ih open_ (by omega)

theorem arrowAfterClose_true {more : List Token} (seam : Stream.Seam more) (tokens : List Token)
    {depth : Nat} (arrow : arrowAfterClose depth tokens = true) :
    arrowAfterClose depth (tokens.map (Token.below lines) ++ more) = true := by
  induction tokens generalizing depth with
  | nil => exact nomatch arrow
  | cons token rest ih =>
      have weight : (token.below lines).kind.weight = token.kind.weight :=
        TokenKind.weight_below lines token.kind
      rw [arrowAfterClose_cons] at arrow
      rw [List.map_cons, List.cons_append, arrowAfterClose_cons, weight]
      split at arrow
      · next opens =>
        rw [if_pos opens]
        exact ih arrow
      next notOpen =>
      rw [if_neg notOpen]
      split at arrow
      · next shuts =>
        rw [if_pos shuts]
        split at arrow
        · exact nomatch arrow
        next inside =>
        rw [if_neg inside]
        split at arrow
        · next last =>
          rw [if_pos last, arrow_append seam]
          exact arrow
        · next deeper =>
          rw [if_neg deeper]
          exact ih arrow
      · next notClose =>
        rw [if_neg notClose]
        exact ih arrow

/-- The choice between an arrow function and a group. The brackets of a group close before the near
stream ends, so that the search for an arrow ends there as well. -/
theorem arrows_follow {α β : Type} {spare : α → Prop} {image : α → β} {p r : Parser α}
    {q r' : Parser β} {near : Stream} {token : Token} {rest : List Token}
    (front : near.ahead = token :: rest) (kind : token.kind = .mark .openParen)
    (arrow : FollowsBy lines (fun _ => 0) spare image p q)
    (group : FollowsBy lines (fun _ => -1) spare image r r') :
    FollowsFrom lines near (fun _ => 0) spare image
      (arrowAhead >>= fun found => if found = true then p else Parser.advance >>= fun _ => r)
      (arrowAhead >>= fun found => if found = true then q else Parser.advance >>= fun _ => r') := by
  intro sound x after done
  have run : (if arrowAfterClose 0 near.ahead = true then p else Parser.advance >>= fun _ => r) near
    = .ok (x, after) := done
  by_cases found : arrowAfterClose 0 near.ahead = true
  · rw [if_pos found] at run
    obtain ⟨taken, follow⟩ := arrow near sound run
    refine ⟨taken, fun more far seam mimics => (follow seam mimics).imp_right ?_⟩
    rintro ⟨far', run', mimics'⟩
    have found' : arrowAfterClose 0 far.ahead = true :=
      mimics.ahead ▸ arrowAfterClose_true seam near.ahead found
    exact ⟨far', (congrFun (if_pos found') far).trans run', mimics'⟩
  · rw [if_neg found] at run
    have step : FollowsFrom lines near (fun _ => 0) spare image (Parser.advance >>= fun _ => r)
        (Parser.advance >>= fun _ => r') :=
      .advance front (group.cast fun _ => by rw [kind]; rfl)
    obtain ⟨taken, follow⟩ := step sound run
    refine ⟨taken, fun more far seam mimics => (follow seam mimics).imp_right ?_⟩
    rintro ⟨far', run', mimics'⟩
    obtain ⟨⟨⟨inner, split⟩, -, -, opens⟩, -⟩ :=
      group near.tail ((Stream.Taken.tail front).sound sound) run
    have tail : near.tail.ahead = rest := by
      show near.ahead.tail = rest
      rw [front, List.tail_cons]
    rw [tail] at split opens
    have closes : netOpen inner = -1 := by
      rw [← split, netOpen_append] at opens
      change _ = _ + (-1 : Int) at opens
      omega
    have found' : ¬ arrowAfterClose 0 far.ahead = true := by
      have weight : (token.below lines).kind.weight = 1 := by
        rw [Token.below, TokenKind.weight_below, kind]
        rfl
      rw [front, arrowAfterClose_cons, kind, if_pos (by rfl), ← split] at found
      rw [mimics.ahead, front, List.map_cons, List.cons_append, arrowAfterClose_cons, if_pos weight,
        ← split, arrowAfterClose_append seam _ _ (Nat.succ_pos 0) (by omega)]
      exact found
    exact ⟨far', (congrFun (if_neg found') far).trans run', mimics'⟩

theorem parenthesised_follows (follower : Follower lines reach reach') {near : Stream}
    {token : Token} {rest : List Token} (front : near.ahead = token :: rest)
    (kind : token.kind = .mark .openParen) (pos : Position) :
    FollowsFrom lines near (fun _ => 0) (fun _ => False) (Expr.relocate (Position.below lines))
      (parenthesised reach pos) (parenthesised reach' (pos.below lines)) := by
  refine arrows_follow front kind ?_ ?_
  · exact .then (params_follows follower) fun found => .expects rfl fun _ =>
      arrowBody_follows follower found pos
  · refine .skipNewlines (.then follower.expression fun inner => ?_) (follower.dead .expression).bind
    exact .skipNewlines (.expects rfl fun _ => .result rfl rfl) (.expects rfl)

/-! ## Chains and operators -/

theorem primary_dead (reach : Reach) : Dead (primary reach) :=
  .currents fun token kind => by
    rcases kind with kind | kind <;> (simp only [kind]; exact Dead.fail _)

theorem primary_follows (follower : Follower lines reach reach') :
    FollowsFlat lines (Expr.relocate (Position.below lines)) (primary reach) (primary reach') := by
  refine .currents (primary_dead reach) fun near token rest front => ?_
  obtain ⟨kind, text, pos⟩ := token
  cases kind with
  | ident => exact named_follows follower front rfl
  | text => exact .advance front (.result rfl rfl)
  | number => exact .advance front (.then (numberValue_follows _) fun _ => .result rfl rfl)
  | template pieces =>
      refine .genuine front fun genuine => .advance front ?_
      exact .then (templateParts_follows follower pieces fun _ _ => genuine.hole_placed rfl)
        fun parts => .result rfl rfl
  | keyword word =>
      cases word with
      | true_ | false_ | nil_ => exact .advance front (.result rfl rfl)
      | func_ => exact .advance front (functionLiteral_follows follower pos)
      | match_ => exact .advance front (matching_follows follower pos)
      | super_ => exact .advance front (superReference_follows pos)
      | _ => exact .of (.fail _)
  | mark m =>
      cases m with
      | openParen => exact parenthesised_follows follower front rfl pos
      | openBracket => exact .advance front (array_follows follower pos)
      | openBrace => exact .advance front (record_follows follower pos)
      | _ => exact .of (.fail _)
  | _ => exact .of (.fail _)

theorem memberAccess_follows {near : Stream} {token : Token} {rest : List Token}
    (front : near.ahead = token :: rest) (flat : token.kind.weight = 0) (object : Expr)
    (pos : Position) (optional : Bool) :
    FollowsFrom lines near (fun _ => 0) (fun _ => False) (Expr.relocate (Position.below lines))
      (memberAccess object pos optional)
      (memberAccess (object.relocate (Position.below lines)) (pos.below lines) optional) := by
  refine .advance front (.then .memberName fun name => .result ?_ rfl)
  rw [flat]
  rfl

theorem link_follows (follower : Follower lines reach reach') (object : Expr) :
    FollowsBy lines (Parser.Round.opens 0) (fun _ => False)
      (Parser.Round.map (Expr.relocate (Position.below lines))
        (Expr.relocate (Position.below lines)))
      (link reach object) (link reach' (object.relocate (Position.below lines))) := by
  have only : ∀ kind : TokenKind, kind = .mark .dot ∨ kind = .mark .questionDot →
      kind.continues := by
    rintro kind (rfl | rfl) <;> decide
  refine .of_current (fun near token token' empty kind kind' => ?_)
    fun near token rest front => ?_
  · rcases kind' with kind' | kind' <;> simp only [kind, kind']
    · exact .fresh only empty (.result rfl rfl)
    · exact .of (.result rfl rfl)
  · obtain ⟨kind, text, pos⟩ := token
    cases kind with
    | newline =>
        exact .of (.fresh only (fun near left _ => .skipNewlines left (.result rfl rfl))
          (.result rfl rfl))
    | mark m =>
        cases m with
        | dot | questionDot =>
            exact (memberAccess_follows front rfl object pos _).bind
              (fun found => .result rfl rfl) fun _ bad => bad.elim
        | openParen =>
            refine .advance front (.bind (.listed rfl follower.expression (follower.dead _))
              (fun args => .result rfl ?_) fun _ bad => bad.elim)
            rw [← Expr.relocateAll_eq_map]
            rfl
        | openBracket =>
            refine .advance front (.skipNewlines (.then follower.expression fun index => ?_)
              (follower.dead .expression).bind)
            exact .skipNewlines (.expects rfl fun _ => .result rfl rfl) (.expects rfl)
        | _ => exact .of (.result rfl rfl)
    | _ => exact .of (.result rfl rfl)

theorem chain_follows (follower : Follower lines reach reach') :
    FollowsFlat lines (Expr.relocate (Position.below lines)) (chain reach) (chain reach') :=
  .then (primary_follows follower) fun object =>
    .steadyLoop (Expr.relocate (Position.below lines)) (link_follows follower) object

theorem operand_dead (reach : Reach) : Dead (operand reach) :=
  .currents fun token kind => by
    rcases kind with kind | kind <;>
      (simp only [kind, reduceCtorEq, if_false, UnaryOp.ofKind?]; exact (primary_dead reach).bind)

theorem operand_follows (follower : Follower lines reach reach') :
    FollowsFlat lines (Expr.relocate (Position.below lines)) (operand reach) (operand reach') := by
  refine .currents (operand_dead reach) fun near token rest front => ?_
  obtain ⟨kind, text, pos⟩ := token
  cases kind with
  | mark m =>
      cases m with
      | ellipsis | minus | plus | bang | tilde =>
          exact .advance front (.then follower.operand fun inner => .result rfl rfl)
      | _ => exact .of (chain_follows follower)
  | _ => exact .of (chain_follows follower)

theorem weight_of_operator {kind : TokenKind} {op : BinaryOp}
    (found : BinaryOp.ofKind? kind = some op) : kind.weight = 0 := by
  cases kind with
  | mark m => cases m <;> first | rfl | exact nomatch found
  | _ => rfl

theorem climb_follows (follower : Follower lines reach reach') (power : Nat) (left : Expr) :
    FollowsBy lines (Parser.Round.opens 0) (fun _ => False)
      (Parser.Round.map (Expr.relocate (Position.below lines))
        (Expr.relocate (Position.below lines)))
      (climb reach power left) (climb reach' power (left.relocate (Position.below lines))) := by
  refine .of_current (fun near token token' empty kind kind' => ?_)
    fun near token rest front => ?_
  · rcases kind' with kind' | kind' <;> simp only [kind, kind', BinaryOp.ofKind?] <;>
      exact .of (.result rfl rfl)
  · have same : BinaryOp.ofKind? (token.below lines).kind = BinaryOp.ofKind? token.kind := by
      obtain ⟨kind, text, pos⟩ := token
      cases kind <;> rfl
    rw [same]
    cases found : BinaryOp.ofKind? token.kind with
    | none => exact .of (.result rfl rfl)
    | some op =>
        by_cases loose : op.power ≤ power
        · simp only [loose, if_true]
          exact .of (.result rfl rfl)
        · simp only [loose, if_false]
          refine .advance front (.skipNewlines (.then (follower.operation op.power) fun right =>
            .result ?_ ?_) (follower.dead (.operation op.power)).bind)
          · rw [weight_of_operator found]
            rfl
          · rw [Expr.pos_relocate]
            rfl

theorem operation_follows (follower : Follower lines reach reach') (power : Nat) :
    FollowsFlat lines (Expr.relocate (Position.below lines)) (operation reach power)
      (operation reach' power) :=
  .then (operand_follows follower) fun left =>
    .steadyLoop (Expr.relocate (Position.below lines)) (climb_follows follower power) left

theorem expression_follows (follower : Follower lines reach reach') :
    FollowsFlat lines (Expr.relocate (Position.below lines)) (expression reach) (expression reach') := by
  refine .then (operation_follows follower 0) fun cond => .eat rfl ?_ (.result rfl rfl)
  refine .skipNewlines (.then follower.expression fun yes => .skipNewlines (.expects rfl fun _ => ?_)
    (.expects rfl)) (follower.dead .expression).bind
  refine .skipNewlines (.then follower.expression fun no => .result rfl ?_)
    (follower.dead .expression).bind
  rw [Expr.pos_relocate]
  rfl

end Rill.Grammar

import Rill.Proofs.Enduring.Collection

/-!
# Expressions with more tokens after them

An arrow that comes right behind a group turns the group into the parameters of a function. So a
group is read in the same way only if something of the stream is left behind it; the brackets of
the group settle where the search for an arrow ends.
-/

set_option autoImplicit false

namespace Rill.Grammar

open Rill.Stream (Longer Aside Leaves)

/-! ## The search for an arrow -/

/-- Whether the bracket that closes `depth` open ones is the last token. -/
def closesAtEnd (depth : Nat) : List Token → Bool
  | [] => false
  | token :: rest =>
      if token.kind.weight = 1 then closesAtEnd (depth + 1) rest
      else if token.kind.weight = -1 then
        if depth = 0 then false
        else if depth = 1 then rest.isEmpty
        else closesAtEnd (depth - 1) rest
      else closesAtEnd depth rest

theorem TokenKind.weight_eq_zero {kind : TokenKind} (notOpen : ¬ kind.weight = 1)
    (notClose : ¬ kind.weight = -1) : kind.weight = 0 := by
  cases kind with
  | mark m => cases m <;> first | rfl | contradiction
  | _ => rfl

/-- An arrow that is found is found whatever comes after. -/
theorem arrowAfterClose_of_true {tokens : List Token} {depth : Nat}
    (arrow : arrowAfterClose depth tokens = true) (more : List Token) :
    arrowAfterClose depth (tokens ++ more) = true := by
  induction tokens generalizing depth with
  | nil => exact nomatch arrow
  | cons token rest ih =>
      rw [arrowAfterClose_cons] at arrow
      rw [List.cons_append, arrowAfterClose_cons]
      split at arrow
      · next opens => rw [if_pos opens, ih arrow]
      next notOpen =>
      rw [if_neg notOpen]
      split at arrow
      · next shuts =>
        rw [if_pos shuts]
        split at arrow
        · exact nomatch arrow
        next inside =>
        rw [if_neg inside]
        split at arrow
        · next last =>
          rw [if_pos last]
          cases rest with
          | nil => exact nomatch arrow
          | cons token rest => exact arrow
        · next deeper => rw [if_neg deeper, ih arrow]
      · next notClose => rw [if_neg notClose, ih arrow]

/-- Where brackets all close, the search goes past them only if the last one of them is the last
token. -/
theorem arrowAfterClose_longer (more left taken : List Token) {depth : Nat} (open_ : 0 < depth)
    (closes : depth + netOpen taken ≤ 0) :
    arrowAfterClose depth (taken ++ left ++ more) = (arrowAfterClose depth (taken ++ left)
      || closesAtEnd depth (taken ++ left)
        && more.head?.map Token.kind == some (.mark .fatArrow)) := by
  induction taken generalizing depth with
  | nil =>
      rw [netOpen_nil] at closes
      omega
  | cons token rest ih =>
      rw [netOpen_cons] at closes
      simp only [List.cons_append, arrowAfterClose_cons, closesAtEnd]
      split
      · next opens => exact ih (Nat.succ_pos depth) (by omega)
      split
      · next shuts =>
        split
        · rfl
        split
        · cases rest ++ left <;> simp
        · exact ih (by omega) (by omega)
      · next notOpen notClose =>
        exact ih open_ (by have := TokenKind.weight_eq_zero notOpen notClose; omega)

theorem left_of_closesAtEnd {left taken : List Token} {depth : Nat} (open_ : 0 < depth)
    (closes : depth + netOpen taken ≤ 0) (last : closesAtEnd depth (taken ++ left) = true) :
    left = [] := by
  induction taken generalizing depth with
  | nil =>
      rw [netOpen_nil] at closes
      omega
  | cons token rest ih =>
      rw [netOpen_cons] at closes
      simp only [List.cons_append, closesAtEnd] at last
      split at last
      · next opens => exact ih (Nat.succ_pos depth) (by omega) last
      next notOpen =>
      split at last
      · next shuts =>
        split at last
        · exact nomatch last
        split at last
        · exact (List.append_eq_nil_iff.mp (List.isEmpty_iff.mp last)).2
        · exact ih (by omega) (by omega) last
      · next notClose =>
        exact ih open_ (by have := TokenKind.weight_eq_zero notOpen notClose; omega) last

/-! ## Groups and arrow functions -/

variable {reach : Reach}

def group (reach : Reach) : Parser Expr := do
  Parser.skipNewlines
  let inner ← reach .expression
  Parser.skipNewlines
  let _ ← Parser.expect (.mark .closeParen)
  return inner

def arrowFunction (reach : Reach) (pos : Position) : Parser Expr := do
  let params ← params reach
  let _ ← Parser.expect (.mark .fatArrow)
  arrowBody reach params pos

theorem parenthesised_eq (reach : Reach) (pos : Position) :
    parenthesised reach pos = arrowAhead >>= fun found =>
      if found = true then arrowFunction reach pos else Parser.advance >>= fun _ => group reach :=
  rfl

theorem group_firm (enduring : Enduring reach) : Firm (group reach) := by
  refine .skips (enduring.expression.bind (fun inner => ?_) fun inner _ => ?_)
    (enduring.dead .expression).bind
  · exact .skips (.expects rfl fun _ => .result) (.expects rfl)
  · exact .skips (.expects rfl)

theorem group_closes (follower : Follower 0 reach reach) {near after : Stream} (sound : near.Sound)
    {inner : Expr} (run : group reach near = .ok (inner, after)) :
    ∃ taken, near.ahead = taken ++ after.ahead ∧ netOpen taken = -1 := by
  have follows : FollowsBy 0 (fun _ => -1) (fun _ => False) (Expr.relocate (Position.below 0))
      (group reach) (group reach) := by
    refine .skipNewlines (.then follower.expression fun inner => ?_) (follower.dead .expression).bind
    exact .skipNewlines (.expects rfl fun _ => .result rfl rfl) (.expects rfl)
  obtain ⟨⟨⟨taken, split⟩, -, -, opens⟩, -⟩ := follows near sound run
  have opens : netOpen near.ahead = netOpen after.ahead + -1 := opens
  rw [← split, netOpen_append] at opens
  exact ⟨taken, split.symm, by omega⟩

theorem arrowBody_loose (enduring : Enduring reach) (params : List Binding) (pos : Position) :
    Loose (arrowBody reach params pos) := by
  refine .skipLoosely (.checkLoosely rfl ?_ ?_)
  · exact .then (block_firm enduring) fun _ => .result
  · exact enduring.expression.chain fun _ => .result

theorem arrowFunction_loose (enduring : Enduring reach) (pos : Position) :
    Loose (arrowFunction reach pos) :=
  .then (params_firm enduring) fun params => .expects rfl fun _ =>
    arrowBody_loose enduring params pos

theorem arrow_of_group (follower : Follower 0 reach reach) {near after : Stream} (sound : near.Sound)
    {token : Token} {rest : List Token} (front : near.ahead = token :: rest)
    (kind : token.kind = .mark .openParen) (group_ : arrowAfterClose 0 near.ahead = false)
    {inner : Expr} (run : group reach near.tail = .ok (inner, after)) {more : List Token}
    (arrow : arrowAfterClose 0 (near.ahead ++ more) = true) :
    closesAtEnd 1 rest = true ∧ after.ahead = []
      ∧ more.head?.map Token.kind = some (.mark .fatArrow) := by
  obtain ⟨taken, split, closes⟩ := group_closes follower ((Leaves.tail near).sound sound) run
  have tail : near.tail.ahead = rest := by
    show near.ahead.tail = rest
    rw [front, List.tail_cons]
  rw [tail] at split
  have weight : token.kind.weight = 1 := by rw [kind]; rfl
  rw [front, arrowAfterClose_cons, if_pos weight, split] at group_
  rw [front, List.cons_append, arrowAfterClose_cons, if_pos weight, split,
    arrowAfterClose_longer more after.ahead taken (Nat.succ_pos 0) (by omega), group_,
    Bool.false_or, Bool.and_eq_true] at arrow
  rw [split]
  exact ⟨arrow.1, left_of_closesAtEnd (Nat.succ_pos 0) (by omega) arrow.1, beq_iff_eq.mp arrow.2⟩

theorem parenthesised_loose (enduring : Enduring reach) {near : Stream} {token : Token}
    {rest : List Token} (front : near.ahead = token :: rest) (kind : token.kind = .mark .openParen)
    (pos : Position) : EnduresFrom near (fun _ => True) (parenthesised reach pos) := by
  rw [parenthesised_eq]
  intro sound x after done
  have run : (if arrowAfterClose 0 near.ahead = true then arrowFunction reach pos
    else Parser.advance >>= fun _ => group reach) near = .ok (x, after) := done
  have go {far : Stream} {read : Parser Expr} (choice : (if arrowAfterClose 0 far.ahead = true
      then arrowFunction reach pos else Parser.advance >>= fun _ => group reach) = read) :
      (arrowAhead >>= fun found => if found = true then arrowFunction reach pos
        else Parser.advance >>= fun _ => group reach) far = read far := congrFun choice far
  by_cases found : arrowAfterClose 0 near.ahead = true
  · rw [if_pos found] at run
    obtain ⟨leaves, endures⟩ := arrowFunction_loose enduring pos near sound run
    refine ⟨leaves, fun more far aside longer => (endures aside longer).imp_right ?_⟩
    rintro ⟨far', run', longer'⟩
    have found' : arrowAfterClose 0 far.ahead = true :=
      longer.ahead ▸ arrowAfterClose_of_true found more
    exact ⟨far', (go (if_pos found')).trans run', longer'⟩
  · rw [if_neg found] at run
    have step : EnduresFrom near (fun _ => False) (Parser.advance >>= fun _ => group reach) :=
      .advance front (group_firm enduring)
    obtain ⟨leaves, endures⟩ := step sound run
    refine ⟨leaves, fun more far aside longer => ?_⟩
    by_cases found' : arrowAfterClose 0 far.ahead = true
    · rw [longer.ahead] at found'
      have last := (arrow_of_group enduring.toFollower sound front kind
        (Bool.eq_false_iff.mpr found) run found').2.1
      exact .inl ⟨trivial, Stream.spent_of_nil (leaves.sound sound) last⟩
    · refine ((endures aside longer).imp_left fun bad => bad.1.elim).imp_right ?_
      rintro ⟨far', run', longer'⟩
      exact ⟨far', (go (if_neg found')).trans run', longer'⟩

/-! ## Operands -/

theorem named_loose (enduring : Enduring reach) {near : Stream} {token : Token}
    {rest : List Token} (front : near.ahead = token :: rest) :
    EnduresFrom near (fun _ => True) (named reach token) :=
  .advance front (.eatLoosely rfl (arrowBody_loose enduring [⟨token.text, none⟩] token.pos) .result)

/-- A function without a name starts with its parameters. -/
theorem functionValue_dead (reach : Reach) (pos : Position) :
    Dead (functionRest reach none pos >>= fun fn => pure (Expr.function pos fn)) := by
  have dead : Dead (functionRest reach none pos) := Dead.bind (params_dead reach)
  exact dead.bind

theorem functionLiteral_dead (reach : Reach) (pos : Position) : Dead (functionLiteral reach pos) :=
  .checks rfl (functionValue_dead reach pos)

theorem functionLiteral_firm (enduring : Enduring reach) (pos : Position) :
    Firm (functionLiteral reach pos) := by
  have rest (name : Option String) :
      Firm (functionRest reach name pos >>= fun fn => pure (Expr.function pos fn)) :=
    .then (functionRest_firm enduring name pos) fun _ => .result
  refine .check rfl (fun near token more front here => ?_) (rest none) (functionValue_dead reach pos)
  exact Endures.then .identifier (fun name => rest (some name)) near

theorem superReference_loose (pos : Position) : Loose (superReference pos) :=
  .eatLoosely rfl (.then .memberName fun _ => .result) .result

theorem primary_loose (enduring : Enduring reach) : Loose (primary reach) := by
  refine .currents (primary_dead reach) fun near token rest front => ?_
  obtain ⟨kind, text, pos⟩ := token
  cases kind with
  | ident => exact named_loose enduring front
  | text => exact .advance front .result
  | number => exact .advance front (.then (numberValue_firm _) fun _ => .result)
  | template pieces =>
      exact .advance front (.then (templateParts_firm reach pieces) fun _ => .result)
  | keyword word =>
      cases word with
      | true_ | false_ | nil_ => exact .advance front .result
      | func_ => exact .advance front (.of_firm (functionLiteral_firm enduring pos))
      | match_ => exact .advance front (.of_firm (matching_firm enduring pos))
      | super_ => exact .advance front (superReference_loose pos)
      | _ => exact Endures.fail _ near
  | mark m =>
      cases m with
      | openParen => exact parenthesised_loose enduring front rfl pos
      | openBracket => exact .advance front (.of_firm (array_firm enduring pos))
      | openBrace => exact .advance front (.of_firm (record_firm enduring pos))
      | _ => exact Endures.fail _ near
  | _ => exact Endures.fail _ near

theorem memberAccess_loose (object : Expr) (pos : Position) (optional : Bool) :
    Loose (memberAccess object pos optional) :=
  Endures.advance.chain fun _ => .then .memberName fun _ => .result

theorem index_firm (enduring : Enduring reach) {α : Type} (made : Expr → α) :
    Firm (do
      Parser.skipNewlines
      let index ← reach .expression
      Parser.skipNewlines
      let _ ← Parser.expect (.mark .closeBracket)
      return made index) := by
  refine .skips (enduring.expression.bind (fun index => ?_) fun index _ => ?_)
    (enduring.dead .expression).bind
  · exact .skips (.expects rfl fun _ => .result) (.expects rfl)
  · exact .skips (.expects rfl)

theorem link_loose (enduring : Enduring reach) (object : Expr) : Loose (link reach object) := by
  refine .glimpseLoosely fun token => ?_
  obtain ⟨kind, text, pos⟩ := token
  cases kind with
  | newline =>
      exact .pastNewlines (P := fun kind => kind = .mark .dot ∨ kind = .mark .questionDot)
        (by decide) (.skipLoosely .result) .result (.result trivial)
  | mark m =>
      cases m with
      | dot | questionDot => exact (memberAccess_loose object pos _).chain fun _ => .result
      | openParen =>
          exact Endures.advance.chain fun _ => .then
            (.listed enduring.expression (enduring.dead _)) fun _ => .result
      | openBracket =>
          exact Endures.advance.chain fun _ => .of_firm (index_firm enduring fun index =>
            Parser.Round.again (Expr.index pos object index))
      | _ => exact .result
  | _ => exact .result

theorem chain_loose (enduring : Enduring reach) : Loose (chain reach) :=
  (primary_loose enduring).chain fun object => .loopLoosely (link_loose enduring) object

theorem operand_loose (enduring : Enduring reach) : Loose (operand reach) := by
  refine .currents (operand_dead reach) fun near token rest front => ?_
  obtain ⟨kind, text, pos⟩ := token
  cases kind with
  | mark m =>
      cases m with
      | ellipsis | minus | plus | bang | tilde =>
          exact .advance front (enduring.operand.chain fun _ => .result)
      | _ => exact chain_loose enduring near
  | _ => exact chain_loose enduring near

theorem climb_loose (enduring : Enduring reach) (power : Nat) (left : Expr) :
    Loose (climb reach power left) := by
  refine .glimpseLoosely fun token => ?_
  split
  · exact .result
  · split
    · exact .result
    · exact Endures.advance.chain fun _ =>
        .skipLoosely ((enduring.operation _).chain fun _ => .result)

theorem operation_loose (enduring : Enduring reach) (power : Nat) :
    Loose (operation reach power) :=
  (operand_loose enduring).chain fun left => .loopLoosely (climb_loose enduring power) left

theorem expression_loose (enduring : Enduring reach) : Loose (expression reach) := by
  refine (operation_loose enduring 0).chain fun cond => .eatLoosely rfl ?_ .result
  refine .skipLoosely (enduring.expression.chain fun yes => .skipLoosely (.expects rfl fun _ => ?_))
  exact .skipLoosely (enduring.expression.chain fun no => .result)

end Rill.Grammar

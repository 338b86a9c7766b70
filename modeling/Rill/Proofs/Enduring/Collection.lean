import Rill.Proofs.Enduring

/-!
# Blocks, collections and patterns with more tokens after them
-/

set_option autoImplicit false

namespace Rill

/-- Patterns do not look behind their end; the other goals may end where the stream ends. -/
def Goal.spare : {α : Type} → Goal α → α → Prop
  | _, .pattern, _ => False
  | _, _, _ => True

/-- A way to reach goals that reads the same when more tokens come after. -/
structure Enduring (reach : Reach) : Prop extends Follower 0 reach reach where
  endures : ∀ {α : Type} (goal : Goal α), Endures goal.spare (reach goal)

namespace Enduring

variable {reach : Reach}

theorem statement (enduring : Enduring reach) : Loose (reach .statement) :=
  enduring.endures .statement

theorem conditional (enduring : Enduring reach) : Loose (reach .conditional) :=
  enduring.endures .conditional

theorem expression (enduring : Enduring reach) : Loose (reach .expression) :=
  enduring.endures .expression

theorem operation (enduring : Enduring reach) (power : Nat) : Loose (reach (.operation power)) :=
  enduring.endures (.operation power)

theorem operand (enduring : Enduring reach) : Loose (reach .operand) :=
  enduring.endures .operand

theorem pattern (enduring : Enduring reach) : Firm (reach .pattern) :=
  enduring.endures .pattern

end Enduring

namespace Grammar

variable {reach : Reach}

theorem block_dead (reach : Reach) : Dead (block reach) := .skips (.expects rfl)

theorem block_firm (enduring : Enduring reach) : Firm (block reach) := by
  refine .skips (.expects rfl fun opening => .then (.skipLoop (fun stmts => ?_) (fun stmts => ?_) [])
    fun _ => .result) (.expects rfl)
  · refine .eat rfl .result (.inside (enduring.statement.bind (fun _ => .result) fun _ _ => ?_)) ?_
    · exact .result trivial
    · exact .inside (enduring.dead .statement).bind
  · exact .eats rfl (.inside (enduring.dead .statement).bind)

theorem initialiser_loose (enduring : Enduring reach) : Loose (initialiser reach) :=
  .eatLoosely rfl (.skipLoosely (enduring.expression.chain fun _ => .result)) .result

theorem params_firm (enduring : Enduring reach) : Firm (params reach) :=
  .expects rfl fun _ => .listed (.then .identifier fun _ =>
    (initialiser_loose enduring).chain fun _ => .result) Stops.identifiers

theorem functionRest_firm (enduring : Enduring reach) (name : Option String) (pos : Position) :
    Firm (functionRest reach name pos) :=
  .then (params_firm enduring) fun _ => .then (block_firm enduring) fun _ => .result

theorem numberValue_firm (token : Token) : Firm (numberValue token) := by
  cases read : Number.read token.text with
  | none =>
      simp only [numberValue, read]
      exact .fail _
  | some value =>
      simp only [numberValue, read]
      exact .result

/-! ## Collections -/

theorem clauses_loose (enduring : Enduring reach) : Loose (clauses reach) := by
  refine .loopLoosely (fun done => .skipLoosely (.eatLoosely rfl ?_ ?_)) []
  · exact .then .identifier fun _ => .expects rfl fun _ =>
      enduring.expression.chain fun _ => .result
  · cases done with
    | nil => exact .result
    | cons clause before =>
        exact .eatLoosely rfl (enduring.expression.chain fun _ => .result) .result

theorem items_loose (enduring : Enduring reach) (first : Expr) :
    Loose (Parser.loop (fun done => do
      if ← Parser.eat (.mark .comma) then
        Parser.skipNewlines
        if ← Parser.check (.mark .closeBracket) then return .done done.reverse
        let item ← reach .expression
        Parser.skipNewlines
        return .again (item :: done)
      else return .done done.reverse) [first]) := by
  refine .loopLoosely (fun done => .eatLoosely rfl (.skipLoosely ?_) .result) [first]
  exact .checkLoosely rfl .result (enduring.expression.chain fun _ => .skipLoosely .result)

theorem array_firm (enduring : Enduring reach) (pos : Position) : Firm (array reach pos) := by
  refine .skips (.eat rfl .result (enduring.expression.bind (fun first => ?_) fun first _ => ?_) ?_)
    (.eats rfl (enduring.dead .expression).bind)
  · refine .skips (.check rfl (fun near _ _ _ _ => ?_) ?_ ?_) (.checks rfl ?_)
    · exact (clauses_loose enduring).bind
        (fun found => .skips (.expects rfl fun _ => .result) (.expects rfl))
        (fun found _ => .skips (.expects rfl)) near
    · exact (items_loose enduring first).bind (fun _ => .expects rfl fun _ => .result)
        fun _ _ => .expects rfl
    · exact (items_loose enduring first).stops.bind fun _ _ => .expects rfl
    · exact (items_loose enduring first).stops.bind fun _ _ => .expects rfl
  · exact .skips (.checks rfl ((items_loose enduring first).stops.bind fun _ _ => .expects rfl))
  · exact (enduring.dead .expression).bind

theorem key_firm (enduring : Enduring reach) : Firm (key reach) := by
  refine .currents (key_dead reach) fun near token rest front => ?_
  obtain ⟨kind, text, pos⟩ := token
  cases kind with
  | text | number => exact .advance front .result
  | mark m =>
      cases m with
      | openBracket =>
          refine .advance front (.skips (enduring.expression.bind (fun key => ?_) fun _ _ => ?_)
            (enduring.dead .expression).bind)
          · exact .skips (.expects rfl fun _ => .result) (.expects rfl)
          · exact .skips (.expects rfl)
      | _ => exact Endures.then .memberName (fun _ => .result) near
  | _ => exact Endures.then .memberName (fun _ => .result) near

theorem entryValue_loose (enduring : Enduring reach) (found : Key × Expr) :
    Loose (entryValue reach found) := by
  obtain ⟨key, meant⟩ := found
  refine .eatLoosely rfl (.skipLoosely enduring.expression) ?_
  cases key with
  | computed key => exact .unexpected _
  | name text =>
      cases meant with
      | ident pos name => exact .result
      | _ => exact .unexpected _

theorem entryEnd_stops {α : Type} {spare : α → Prop} {x : α} (good : spare x) :
    Stops spare (Parser.current >>= fun token =>
      if endsEntry token = true then pure x else Parser.unexpected .entryEnd) := by
  refine .currents fun token _ => ?_
  split
  · exact .result good
  · exact fun _ _ _ _ done => nomatch done

theorem entryEnd_endures {α : Type} {spare : α → Prop} {x : α} (good : spare x) :
    Endures spare (Parser.current >>= fun token =>
      if endsEntry token = true then pure x else Parser.unexpected .entryEnd) := by
  refine .glimpse (fun token => ?_) (entryEnd_stops good)
  split
  · exact .result
  · exact .unexpected _

theorem record_firm (enduring : Enduring reach) (pos : Position) : Firm (record reach pos) := by
  refine .skipLoop (fun done => .eat rfl .result (.eat rfl ?_ ?_ (key_dead reach).bind) ?_)
    (fun done => .eats rfl (.eats rfl (key_dead reach).bind)) []
  · exact enduring.expression.bind (fun _ => .result) fun _ _ => .result trivial
  · refine .then (key_firm enduring) fun (key, meant) => ?_
    cases done with
    | cons entry before =>
        simp only [List.isEmpty_cons, Bool.false_and, Bool.false_eq_true, if_false]
        exact (entryValue_loose enduring (key, meant)).bind (fun _ => entryEnd_endures trivial)
          fun _ _ => entryEnd_stops trivial
    | nil =>
        simp only [List.isEmpty_nil, Bool.true_and, decide_eq_true_eq]
        refine (entryValue_loose enduring (key, meant)).bind (fun value => ?_) fun value _ => ?_
        · refine .pastNewlines (P := (· = .keyword .for_)) nofun ?_ (entryEnd_endures ?_) (entryEnd_stops ?_)
          rotate_left
          · trivial
          · trivial
          refine .skips ((clauses_loose enduring).bind (fun found => ?_) fun found _ => ?_) ?_
          · exact .skips (.expects rfl fun _ => .result) (.expects rfl)
          · exact .skips (.expects rfl)
          · exact (clauses_loose enduring).stops.bind fun _ _ => .skips (.expects rfl)
        · refine .pastNewlines (P := (· = .keyword .for_)) (.skips ?_) (entryEnd_stops ?_)
          rotate_left
          · trivial
          exact (clauses_loose enduring).stops.bind fun _ _ => .skips (.expects rfl)
  · exact .eats rfl (key_dead reach).bind

/-! ## Templates -/

theorem hole_firm (reach : Reach) (source : String) (pos : Position) :
    Firm (hole reach source pos) := by
  intro near sound x after done
  obtain ⟨rfl, tokens, rest, read, inner⟩ := hole_eq_ok.mp done
  exact ⟨.refl after, fun more far aside longer =>
    .inr ⟨far, hole_eq_ok.mpr ⟨rfl, tokens, rest, read, inner⟩, longer⟩⟩

theorem templateParts_firm (reach : Reach) (pieces : List TemplatePiece) :
    Firm (templateParts reach pieces) := by
  induction pieces with
  | nil => exact .result
  | cons piece rest ih =>
      cases piece with
      | text cooked => exact .then ih fun _ => .result
      | hole source pos => exact .then (hole_firm reach source pos) fun _ => .then ih fun _ => .result

/-! ## Patterns -/

theorem arrayPattern_firm (enduring : Enduring reach) : Firm (arrayPattern reach) := by
  refine .skipLoop (fun done => .eat rfl .result (.eat rfl ?_ ?_ ?_) ?_) (fun done => ?_) []
  · exact .then .identifier fun rest => .skips (.expects rfl fun _ => .result) (.expects rfl)
  · refine .then enduring.pattern fun element => .skips (.eat rfl .result ?_ ?_) ?_
    · exact .skips (.expects rfl fun _ => .result) (.expects rfl)
    · exact .skips (.expects rfl)
    · exact .eats rfl (.skips (.expects rfl))
  · exact (enduring.dead .pattern).bind
  · exact .eats rfl (enduring.dead .pattern).bind
  · exact .eats rfl (.eats rfl (enduring.dead .pattern).bind)

theorem patternField_loose (enduring : Enduring reach) : Loose (patternField reach) := by
  have value (key : String) : Loose
      (do if ← Parser.eat (.mark .colon) then return (key, ← reach .pattern)
          return (key, Pattern.binding key)) :=
    .eatLoosely rfl (.then enduring.pattern fun _ => .result) .result
  exact .check rfl (fun near token rest front _ => .advance front (value token.text))
    (.then .memberName value) (Endures.then .memberName value).stops

theorem pattern_firm (enduring : Enduring reach) : Firm (pattern reach) := by
  refine .currents (pattern_dead reach) fun near token rest front => ?_
  obtain ⟨kind, text, pos⟩ := token
  cases kind with
  | ident | text => exact .advance front .result
  | number => exact .advance front (.then (numberValue_firm _) fun _ => .result)
  | keyword word =>
      cases word with
      | true_ | false_ | nil_ => exact .advance front .result
      | _ => exact Endures.fail _ near
  | mark m =>
      cases m with
      | openBracket => exact .advance front (arrayPattern_firm enduring)
      | openBrace =>
          exact .advance front (.then (.listed (patternField_loose enduring)
            (patternField_dead reach)) fun _ => .result)
      | minus =>
          refine .peeks front (fun _ _ ends found => ?_) ?_
          · simp only [ends, reduceCtorEq, if_false]
            exact nofun
          split
          · next second =>
            refine .advanceOn front fun sound => ?_
            obtain ⟨rest', front'⟩ := Stream.front_of_current sound (by
              show near.peek.kind ≠ .endOfInput
              rw [second]
              exact nofun)
            exact EnduresFrom.advance front' (.then (numberValue_firm _) fun _ => .result) sound
          · exact Endures.fail _ near
      | _ => exact Endures.fail _ near
  | _ => exact Endures.fail _ near

theorem arm_loose (enduring : Enduring reach) : Loose (arm reach) := by
  have body (pattern : Pattern) (guard : Option Expr) : Loose (do
      let _ ← Parser.expect (.mark .fatArrow)
      Parser.skipNewlines
      let body ← reach .expression
      return Arm.mk pattern guard body) :=
    .expects rfl fun _ => .skipLoosely (enduring.expression.chain fun _ => .result)
  refine .expects rfl fun _ => .then enduring.pattern fun pattern => .eatLoosely rfl ?_ (body _ _)
  exact enduring.expression.chain fun guard => body pattern (some guard)

theorem matching_firm (enduring : Enduring reach) (pos : Position) :
    Firm (matching reach pos) := by
  refine enduring.expression.bind (fun subject => ?_) fun subject _ => .skips (.expects rfl)
  refine .skips (.expects rfl fun _ => .then ?_ fun arms => .result) (.expects rfl)
  refine .skipLoop (fun done => ?_) (fun done => .eats rfl (arm_dead reach).bind) []
  exact .eat rfl .result ((arm_loose enduring).bind (fun _ => .result) fun _ _ => .result trivial)
    (arm_dead reach).bind

end Grammar

end Rill

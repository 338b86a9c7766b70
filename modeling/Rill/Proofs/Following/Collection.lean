import Rill.Proofs.Following

/-!
# Blocks, collections and templates on a longer text
-/

set_option autoImplicit false

namespace Rill

def Goal.relocate (place : Position → Position) : {α : Type} → Goal α → α → α
  | _, .statement => Stmt.relocate place
  | _, .conditional => Stmt.relocate place
  | _, .expression => Expr.relocate place
  | _, .operation _ => Expr.relocate place
  | _, .operand => Expr.relocate place
  | _, .pattern => id

/-- Where a goal is asked for: an `else if` only at its `if`. -/
def Goal.Open (near : Stream) : {α : Type} → Goal α → Prop
  | _, .conditional => near.current.kind = .keyword .if_
  | _, _ => True

/-- What one way to reach goals reads the other reads as well. -/
structure Follower (lines : Nat) (reach reach' : Reach) : Prop where
  follows : ∀ {α : Type} (goal : Goal α) (near : Stream), goal.Open near →
    FollowsFrom lines near (fun _ => 0) (fun _ => False) (goal.relocate (Position.below lines))
      (reach goal) (reach' goal)
  dead : ∀ {α : Type} (goal : Goal α), Dead (reach goal)

namespace Follower

variable {lines : Nat} {reach reach' : Reach}

theorem statement (follower : Follower lines reach reach') :
    FollowsFlat lines (Stmt.relocate (Position.below lines)) (reach .statement) (reach' .statement) :=
  fun near => follower.follows .statement near trivial

theorem expression (follower : Follower lines reach reach') :
    FollowsFlat lines (Expr.relocate (Position.below lines)) (reach .expression)
      (reach' .expression) :=
  fun near => follower.follows .expression near trivial

theorem operation (follower : Follower lines reach reach') (power : Nat) :
    FollowsFlat lines (Expr.relocate (Position.below lines)) (reach (.operation power))
      (reach' (.operation power)) :=
  fun near => follower.follows (.operation power) near trivial

theorem operand (follower : Follower lines reach reach') :
    FollowsFlat lines (Expr.relocate (Position.below lines)) (reach .operand) (reach' .operand) :=
  fun near => follower.follows .operand near trivial

theorem pattern (follower : Follower lines reach reach') :
    FollowsFlat lines id (reach .pattern) (reach' .pattern) :=
  fun near => follower.follows .pattern near trivial

end Follower

namespace Grammar

variable {lines : Nat} {reach reach' : Reach}

theorem block_follows (follower : Follower lines reach reach') :
    FollowsFlat lines (Block.relocate (Position.below lines)) (block reach) (block reach') := by
  refine .skipNewlines (.expects rfl fun opening => ?_) (.expects rfl)
  refine .skipLoops (.separators lines) (Stmt.relocateAll (Position.below lines))
    (Stmt.relocateAll (Position.below lines)) (-1) (fun done => ?_) (fun done => ?_)
    fun stmts => .result rfl rfl
  · refine .eat rfl (.result rfl ?_) (.inside (.then follower.statement fun stmt => .result rfl rfl))
    simp only [Stmt.relocateAll_eq_map, Parser.Round.map, List.map_reverse]
  · exact .eats rfl (.inside (follower.dead .statement).bind)

theorem initialiser_follows (follower : Follower lines reach reach') :
    FollowsFlat lines (Expr.relocate? (Position.below lines)) (initialiser reach)
      (initialiser reach') :=
  .eat rfl (.skipNewlines (.then follower.expression fun _ => .result rfl rfl)
    (Dead.bind (follower.dead .expression))) (.result rfl rfl)

theorem params_dead (reach : Reach) : Dead (params reach) := .expects rfl

theorem params_follows (follower : Follower lines reach reach') :
    FollowsFlat lines (Binding.relocateAll (Position.below lines)) (params reach) (params reach') := by
  refine .expects rfl fun _ => ?_
  rw [funext (Binding.relocateAll_eq_map _)]
  exact .listed rfl (.then .identifier fun name => .then (initialiser_follows follower) fun value =>
    .result rfl rfl) Stops.identifiers

theorem functionRest_follows (follower : Follower lines reach reach') (name : Option String)
    (pos : Position) :
    FollowsFlat lines (Function.relocate (Position.below lines)) (functionRest reach name pos)
      (functionRest reach' name (pos.below lines)) :=
  .then (params_follows follower) fun _ => .then (block_follows follower) fun _ =>
    .result rfl rfl

/-! ## Collections -/

theorem clauses_follows (follower : Follower lines reach reach') :
    FollowsBy lines (fun _ => 0) (fun _ => True) (Clause.relocateAll (Position.below lines))
      (clauses reach) (clauses reach') := by
  refine .skipLoop (.newlines lines) (Clause.relocateAll (Position.below lines)) (fun done => ?_)
    (fun done => ?_) []
  · refine .eat rfl ?_ ?_
    · exact .then .identifier fun name => .expects rfl fun _ => .then follower.expression fun _ =>
        .result rfl rfl
    · cases done with
      | nil => exact .result rfl rfl
      | cons clause before =>
          refine .eat rfl (.then follower.expression fun _ => .result rfl rfl) (.result rfl ?_)
          simp only [Clause.relocateAll_eq_map, Parser.Round.map, List.map_reverse]
  · refine .eats rfl ?_
    cases done with
    | nil => exact .result trivial
    | cons clause before => exact .eats rfl (.result trivial)

theorem array_follows (follower : Follower lines reach reach') (pos : Position) :
    FollowsBy lines (fun _ => -1) (fun _ => False) (Expr.relocate (Position.below lines))
      (array reach pos) (array reach' (pos.below lines)) := by
  have reversed (done : List Expr) : (Expr.relocateAll (Position.below lines) done).reverse
      = Expr.relocateAll (Position.below lines) done.reverse := by
    simp only [Expr.relocateAll_eq_map, List.map_reverse]
  refine .skipNewlines (.eat rfl (.result rfl rfl) (.then follower.expression fun first => ?_))
    (.eats rfl (follower.dead .expression).bind)
  refine .skipNewlines (.check rfl (fun near token rest front here => ?_) ?_) ?_
  · refine .of ((clauses_follows follower).bind (fun found => ?_) fun found _ => .skips (.expects rfl))
    exact .skipNewlines (.expects rfl fun _ => .result rfl rfl) (.expects rfl)
  · refine .loops (Expr.relocateAll (Position.below lines)) (Expr.relocateAll (Position.below lines))
      0 (fun _ => True) (fun done => ?_) (fun done => ?_)
      (fun items => .expects rfl fun _ => .result rfl rfl) fun items _ => .expects rfl
    rotate_left
    · exact .eats rfl (.result trivial)
    refine .eat rfl (.skipNewlines (.check rfl (fun near token rest front here => ?_) ?_) ?_) ?_
    · exact .of (.result rfl (congrArg _ (reversed done)))
    · exact .then follower.expression fun item => .skipNewlines (.result rfl rfl) (.result trivial)
    · exact .checks rfl (follower.dead .expression).bind
    · exact .result rfl (congrArg _ (reversed done))
  · refine .checks rfl (.loops (fun _ => True) (fun done => ?_) fun items _ => .expects rfl)
    exact .eats rfl (.result trivial)

theorem key_dead (reach : Reach) : Dead (key reach) :=
  .currents fun token kind => by
    rcases kind with kind | kind <;> (simp only [kind]; exact Dead.bind Stops.memberName)

theorem key_follows (follower : Follower lines reach reach') :
    FollowsFlat lines (Prod.map (Key.relocate (Position.below lines))
      (Expr.relocate (Position.below lines))) (key reach) (key reach') := by
  refine .currents (key_dead reach) fun near token rest front => ?_
  obtain ⟨kind, text, pos⟩ := token
  cases kind with
  | text | number => exact .advance front (.result rfl rfl)
  | mark m =>
      cases m with
      | openBracket =>
          refine .advance front (.skipNewlines (.then follower.expression fun key => ?_) ?_)
          · exact .skipNewlines (.expects rfl fun _ => .result rfl rfl) (.expects rfl)
          · exact (follower.dead .expression).bind
      | _ => exact .of (.then .memberName fun name => .result rfl rfl)
  | _ => exact .of (.then .memberName fun name => .result rfl rfl)

theorem entryValue_follows (follower : Follower lines reach reach') (found : Key × Expr) :
    FollowsFlat lines (Expr.relocate (Position.below lines)) (entryValue reach found)
      (entryValue reach' (Prod.map (Key.relocate (Position.below lines))
        (Expr.relocate (Position.below lines)) found)) := by
  obtain ⟨key, meant⟩ := found
  refine .eat rfl (.skipNewlines follower.expression (follower.dead .expression)) ?_
  cases key with
  | computed key => exact .unexpected _
  | name text =>
      cases meant with
      | ident pos name => exact .result rfl rfl
      | _ => exact .unexpected _

theorem endsEntry_below (token : Token) : endsEntry (token.below lines) = endsEntry token := by
  obtain ⟨kind, text, pos⟩ := token
  cases kind <;> rfl

theorem entryEnd_follows {α β : Type} {opens : α → Int} {spare : α → Prop} {image : α → β} {x : α}
    {y : β} (flat : opens x = 0) (same : y = image x) :
    FollowsBy lines opens spare image
      (Parser.current >>= fun token =>
        if endsEntry token = true then pure x else Parser.unexpected .entryEnd)
      (Parser.current >>= fun token =>
        if endsEntry token = true then pure y else Parser.unexpected .entryEnd) := by
  refine .of_current (fun near token token' _ kind _ => .of ?_) fun near token rest _ => .of ?_
  · have goesOn : endsEntry token = false := by simp [endsEntry, kind]
    rw [goesOn]
    exact .unexpected _
  · rw [endsEntry_below]
    split
    · exact .result flat same
    · exact .unexpected _

theorem record_follows (follower : Follower lines reach reach') (pos : Position) :
    FollowsBy lines (fun _ => -1) (fun _ => False) (Expr.relocate (Position.below lines))
      (record reach pos) (record reach' (pos.below lines)) := by
  refine .skipLoop (.entrySeparators lines) (Entry.relocateAll (Position.below lines))
    (fun done => ?_) (fun done => .eats rfl (.eats rfl (key_dead reach).bind)) []
  refine .eat rfl (.result rfl ?_) (.eat rfl ?_ (.then (key_follows follower) fun found => ?_))
  · simp only [Entry.relocateAll_eq_map, Parser.Round.map, Expr.relocate, List.map_reverse]
  · exact .then follower.expression fun source => .result rfl rfl
  · obtain ⟨key, meant⟩ := found
    refine .then (entryValue_follows follower (key, meant)) fun value => ?_
    cases done with
    | nil =>
        simp only [Entry.relocateAll, List.isEmpty_nil, Bool.true_and, decide_eq_true_eq]
        refine .pastNewlines rfl (.skipNewlines ?_ ?_) (entryEnd_follows rfl rfl) ?_
        · refine (clauses_follows follower).bind (fun found => .skipNewlines ?_ ?_) fun _ _ => ?_
          · exact .expects rfl fun _ => .result rfl rfl
          · exact .expects rfl
          · exact .skips (.expects rfl)
        · exact (clauses_follows follower).stops.bind fun _ _ =>
            .skips (.expects rfl)
        · refine .currents fun token _ => ?_
          split
          · exact .result trivial
          · exact fun _ _ _ _ done => nomatch done
    | cons entry before =>
        simp only [Entry.relocateAll, List.isEmpty_cons, Bool.false_and, Bool.false_eq_true, if_false]
        exact entryEnd_follows rfl rfl

/-! ## Templates -/

theorem ofTokens_append (front : List Token) {last : Token} (kind : last.kind = .endOfInput) :
    Stream.ofTokens (front ++ [last]) = Stream.ofList front last := by
  simp [Stream.ofTokens, kind]

theorem mimics_dropWhile {near far : Stream} (mimics : Stream.Mimics lines [] near far) :
    Stream.Mimics lines [] (near.dropWhile (·.kind = .newline))
      (far.dropWhile (·.kind = .newline)) where
  ahead := by
    show far.ahead.dropWhile _ = (near.ahead.dropWhile _).map _ ++ []
    rw [mimics.ahead, List.append_nil, List.append_nil, List.dropWhile_map]
    congr 2
    exact funext (Blank.newlines lines).alike
  size := mimics.size
  kind := mimics.kind
  text := mimics.text

theorem mimics_atEnd {near far : Stream} (sound : near.Sound)
    (mimics : Stream.Mimics lines [] near far) :
    decide (far.current.kind = .endOfInput) = decide (near.current.kind = .endOfInput) := by
  cases front : near.ahead with
  | nil =>
      have ends : near.current.kind = .endOfInput := by
        rw [Stream.current, front]
        exact sound.kind
      have ends' : far.current.kind = .endOfInput := by
        rw [Stream.current, mimics.ahead, front]
        exact mimics.kind
      rw [ends, ends']
  | cons token rest =>
      rw [mimics.current front, Stream.current_of_front front]
      obtain ⟨kind, text, pos⟩ := token
      cases kind <;> rfl

theorem holeExpression_follows (follower : Follower lines reach reach') {near far : Stream}
    (sound : near.Sound) (mimics : Stream.Mimics lines [] near far) {pos : Position}
    {expr : Expr} {after : Stream} (done : holeExpression reach pos near = .ok (expr, after))
    (pos' : Position) :
    ∃ after', holeExpression reach' pos' far
      = .ok (expr.relocate (Position.below lines), after') := by
  have sound₁ := (Stream.Taken.dropWhile (Blank.newlines 0).flat near).sound sound
  have mimics₁ := mimics_dropWhile mimics
  have same₁ := mimics_atEnd sound₁ mimics₁
  obtain ⟨-, -, ⟨⟩, done⟩ := Parser.bind_eq_ok.mp done
  obtain ⟨-, -, ⟨⟩, done⟩ := Parser.bind_eq_ok.mp done
  split at done
  · exact nomatch done
  · next goesOn =>
    obtain ⟨read, near₂, run, done⟩ := Parser.bind_eq_ok.mp done
    obtain ⟨taken, follow⟩ := follower.expression _ sound₁ run
    obtain ⟨bad, -⟩ | ⟨far₂, run', mimics₂⟩ := follow .nil mimics₁
    · exact bad.elim
    have mimics₃ := mimics_dropWhile mimics₂
    have same₃ := mimics_atEnd ((Stream.Taken.dropWhile (Blank.newlines 0).flat near₂).sound (taken.sound sound₁)) mimics₃
    obtain ⟨-, -, ⟨⟩, done⟩ := Parser.bind_eq_ok.mp done
    obtain ⟨-, -, ⟨⟩, done⟩ := Parser.bind_eq_ok.mp done
    split at done
    · next ends =>
      cases done
      refine ⟨far₂.dropWhile (·.kind = .newline), Parser.bind_eq_ok.mpr ⟨(), _, rfl,
        Parser.bind_eq_ok.mpr ⟨_, _, rfl, ?_⟩⟩⟩
      rw [same₁, if_neg goesOn]
      refine Parser.bind_eq_ok.mpr ⟨_, _, run', Parser.bind_eq_ok.mpr ⟨(), _, rfl,
        Parser.bind_eq_ok.mpr ⟨_, _, rfl, ?_⟩⟩⟩
      rw [same₃, if_pos ends]
      rfl
    · exact nomatch done

theorem hole_eq_ok {source : String} {pos : Position} {outer after : Stream} {expr : Expr} :
    hole reach source pos outer = .ok (expr, after) ↔
      after = outer ∧ ∃ tokens rest, tokenizeAt source pos = .ok tokens
        ∧ holeExpression reach pos (Stream.ofTokens tokens) = .ok (expr, rest) := by
  unfold hole
  constructor
  · intro done
    split at done
    · exact nomatch done
    · next tokens read =>
      split at done
      · exact nomatch done
      · next found rest inner =>
        cases done
        exact ⟨rfl, tokens, rest, read, inner⟩
  · rintro ⟨rfl, tokens, rest, read, inner⟩
    simp only [read, inner]

theorem hole_follows (follower : Follower lines reach reach') (source : String) {pos : Position}
    (placed : pos.Placed) :
    FollowsFlat lines (Expr.relocate (Position.below lines)) (hole reach source pos)
      (hole reach' source (pos.below lines)) := by
  intro near sound expr after done
  obtain ⟨rfl, tokens, rest, read, inner⟩ := hole_eq_ok.mp done
  refine ⟨.refl _, fun more far seam mimics => .inr ⟨far, hole_eq_ok.mpr ⟨rfl, ?_⟩, mimics⟩⟩
  obtain ⟨front, finish, same, genuine⟩ :=
    (Scans.tokenizeAt_eq_ok.mp read).genuine (Position.clamp_placed pos)
  subst same
  have again := tokenizeAt_below placed read lines
  rw [List.map_append] at again
  rw [ofTokens_append front rfl] at inner
  have inside : Stream.Mimics lines [] (.ofList front ⟨.endOfInput, "", finish⟩)
      (.ofList (front.map (Token.below lines)) ⟨.endOfInput, "", finish.below lines⟩) :=
    ⟨(List.append_nil _).symm, by simp [Stream.ofList], rfl, rfl⟩
  obtain ⟨rest', inner'⟩ :=
    holeExpression_follows follower ⟨genuine, rfl, rfl⟩ inside inner (pos.below lines)
  refine ⟨_, rest', again, ?_⟩
  rw [List.map_singleton, ofTokens_append]
  · exact inner'
  · rfl

theorem templateParts_follows (follower : Follower lines reach reach')
    (pieces : List TemplatePiece)
    (placed : ∀ source pos, .hole source pos ∈ pieces → pos.Placed) :
    FollowsFlat lines (TemplatePart.relocateAll (Position.below lines)) (templateParts reach pieces)
      (templateParts reach' (pieces.map (TemplatePiece.below lines))) := by
  induction pieces with
  | nil => exact .result rfl rfl
  | cons piece rest ih =>
      have later := ih fun source pos member => placed source pos (List.mem_cons_of_mem _ member)
      cases piece with
      | text cooked => exact .then later fun parts => .result rfl rfl
      | hole source pos =>
          exact .then (hole_follows follower source (placed source pos List.mem_cons_self))
            fun expr => .then later fun parts => .result rfl rfl

end Grammar
end Rill

import Rill.Proofs.Following.Statement
import Rill.Proofs.Writable

/-!
# Productions make expressions that can be written
-/

set_option autoImplicit false

namespace Rill

/-- A way to reach goals that makes trees that can be written. -/
structure Maker (reach : Reach) : Prop where
  statement : Makes Stmt.Writable (reach .statement)
  conditional : Makes (fun stmt => stmt.Unguarded → ∃ words, stmt.Branch words) (reach .conditional)
  expression : Makes Expr.Writable (reach .expression)
  operation : ∀ power, Makes Expr.Writable (reach (.operation power))
  operand : Makes Expr.Writable (reach .operand)
  pattern : Makes Pattern.Writable (reach .pattern)

theorem Binding.writable {name : String} {value : Option Expr} (named : Identifier name)
    (initial : ∀ expr ∈ value, expr.Writable) : (Binding.mk name value).Writable := by
  rintro ⟨all⟩
  cases value with
  | none => exact ⟨_, .bare named⟩
  | some expr =>
      obtain ⟨words, written⟩ := Expr.Form.written (initial expr rfl (all expr rfl))
      exact ⟨_, .init named written⟩

def Function.Made (name : Option String) (fn : Function) : Prop :=
  (∃ params block pos, fn = ⟨name, params, .block block, pos⟩)
    ∧ (fn.Unguarded → ∃ words, fn.Rest words)

namespace Grammar

variable {reach : Reach}

/-! ## Blocks and functions -/

theorem block_makes (maker : Maker reach) : Makes Block.Writable (block reach) := by
  refine .skips (.expects fun opening => ?_)
  refine .gathers Stmt.Writable (fun stmts => ∀ stmt ∈ stmts, stmt.Writable) nofun
    (fun before all => ?_) fun stmts all => .result ?_
  · refine .skips (.eaten (.result (forall_mem_reverse all)) (.checked .unexpecteds ?_))
    exact maker.statement.bind fun stmt here => .result (List.forall_mem_cons.mpr ⟨here, all⟩)
  · rintro ⟨inside⟩
    obtain ⟨rows, rfl, written⟩ := rows_of_writable all inside
    exact ⟨_, .mk written⟩

theorem initialiser_makes (maker : Maker reach) :
    Makes (fun value => ∀ expr ∈ value, expr.Writable) (initialiser reach) := by
  refine .eaten (.skips (maker.expression.bind fun expr here => .result ?_)) (.result nofun)
  rintro _ ⟨⟩
  exact here

theorem params_makes (maker : Maker reach) :
    Makes (fun params => ∀ param ∈ params, param.Writable) (params reach) := by
  refine .expects fun _ => ?_
  have item : Makes Binding.Writable
      (Parser.identifier >>= fun name => initialiser reach >>= fun value => pure ⟨name, value⟩) :=
    Makes.identifier.bind fun name named => (initialiser_makes maker).bind fun value all =>
      .result (Binding.writable named all)
  exact .listed item

theorem functionRest_makes (maker : Maker reach) (name : Option String) (pos : Position) :
    Makes (Function.Made name) (functionRest reach name pos) := by
  refine (params_makes maker).bind fun params given => (block_makes maker).bind fun body here =>
    .result ⟨⟨params, body, pos, rfl⟩, ?_⟩
  intro unguarded
  cases unguarded with
  | block all inner =>
      obtain ⟨words, written⟩ := here inner
      obtain ⟨rows, rfl, named⟩ := rows_of_writable given all
      exact ⟨_, .mk named written⟩

/-! ## Comprehensions -/

def ClausesMade (clauses : List Clause) : Prop :=
  (∃ name source rest, clauses = .each name source :: rest) ∧ ∀ clause ∈ clauses, clause.Writable

theorem ClausesMade.add {done : List Clause} (made : done = [] ∨ ClausesMade done.reverse)
    {clause : Clause} (first : done = [] → ∃ name source, clause = .each name source)
    (here : clause.Writable) : ClausesMade (clause :: done).reverse := by
  rw [List.reverse_cons]
  rcases made with rfl | ⟨⟨name, source, rest, same⟩, all⟩
  · obtain ⟨name, source, rfl⟩ := first rfl
    exact ⟨⟨name, source, [], rfl⟩, List.forall_mem_singleton.mpr here⟩
  · refine ⟨⟨name, source, rest ++ [clause], by rw [same]; rfl⟩, ?_⟩
    exact List.forall_mem_append.mpr ⟨all, List.forall_mem_singleton.mpr here⟩

theorem each_makes (maker : Maker reach) {done : List Clause}
    (made : done = [] ∨ ClausesMade done.reverse) :
    Makes (Parser.Round.All (fun found : List Clause => ClausesMade found.reverse) ClausesMade)
      (Parser.identifier >>= fun name => Parser.expect (.keyword .in_) >>= fun _ =>
        reach .expression >>= fun source => pure (.again (.each name source :: done))) := by
  refine Makes.identifier.bind fun name named => .expects fun _ =>
    maker.expression.bind fun source here => .result ?_
  refine ClausesMade.add made (fun _ => ⟨name, source, rfl⟩) ?_
  intro unguarded
  cases unguarded with
  | each inside =>
      obtain ⟨words, written⟩ := Expr.Form.written (here inside)
      exact ⟨_, .each named written⟩

theorem clauses_makes (maker : Maker reach) {stream : Stream}
    (starts : (stream.dropWhile (·.kind = .newline)).current.kind = .keyword .for_) :
    MakesFrom stream ClausesMade (clauses reach) := by
  refine .loop (fun done => ClausesMade done.reverse) ?_ fun done made => ?_
  · -- without a clause before it, the first round must take the `for` that is ahead
    exact .skips (.eaten starts (each_makes maker (.inl rfl) _))
  · refine .skips (.eaten (each_makes maker (.inr made)) ?_)
    split
    · refine .eaten (maker.expression.bind fun cond here => .result ?_) (.result made)
      refine ClausesMade.add (.inr made) (fun empty => ?_) ?_
      · obtain ⟨⟨name, source, rest, same⟩, -⟩ := made
        rw [empty] at same
        exact nomatch same
      · intro unguarded
        cases unguarded with
        | only inside =>
            obtain ⟨words, written⟩ := Expr.Form.written (here inside)
            exact ⟨_, .only written⟩
    · exact .result made

theorem ClausesMade.rows {clauses : List Clause} (made : ClausesMade clauses)
    (all : ∀ clause ∈ clauses, clause.Unguarded) :
    ∃ name source middle, ∃ rows : List (Clause × List Token),
      clauses = .each name source :: rows.map Prod.fst
        ∧ Clause.Written (.each name source) middle ∧ ∀ row ∈ rows, Clause.Written row.1 row.2 := by
  obtain ⟨⟨name, source, rest, rfl⟩, writable⟩ := made
  obtain ⟨first, later⟩ := List.forall_mem_cons.mp writable
  obtain ⟨inside, below⟩ := List.forall_mem_cons.mp all
  obtain ⟨middle, here⟩ := first inside
  obtain ⟨rows, rfl, written⟩ := rows_of_writable later below
  exact ⟨name, source, middle, rows, rfl, here, written⟩

/-! ## Arrays -/

theorem rows_of_written {items : List Expr} (all : ∀ item ∈ items, item.Writable)
    (inside : ∀ item ∈ items, item.Unguarded) :
    ∃ rows : List (Expr × List Token), rows.map Prod.fst = items
      ∧ ∀ row ∈ rows, Expr.Written row.1 row.2 :=
  rows_of_writable (fun item member unguarded => Expr.Form.written (all item member unguarded)) inside

theorem row_of_written {item : Option Expr} (all : ∀ found ∈ item, found.Writable)
    (inside : ∀ found ∈ item, found.Unguarded) :
    ∃ row : Option (Expr × List Token), row.map Prod.fst = item
      ∧ ∀ found ∈ row, Expr.Written found.1 found.2 :=
  row_of_writable (fun found member unguarded => Expr.Form.written (all found member unguarded)) inside

theorem array_writable {pos : Position} {items : List Expr} (all : ∀ item ∈ items, item.Writable) :
    (Expr.array pos items).Writable := by
  intro unguarded
  cases unguarded with
  | array inside =>
      obtain ⟨rows, rfl, written⟩ := rows_of_written all inside
      exact ⟨_, .array written⟩

theorem array_makes (maker : Maker reach) (pos : Position) :
    Makes Expr.Writable (array reach pos) := by
  refine .skips (.eaten (.result (array_writable nofun)) (maker.expression.bind fun first here => ?_))
  refine .skips fun stream => .checked (fun starts => ?_) (Makes.gathers Expr.Writable
    (fun items => ∀ item ∈ items, item.Writable) (List.forall_mem_singleton.mpr here)
    (fun before all => ?_) (fun items all => ?_) stream)
  · have found : MakesFrom stream ClausesMade (clauses reach) :=
      clauses_makes maker (Stream.dropWhile_newlines starts nofun)
    refine found.bind fun clauses made => .skips (.expects fun _ => .result ?_)
    intro unguarded
    cases unguarded with
    | arrayOf inside all =>
        obtain ⟨name, source, middle, rows, rfl, each, written⟩ := made.rows all
        obtain ⟨words, first⟩ := Expr.Form.written (here inside)
        exact ⟨_, .arrayOf first each written⟩
  · refine .eaten (.skips (.checked (.result (forall_mem_reverse all)) ?_))
      (.result (forall_mem_reverse all))
    exact maker.expression.bind fun item here => .skips
      (.result (List.forall_mem_cons.mpr ⟨here, all⟩))
  · exact .expects fun _ => .result (array_writable all)

/-! ## Records -/

/-- What a key can be, with the expression that it stands for in a comprehension. -/
inductive KeyMade : Key → Expr → Prop
  | computed {key : Expr} (here : key.Writable) : KeyMade (.computed key) key
  | literal {name : String} {pos : Position} {value : Literal} {word : Token}
      (atom : Expr.Atom true (.literal pos value) word) : KeyMade (.name name) (.literal pos value)
  | named {name : String} {pos : Position} (nameable : Nameable name) :
      KeyMade (.name name) (.ident pos name)

theorem key_makes (maker : Maker reach) :
    Makes (fun found => KeyMade found.1 found.2) (key reach) := by
  refine Makes.current.bind fun token shown => ?_
  have named : Makes (fun found => KeyMade found.1 found.2)
      (Parser.memberName >>= fun name => pure (Key.name name, Expr.ident token.pos name)) :=
    Makes.memberName.bind fun name nameable => .result (.named nameable)
  obtain ⟨kind, text, pos⟩ := token
  cases kind with
  | text => exact .advances fun _ => .result (.literal .text)
  | number =>
      have genuine := shown nofun
      obtain ⟨x, value⟩ := genuine.number_read rfl
      have same : (Number.read text).getD (0.0 / 0.0) = x := by
        rw [show Number.read text = some x from value, Option.getD_some]
      have made : KeyMade (.name text) (.literal pos (.number ((Number.read text).getD (0.0 / 0.0)))) :=
        same ▸ .literal (.number (genuine.numeral rfl value))
      exact .advances fun _ => .result made
  | mark m =>
      cases m with
      | openBracket =>
          exact .advances fun _ => .skips (maker.expression.bind fun key here =>
            .skips (.expects fun _ => .result (.computed here)))
      | _ => exact named
  | _ => exact named

/-- A value that can be written, or one that its key stands for. -/
inductive ValueMade : Key → Expr → Expr → Prop
  | given {key : Key} {meant value : Expr} (here : value.Writable) : ValueMade key meant value
  | shorthand {name : String} {pos : Position} :
      ValueMade (.name name) (.ident pos name) (.ident pos name)

theorem entryValue_makes (maker : Maker reach) {key : Key} {meant : Expr} (made : KeyMade key meant) :
    Makes (ValueMade key meant) (entryValue reach (key, meant)) := by
  refine .eaten (.skips (maker.expression.mono fun _ here => .given here)) ?_
  cases made with
  | computed | literal => exact .unexpected
  | named => exact .result .shorthand

theorem field_writable {key : Key} {meant value : Expr} (made : KeyMade key meant)
    (here : ValueMade key meant value) : (Entry.field key value).Writable := by
  intro unguarded
  cases here with
  | given here =>
      cases unguarded with
      | named inner =>
          obtain ⟨words, written⟩ := Expr.Form.written (here inner)
          exact ⟨_, .named .text written⟩
      | computed first second =>
          cases made with
          | computed inside =>
              obtain ⟨front, key⟩ := Expr.Form.written (inside first)
              obtain ⟨back, value⟩ := Expr.Form.written (here second)
              exact ⟨_, .computed key value⟩
  | shorthand =>
      cases made with
      | named nameable => exact ⟨_, .shorthand nameable⟩

theorem keyed_of_made {key : Key} {meant value : Expr} (made : KeyMade key meant)
    (here : ValueMade key meant value) (first : meant.Unguarded) (second : value.Unguarded) :
    ∃ words, Entry.Keyed meant value words := by
  cases here with
  | given here =>
      obtain ⟨back, value⟩ := Expr.Form.written (here second)
      cases made with
      | computed inside =>
          obtain ⟨front, key⟩ := Expr.Form.written (inside first)
          exact ⟨_, .computed key value⟩
      | literal atom => exact ⟨_, .computed (.group (.atom atom)) value⟩
      | named nameable => exact ⟨_, .named nameable value⟩
  | shorthand =>
      cases made with
      | named nameable => exact ⟨_, .shorthand nameable⟩

theorem record_makes (maker : Maker reach) (pos : Position) :
    Makes Expr.Writable (record reach pos) := by
  refine .loop (fun before => ∀ entry ∈ before, entry.Writable) (fun before all => ?_) nofun
  refine .skips (.eaten (.result ?_) (.eaten (maker.expression.bind fun source here => .result ?_) ?_))
  · intro unguarded
    cases unguarded with
    | record inside =>
        obtain ⟨rows, same, written⟩ := rows_of_writable (forall_mem_reverse all) inside
        rw [← same]
        exact ⟨_, .record written⟩
  · refine List.forall_mem_cons.mpr ⟨?_, all⟩
    intro unguarded
    cases unguarded with
    | spread inside =>
        obtain ⟨words, written⟩ := Expr.Form.written (here inside)
        exact ⟨_, .spread written⟩
  · refine (key_makes maker).bind fun found made => ?_
    refine (entryValue_makes maker made).bind fun value here stream => .pastNewlines ?_
    split
    · next starts =>
      have starts : (stream.dropWhile (·.kind = .newline)).current.kind = .keyword .for_ :=
        of_decide_eq_true (Bool.and_eq_true_iff.mp starts).2
      refine .skips (.bind (clauses_makes maker (Stream.dropWhile_newlines starts nofun))
        fun clauses each => .skips (.expects fun _ => .result ?_))
      intro unguarded
      cases unguarded with
      | recordOf first second inside =>
          obtain ⟨name, source, middle, rows, rfl, each, written⟩ := each.rows inside
          obtain ⟨words, front⟩ := keyed_of_made made here first second
          exact ⟨_, .recordOf front each written⟩
    · refine Makes.current.bind (fun after _ => ?_) stream
      split
      · exact .result (List.forall_mem_cons.mpr ⟨field_writable made here, all⟩)
      · exact .unexpected

/-! ## Templates -/

theorem sound_ofTokens {source : String} {start : Position} {tokens : List Token}
    (read : tokenizeAt source start = .ok tokens) : (Stream.ofTokens tokens).Sound := by
  obtain ⟨front, finish, rfl, genuine⟩ :=
    (Scans.tokenizeAt_eq_ok.mp read).genuine (Position.clamp_placed start)
  rw [ofTokens_append front rfl]
  exact ⟨genuine, rfl, rfl⟩

theorem holeExpression_makes (maker : Maker reach) (pos : Position) :
    Makes Expr.Writable (holeExpression reach pos) :=
  .skips (.checked .fails (maker.expression.bind fun _ here => .skips
    (.checked (.result here) .unexpected)))

theorem hole_makes (maker : Maker reach) (source : String) (pos : Position) :
    Makes Expr.Writable (hole reach source pos) := by
  intro stream sound expr after run
  unfold hole at run
  split at run
  · exact nomatch run
  · next tokens read =>
    split at run
    · exact nomatch run
    · next expr inner done =>
      cases run
      exact ⟨(holeExpression_makes maker pos _ (sound_ofTokens read) done).1, sound⟩

def PartsMade (pieces : List TemplatePiece) (parts : List TemplatePart) : Prop :=
  parts.map TemplatePart.cooked? = pieces.map TemplatePiece.cooked?
    ∧ ∀ part ∈ parts, part.Writable

theorem templateParts_makes (maker : Maker reach) (pieces : List TemplatePiece) :
    Makes (PartsMade pieces) (templateParts reach pieces) := by
  induction pieces with
  | nil => exact .result ⟨rfl, nofun⟩
  | cons piece pieces ih =>
      cases piece with
      | text cooked =>
          refine ih.bind fun parts ⟨same, all⟩ => .result ⟨congrArg (some cooked :: ·) same, ?_⟩
          exact List.forall_mem_cons.mpr ⟨fun _ => ⟨_, .text⟩, all⟩
      | hole source pos =>
          refine (hole_makes maker source pos).bind fun expr here =>
            ih.bind fun parts ⟨same, all⟩ => .result ⟨congrArg (none :: ·) same, ?_⟩
          refine List.forall_mem_cons.mpr ⟨fun unguarded => ?_, all⟩
          cases unguarded with
          | hole inner =>
              obtain ⟨words, written⟩ := Expr.Form.written (here inner)
              exact ⟨_, .hole written⟩

theorem template_writable {pos : Position} {token : Token} {pieces : List TemplatePiece}
    {parts : List TemplatePart} (genuine : token.Genuine) (kind : token.kind = .template pieces)
    (made : PartsMade pieces parts) : (Expr.template pos parts).Writable := by
  intro unguarded
  cases unguarded with
  | template all =>
      obtain ⟨rows, rfl, written⟩ := rows_of_writable made.2 all
      refine ⟨_, .template ?_ written⟩
      rw [← Function.comp_def, ← List.map_map, made.1]
      exact genuine.alternates kind

/-! ## Patterns -/

theorem numberValue_makes (token : Token) :
    Makes (fun x => Number.read token.text = some x) (numberValue token) := by
  unfold numberValue
  split
  · next x found => exact .result found
  · exact .fail

theorem rows_of_patterns {patterns : List Pattern}
    (all : ∀ pattern ∈ patterns, pattern.Writable) :
    ∃ rows : List (Pattern × List Token), rows.map Prod.fst = patterns
      ∧ ∀ row ∈ rows, Pattern.Written true row.1 row.2 :=
  rows_of fun pattern inside => (all pattern inside).imp fun _ written => written.mono

theorem arrayPattern_makes (maker : Maker reach) :
    Makes Pattern.Writable (arrayPattern reach) := by
  refine .loop (fun before => ∀ pattern ∈ before, pattern.Writable)
    (fun before all => ?_) nofun
  have plain {patterns : List Pattern} (all : ∀ pattern ∈ patterns, pattern.Writable) :
      (Pattern.array patterns.reverse none).Writable := by
    obtain ⟨rows, same, written⟩ := rows_of_patterns (forall_mem_reverse all)
    rw [← same]
    exact ⟨_, .array written⟩
  refine .skips (.eaten (.result (plain all)) (.eaten ?_ (maker.pattern.bind fun element here => ?_)))
  · refine Makes.identifier.bind fun rest named => .skips (.expects fun _ => .result ?_)
    obtain ⟨rows, same, written⟩ := rows_of_patterns (forall_mem_reverse all)
    show (Pattern.array before.reverse (some rest)).Writable
    rw [← same]
    exact ⟨_, .arrayRest written named⟩
  · have more : ∀ pattern ∈ element :: before, pattern.Writable :=
      List.forall_mem_cons.mpr ⟨here, all⟩
    exact .skips (.eaten (.result more) (.skips (.expects fun _ => .result (plain more))))

theorem patternField_makes (maker : Maker reach) :
    Makes (fun field => ∃ words, Pattern.FieldWritten field words) (patternField reach) := by
  have rest (key : String) : Makes (fun field => ∃ words, Pattern.FieldWritten field words)
      (Parser.eat (.mark .colon) >>= fun found =>
        if found = true then reach .pattern >>= fun inner => pure (key, inner)
        else pure (key, Pattern.binding key)) := by
    refine .eaten (maker.pattern.bind fun inner ⟨words, written⟩ => .result ?_) (.result ?_)
    · exact ⟨_, .paired .text written.mono⟩
    · exact ⟨_, .alone .text⟩
  exact .checked (.advances fun token => rest token.text) (Makes.memberName.bind fun key _ => rest key)

theorem recordPattern_writable {fields : List (String × Pattern)}
    (all : ∀ field ∈ fields, ∃ words, Pattern.FieldWritten field words) :
    (Pattern.record fields).Writable := by
  obtain ⟨rows, rfl, written⟩ := rows_of all
  exact ⟨_, .record written⟩

/-- A number is written with its sign apart, with or without a sign before it. -/
theorem number_writable {token : Token} (genuine : token.Genuine) (kind : token.kind = .number)
    {x : Float} (value : Number.read token.text = some x) :
    (Pattern.literal (.number x)).Writable ∧ (Pattern.literal (.number (-x))).Writable := by
  -- the token may have a sign of its own, which cancels one before it
  obtain ⟨text, y, ⟨numeral, twice⟩, rfl | rfl⟩ := genuine.unsigned kind value
  · exact ⟨⟨_, .number numeral⟩, _, .negative numeral⟩
  · rw [twice]
    exact ⟨⟨_, .negative numeral⟩, _, .number numeral⟩

theorem pattern_makes (maker : Maker reach) : Makes Pattern.Writable (pattern reach) := by
  refine Makes.current.bind fun token shown => ?_
  obtain ⟨kind, text, pos⟩ := token
  cases kind with
  | ident =>
      have named := (shown nofun).identifier rfl
      refine .advances fun _ => .result ?_
      split
      · exact ⟨_, .wildcard⟩
      · next bound => exact ⟨_, .binding named bound⟩
  | text => exact .advances fun _ => .result ⟨_, .text⟩
  | number =>
      exact .advances fun _ => (numberValue_makes _).bind fun x value =>
        .result (number_writable (shown nofun) rfl value).1
  | keyword word =>
      cases word with
      | true_ => exact .advances fun _ => .result ⟨_, .true_⟩
      | false_ => exact .advances fun _ => .result ⟨_, .false_⟩
      | nil_ => exact .advances fun _ => .result ⟨_, .nil⟩
      | _ => exact .fail
  | mark m =>
      cases m with
      | minus =>
          refine .seconds (fun token shown kind => ?_) .fail
          exact (numberValue_makes token).bind fun x value =>
            .result (number_writable (shown (kind ▸ nofun)) kind value).2
      | openBracket => exact .advances fun _ => arrayPattern_makes maker
      | openBrace =>
          exact .advances fun _ => (Makes.listed (patternField_makes maker)).bind fun fields all =>
            .result (recordPattern_writable all)
      | _ => exact .fail
  | _ => exact .fail

/-! ## Matches -/

theorem arm_makes (maker : Maker reach) : Makes Arm.Writable (arm reach) := by
  refine .expects fun _ => maker.pattern.bind fun pattern ⟨words, first⟩ => ?_
  have rest (guard : Option Expr) : Makes Arm.Writable
      (Parser.expect (.mark .fatArrow) >>= fun _ => Parser.skipNewlines >>= fun _ =>
        reach .expression >>= fun body => pure ⟨pattern, guard, body⟩) := by
    refine .expects fun _ => .skips (maker.expression.bind fun body here => .result ?_)
    rintro ⟨inner⟩
    obtain ⟨words, second⟩ := Expr.Form.written (here inner)
    exact ⟨_, .mk first second⟩
  exact .eaten (maker.expression.bind fun cond _ => rest (some cond)) (rest none)

theorem matching_makes (maker : Maker reach) (pos : Position) :
    Makes Expr.Writable (matching reach pos) := by
  refine maker.expression.bind fun subject here => .skips (.expects fun _ => ?_)
  refine .gathers Arm.Writable (fun arms => ∀ arm ∈ arms, arm.Writable) nofun
    (fun before all => .skips (.eaten (.result (forall_mem_reverse all)) ?_)) fun arms all =>
      .result fun unguarded => ?_
  · exact (arm_makes maker).bind fun arm here => .result (List.forall_mem_cons.mpr ⟨here, all⟩)
  · cases unguarded with
    | match_ inner inside =>
        obtain ⟨words, first⟩ := Expr.Form.written (here inner)
        obtain ⟨rows, rfl, written⟩ := rows_of_writable all inside
        exact ⟨_, .match_ first written⟩

/-! ## Operands -/

theorem arrowBody_makes (maker : Maker reach) {params : List Binding}
    (given : ∀ param ∈ params, param.Writable) (pos : Position) :
    Makes Expr.Writable (arrowBody reach params pos) := by
  refine .skips (.checked ?_ ?_)
  · refine (block_makes maker).bind fun body here => .result fun unguarded => ?_
    cases unguarded with
    | function inner =>
        cases inner with
        | block all inner =>
            obtain ⟨words, written⟩ := here inner
            obtain ⟨rows, rfl, named⟩ := rows_of_writable given all
            exact ⟨_, .function (.mk named written)⟩
  · refine maker.expression.bind fun body here => .result fun unguarded => ?_
    cases unguarded with
    | function inner =>
        cases inner with
        | value all inner =>
            obtain ⟨words, written⟩ := Expr.Form.written (here inner)
            obtain ⟨rows, rfl, named⟩ := rows_of_writable given all
            exact ⟨_, .arrow named written⟩

theorem parenthesised_makes (maker : Maker reach) (pos : Position) :
    Makes Expr.Writable (parenthesised reach pos) := by
  have ahead : Makes (fun _ => True) arrowAhead := by
    intro stream sound found after run
    cases run
    exact ⟨trivial, sound⟩
  refine ahead.bind fun arrow _ => ?_
  split
  · exact (params_makes maker).bind fun params given => .expects fun _ =>
      arrowBody_makes maker given pos
  · exact .advances fun _ => .skips (maker.expression.bind fun inner here =>
      .skips (.expects fun _ => .result here))

theorem named_makes (maker : Maker reach) {token : Token} (ident : Identifier token.text) :
    Makes Expr.Writable (named reach token) := by
  have given : ∀ param ∈ [(⟨token.text, none⟩ : Binding)], param.Writable :=
    List.forall_mem_singleton.mpr (Binding.writable ident nofun)
  exact .advances fun _ => .eaten (arrowBody_makes maker given token.pos)
    (.result fun _ => ⟨_, .atom (.ident ident)⟩)

theorem functionLiteral_makes (maker : Maker reach) (pos : Position) :
    Makes Expr.Writable (functionLiteral reach pos) := by
  refine .checked (Makes.identifier.bind fun name named => ?_) ?_
  · refine (functionRest_makes maker (some name) pos).bind fun fn ⟨⟨params, body, pos', same⟩, here⟩ =>
      .result fun unguarded => ?_
    subst same
    cases unguarded with
    | function inner =>
        obtain ⟨words, rest⟩ := here inner
        exact ⟨_, .namedFunction (.mk named rest)⟩
  · refine (functionRest_makes maker none pos).bind fun fn ⟨⟨params, body, pos', same⟩, here⟩ =>
      .result fun unguarded => ?_
    subst same
    cases unguarded with
    | function inner =>
        obtain ⟨words, rest⟩ := here inner
        exact ⟨_, .function rest⟩

theorem superReference_makes (pos : Position) : Makes Expr.Writable (superReference pos) :=
  .eaten (Makes.memberName.bind fun _ nameable => .result fun _ => ⟨_, .superMember nameable⟩)
    (.result fun _ => ⟨_, .super_⟩)

theorem primary_makes (maker : Maker reach) : Makes Expr.Writable (primary reach) := by
  refine Makes.current.bind fun token shown => ?_
  obtain ⟨kind, text, pos⟩ := token
  cases kind with
  | number =>
      exact .advances fun _ => (numberValue_makes _).bind fun x value =>
        .result fun _ => ⟨_, .atom (.number ((shown nofun).numeral rfl value))⟩
  | text => exact .advances fun _ => .result fun _ => ⟨_, .atom .text⟩
  | template pieces =>
      exact .advances fun _ => (templateParts_makes maker pieces).bind fun parts made =>
        .result (template_writable (shown nofun) rfl made)
  | ident => exact named_makes maker ((shown nofun).identifier rfl)
  | keyword word =>
      cases word with
      | true_ => exact .advances fun _ => .result fun _ => ⟨_, .atom .true_⟩
      | false_ => exact .advances fun _ => .result fun _ => ⟨_, .atom .false_⟩
      | nil_ => exact .advances fun _ => .result fun _ => ⟨_, .atom .nil⟩
      | func_ => exact .advances fun _ => functionLiteral_makes maker pos
      | match_ => exact .advances fun _ => matching_makes maker pos
      | super_ => exact .advances fun _ => superReference_makes pos
      | _ => exact .fail
  | mark m =>
      cases m with
      | openParen => exact parenthesised_makes maker pos
      | openBracket => exact .advances fun _ => array_makes maker pos
      | openBrace => exact .advances fun _ => record_makes maker pos
      | _ => exact .fail
  | _ => exact .fail

theorem memberAccess_makes {object : Expr} (inner : object.Writable) (pos : Position)
    (optional : Bool) : Makes Expr.Writable (memberAccess object pos optional) := by
  refine .advances fun _ => Makes.memberName.bind fun name nameable => .result fun unguarded => ?_
  cases unguarded with
  | member first =>
      obtain ⟨words, written⟩ := Expr.Form.written (inner first)
      exact ⟨_, .member written nameable⟩

theorem link_makes (maker : Maker reach) {object : Expr} (inner : object.Writable) :
    Makes (Parser.Round.All Expr.Writable Expr.Writable) (link reach object) := by
  refine Makes.current.bind fun token _ => ?_
  obtain ⟨kind, text, pos⟩ := token
  cases kind with
  | newline =>
      refine .pastNewlines fun next => ?_
      split
      · exact .skips (.result inner)
      · exact .result inner
  | mark m =>
      cases m with
      | openParen =>
          refine .advances fun _ => (Makes.listed maker.expression).bind fun args all =>
            .result fun unguarded => ?_
          cases unguarded with
          | call first inside =>
              obtain ⟨words, written⟩ := Expr.Form.written (inner first)
              obtain ⟨rows, rfl, given⟩ := rows_of_written all inside
              exact ⟨_, .call written given⟩
      | dot => exact (memberAccess_makes inner pos false).bind fun _ here => .result here
      | questionDot => exact (memberAccess_makes inner pos true).bind fun _ here => .result here
      | openBracket =>
          refine .advances fun _ => .skips (maker.expression.bind fun index here =>
            .skips (.expects fun _ => .result fun unguarded => ?_))
          cases unguarded with
          | index first second =>
              obtain ⟨front, object⟩ := Expr.Form.written (inner first)
              obtain ⟨back, index⟩ := Expr.Form.written (here second)
              exact ⟨_, .index object index⟩
      | _ => exact .result inner
  | _ => exact .result inner

theorem chain_makes (maker : Maker reach) : Makes Expr.Writable (chain reach) :=
  (primary_makes maker).bind fun _ inner => .loop _ (fun _ inner => link_makes maker inner) inner

theorem operand_makes (maker : Maker reach) : Makes Expr.Writable (operand reach) := by
  refine Makes.current.bind fun token _ => ?_
  split
  · refine .advances fun _ => maker.operand.bind fun inner here => .result fun unguarded => ?_
    cases unguarded with
    | spread source =>
        obtain ⟨words, written⟩ := Expr.Form.written (here source)
        exact ⟨_, .spread written⟩
  · split
    · refine .advances fun _ => maker.operand.bind fun inner here => .result fun unguarded => ?_
      cases unguarded with
      | unary inside =>
          obtain ⟨words, written⟩ := Expr.Form.written (here inside)
          exact ⟨_, .unary written⟩
    · exact chain_makes maker

/-! ## Expressions -/

theorem operation_makes (maker : Maker reach) (power : Nat) :
    Makes Expr.Writable (operation reach power) := by
  refine (operand_makes maker).bind fun left here => .loop _ (fun left here => ?_) here
  refine Makes.current.bind fun token _ => ?_
  split
  · exact .result here
  · split
    · exact .result here
    · refine .advances fun _ => .skips ((maker.operation _).bind fun right there =>
        .result fun unguarded => ?_)
      cases unguarded with
      | binary first second =>
          obtain ⟨front, left⟩ := Expr.Form.written (here first)
          obtain ⟨back, right⟩ := Expr.Form.written (there second)
          exact ⟨_, .binary left right⟩

theorem expression_makes (maker : Maker reach) : Makes Expr.Writable (expression reach) := by
  refine (operation_makes maker 0).bind fun cond here => .eaten (.skips ?_) (.result here)
  refine maker.expression.bind fun yes first => .skips (.expects fun _ => .skips
    (maker.expression.bind fun no second => .result fun unguarded => ?_))
  cases unguarded with
  | ternary test inside there =>
      obtain ⟨front, cond⟩ := Expr.Form.written (here test)
      obtain ⟨middle, yes⟩ := Expr.Form.written (first inside)
      obtain ⟨back, no⟩ := Expr.Form.written (second there)
      exact ⟨_, .ternary cond yes no⟩

end Grammar

end Rill

import Rill.Proofs.Writable.Expression

/-!
# Productions make statements that can be written
-/

set_option autoImplicit false

namespace Rill

/-- A statement for the head of a `for` that can be written. -/
abbrev Stmt.SimplyWritable (stmt : Stmt) : Prop := stmt.Unguarded → ∃ words, stmt.Simple words

abbrev Function.Callable (fn : Function) : Prop := fn.Unguarded → ∃ words, fn.Method words

namespace Grammar

variable {reach : Reach}

/-! ## Declarations -/

theorem destructure_makes :
    Makes (fun names => ∃ words, Destructure.Written names words) destructure := by
  refine .advances fun opening => ?_
  split
  · refine (Makes.listed Makes.identifier).bind fun names all => .result ⟨_, .array ?_⟩
    intro name inside
    obtain ⟨given, member, same⟩ := List.mem_map.mp inside
    split at same
    · exact nomatch same
    · next bound =>
      obtain rfl := Option.some.inj same
      exact ⟨all _ member, bound⟩
  · exact (Makes.listed Makes.identifier).bind fun names all => .result ⟨_, .record all⟩

/-- The variables of a declaration, each with a value if they are constants. -/
def Declared (constant : Bool) (bindings : List Binding) : Prop :=
  (constant = true → ∀ binding ∈ bindings, binding.value ≠ none)
    ∧ ∀ binding ∈ bindings, binding.Writable

theorem Declared.add {constant : Bool} {before : List Binding} (all : Declared constant before)
    {name : String} {value : Option Expr} (named : Identifier name)
    (initial : ∀ expr ∈ value, expr.Writable) (valued : ¬ (constant && value.isNone) = true) :
    Declared constant (⟨name, value⟩ :: before) := by
  refine ⟨fun constants => List.forall_mem_cons.mpr ⟨?_, all.1 constants⟩,
    List.forall_mem_cons.mpr ⟨Binding.writable named initial, all.2⟩⟩
  rintro rfl
  exact valued (by rw [constants]; rfl)

theorem Declared.reverse {constant : Bool} {before : List Binding} (all : Declared constant before) :
    Declared constant before.reverse :=
  ⟨fun constants => forall_mem_reverse (all.1 constants), forall_mem_reverse all.2⟩

theorem declared_makes (maker : Maker reach) (constant : Bool) :
    Makes (fun bindings => bindings ≠ [] ∧ Declared constant bindings) (declared reach constant) := by
  refine .loop (Declared constant) (fun before all => ?_) ⟨nofun, nofun⟩
  refine Makes.current.bind fun token _ => Makes.identifier.bind fun name named =>
    (initialiser_makes maker).bind fun value initial => ?_
  split
  · exact .fails
  · next valued =>
    have more := all.add named initial valued
    exact .eaten (.skips (.result more)) (.result ⟨by simp, more.reverse⟩)

theorem declaration_makes (maker : Maker reach) (constant : Bool) (pos : Position) :
    Makes Stmt.SimplyWritable (declaration reach constant pos) := by
  refine .advances fun _ => Makes.current.bind fun token _ => ?_
  split
  · refine destructure_makes.bind fun names ⟨words, first⟩ => .expects fun _ => .skips
      (maker.expression.bind fun value here => .result fun unguarded => ?_)
    cases unguarded with
    | destructure inner =>
        obtain ⟨words, second⟩ := Expr.Form.written (here inner)
        exact ⟨_, .destructure first second⟩
  · refine (declared_makes maker constant).bind fun bindings ⟨nonempty, valued, all⟩ =>
      .result fun unguarded => ?_
    cases unguarded with
    | declare inside =>
        obtain ⟨rows, rfl, written⟩ := rows_of_writable all inside
        refine ⟨_, .declare (fun empty => nonempty (by rw [empty]; rfl)) (fun constants row member => ?_)
          written⟩
        exact valued constants _ (List.mem_map_of_mem member)

/-! ## Assignments -/

theorem checkTarget_makes (target : Expr) :
    Makes (fun _ => isTarget target = true) (checkTarget target) := by
  unfold checkTarget
  split
  · next legal => exact .result legal
  · exact .fail

theorem step_writable {pos pos' : Position} {target : Expr} {op : AssignOp} {kind : TokenKind}
    (step : AssignOp.ofStep? kind = some op) (here : target.Writable) (legal : isTarget target = true) :
    (Stmt.assign pos target op (.literal pos' (.number 1.0))).SimplyWritable := by
  intro unguarded
  cases unguarded with
  | assign first second =>
      obtain ⟨words, written⟩ := Expr.Form.written (here first)
      unfold AssignOp.ofStep? at step
      split at step
      · cases step
        exact ⟨_, .increment legal written⟩
      · cases step
        exact ⟨_, .decrement legal written⟩
      · exact nomatch step

theorem assignment_makes (maker : Maker reach) (pos : Position) :
    Makes Stmt.SimplyWritable (assignment reach pos) := by
  refine (expression_makes maker).bind fun target here => Makes.current.bind fun token _ => ?_
  split
  · next step =>
    exact .advances fun _ => (checkTarget_makes target).bind fun _ legal =>
      .result (step_writable step here legal)
  · refine .advances fun _ => (checkTarget_makes target).bind fun _ legal => .skips
      (maker.expression.bind fun value there => .result fun unguarded => ?_)
    cases unguarded with
    | assign first second =>
        obtain ⟨front, target⟩ := Expr.Form.written (here first)
        obtain ⟨back, value⟩ := Expr.Form.written (there second)
        exact ⟨_, .assign legal target value⟩
  · refine .result fun unguarded => ?_
    cases unguarded with
    | expr inner =>
        obtain ⟨words, written⟩ := Expr.Form.written (here inner)
        exact ⟨_, .expr written⟩

theorem simple_makes (maker : Maker reach) : Makes Stmt.SimplyWritable (simple reach) := by
  refine Makes.current.bind fun token _ => ?_
  split
  · exact declaration_makes maker false token.pos
  · exact declaration_makes maker true token.pos
  · exact assignment_makes maker token.pos

/-! ## Conditions and loops -/

theorem conditional_makes (maker : Maker reach) :
    Makes (fun stmt => stmt.Unguarded → ∃ words, stmt.Branch words) (conditional reach) := by
  refine .advances fun opening => maker.expression.bind fun cond test =>
    (block_makes maker).bind fun yes here => .belated (fun other => .checked ?_ ?_)
      (.result fun unguarded => ?_)
  · refine maker.conditional.bind fun no there => .result fun unguarded => ?_
    cases unguarded with
    | if_ first second third =>
        obtain ⟨front, cond⟩ := Expr.Form.written (test first)
        obtain ⟨middle, yes⟩ := here second
        obtain ⟨back, no⟩ := there (third no rfl)
        exact ⟨_, .chained cond yes no⟩
  · refine (block_makes maker).bind fun no there => .result fun unguarded => ?_
    cases unguarded with
    | if_ first second third =>
        obtain ⟨front, cond⟩ := Expr.Form.written (test first)
        obtain ⟨middle, yes⟩ := here second
        cases third _ rfl with
        | block inner =>
            obtain ⟨back, no⟩ := there inner
            exact ⟨_, .otherwise cond yes no⟩
  · cases unguarded with
    | if_ first second =>
        obtain ⟨front, cond⟩ := Expr.Form.written (test first)
        obtain ⟨back, yes⟩ := here second
        exact ⟨_, .alone cond yes⟩

theorem optional_makes {α : Type} {good : α → Prop} {stop : Mark} {part : Parser α}
    (makes : Makes good part) : Makes (fun found => ∀ x ∈ found, good x) (optional stop part) := by
  refine .checked (.result nofun) (makes.bind fun x here => .result ?_)
  rintro _ ⟨⟩
  exact here

theorem counting_makes (maker : Maker reach) (pos : Position) (inParens : Bool) :
    Makes Stmt.Writable (counting reach pos inParens) := by
  refine (optional_makes (simple_makes maker)).bind fun init first => .expects fun _ => ?_
  refine (optional_makes maker.expression).bind fun cond test => .expects fun _ => ?_
  refine (optional_makes (simple_makes maker)).bind fun post last => ?_
  have rest : Makes Stmt.Writable (block reach >>= fun body => pure (.for_ pos init cond post body)) := by
    refine (block_makes maker).bind fun body here => .result fun unguarded => ?_
    cases unguarded with
    | for_ one two three inner =>
        obtain ⟨words, body⟩ := here inner
        obtain ⟨init, rfl, opens⟩ := row_of_writable first one
        obtain ⟨cond, rfl, asks⟩ := row_of_written test two
        obtain ⟨post, rfl, closes⟩ := row_of_writable last three
        exact ⟨_, .for_ opens asks closes body⟩
  split
  · exact .expects fun _ => rest
  · exact rest

theorem forLoop_makes (maker : Maker reach) : Makes Stmt.Writable (forLoop reach) := by
  refine .advances fun opening => Makes.eat.bind fun inParens _ => .asks fun name => .peeks fun next => ?_
  split
  · refine Makes.identifier.bind fun name named => .advances fun _ => maker.expression.bind
      fun source first => ?_
    have rest : Makes Stmt.Writable
        (block reach >>= fun body => pure (.forIn opening.pos name source body)) := by
      refine (block_makes maker).bind fun body here => .result fun unguarded => ?_
      cases unguarded with
      | forIn outer inner =>
          obtain ⟨front, source⟩ := Expr.Form.written (first outer)
          obtain ⟨back, body⟩ := here inner
          exact ⟨_, .forIn named source body⟩
    split
    · exact .expects fun _ => rest
    · exact rest
  · exact counting_makes maker opening.pos inParens

/-! ## Guards -/

/-- The name of a `catch` without one can be written too. -/
theorem defaultCaught_identifier : Identifier defaultCaught where
  toNameable := .of_chars rfl (by decide) rfl
  free := rfl

theorem caughtName_makes : Makes Identifier caughtName :=
  .eaten (Makes.identifier.bind fun _ named => .expects fun _ => .result named)
    (.checked Makes.identifier (.result defaultCaught_identifier))

theorem try_writable {pos : Position} {body : Block} {handler : Option Handler}
    {cleanup : Option Block} (followed : ¬ (handler.isNone && cleanup.isNone) = true)
    (here : body.Writable)
    (caught : ∀ found ∈ handler, Identifier found.name ∧ found.body.Writable)
    (last : ∀ block ∈ cleanup, block.Writable) :
    (Stmt.try_ pos body handler cleanup).Writable := by
  intro unguarded
  cases unguarded with
  | try_ inner inside below =>
      obtain ⟨words, written⟩ := here inner
      have handled : ∀ found ∈ handler, found.body.Unguarded → ∃ words, found.Written words := by
        rintro ⟨name, body⟩ member unguarded
        obtain ⟨named, writable⟩ := caught _ member
        obtain ⟨words, written⟩ := writable unguarded
        exact ⟨_, .mk named written⟩
      obtain ⟨handler, rfl, catches⟩ := row_of_writable handled inside
      obtain ⟨cleanup, rfl, ends⟩ := row_of_writable last below
      refine ⟨_, .try_ (fun neither => followed ?_) written catches ends⟩
      rw [neither.1, neither.2]
      rfl

theorem guarded_makes (maker : Maker reach) : Makes Stmt.Writable (guarded reach) := by
  refine .advances fun opening => (block_makes maker).bind fun body here => ?_
  have ends (handler : Option Handler) (cleanup : Option Block)
      (caught : ∀ found ∈ handler, Identifier found.name ∧ found.body.Writable)
      (last : ∀ block ∈ cleanup, block.Writable) : Makes Stmt.Writable (do
        if handler.isNone && cleanup.isNone then Parser.fail (.invalid opening.pos .bareTry)
        return .try_ opening.pos body handler cleanup) := by
    split
    · exact .fails
    · next followed => exact .result (try_writable followed here caught last)
  have finally_ (handler : Option Handler)
      (caught : ∀ found ∈ handler, Identifier found.name ∧ found.body.Writable) (cleanup : Block)
      (last : cleanup.Writable) := ends handler (some cleanup) caught (by rintro _ ⟨⟩; exact last)
  refine .belated (fun _ => ?_) ?_
  · refine caughtName_makes.bind fun name named => (block_makes maker).bind fun handler inner => ?_
    have caught : ∀ found ∈ some (Handler.mk name handler),
        Identifier found.name ∧ found.body.Writable := by
      rintro _ ⟨⟩
      exact ⟨named, inner⟩
    exact .belated (fun _ => (block_makes maker).bind fun cleanup last =>
      finally_ _ caught cleanup last) (ends _ none caught nofun)
  · exact .belated (fun _ => (block_makes maker).bind fun cleanup last =>
      finally_ none nofun cleanup last) (ends none none nofun nofun)

/-! ## Classes -/

theorem method_makes (maker : Maker reach) (pos : Position) :
    Makes Function.Callable (method reach pos) := by
  refine Makes.identifier.bind fun name named => (functionRest_makes maker (some name) pos).mono ?_
  rintro _ ⟨⟨params, body, pos, rfl⟩, here⟩ unguarded
  obtain ⟨words, rest⟩ := here unguarded
  exact ⟨_, .mk named rest⟩

theorem fields_makes (maker : Maker reach) :
    Makes (fun fields => ∀ field ∈ fields, field.Writable) (fields reach) := by
  refine .loop (fun before => ∀ field ∈ before, field.Writable) (fun before all => ?_) nofun
  refine Makes.identifier.bind fun name named => (initialiser_makes maker).bind fun value initial => ?_
  have more : ∀ field ∈ (⟨name, value⟩ : Binding) :: before, field.Writable :=
    List.forall_mem_cons.mpr ⟨Binding.writable named initial, all⟩
  exact .eaten (.result more) (.result (forall_mem_reverse more))

def MembersMade (done : List Binding × List Function) : Prop :=
  (∀ field ∈ done.1, field.Writable) ∧ ∀ fn ∈ done.2, fn.Callable

theorem classMember_makes (maker : Maker reach) {done : List Binding × List Function}
    (all : MembersMade done) :
    Makes (Parser.Round.All MembersMade MembersMade) (classMember reach done) := by
  refine .skips (Makes.current.bind fun token _ => ?_)
  have method : Makes (Parser.Round.All MembersMade MembersMade) (method reach token.pos >>= fun fn =>
      pure (.again (done.1, done.2 ++ [fn]))) := by
    refine (method_makes maker token.pos).bind fun fn here => .result ?_
    have more : MembersMade (done.1, done.2 ++ [fn]) :=
      ⟨all.1, List.forall_mem_append.mpr ⟨all.2, List.forall_mem_singleton.mpr here⟩⟩
    exact more
  have fields : Makes (Parser.Round.All MembersMade MembersMade) (fields reach >>= fun found =>
      pure (.again (done.1 ++ found, done.2))) := by
    refine (fields_makes maker).bind fun found here => .result ?_
    have more : MembersMade (done.1 ++ found, done.2) :=
      ⟨List.forall_mem_append.mpr ⟨all.1, here⟩, all.2⟩
    exact more
  split
  · exact .advances fun _ => .result all
  · exact .advances fun _ => fields
  · exact .advances fun _ => fields
  · exact .advances fun _ => method
  · refine .peeks fun next => ?_
    split
    · exact .advances fun _ => method
    · split
      · exact method
      · exact .fail
  · exact .fail

def ClassMade (decl : ClassDecl) : Prop :=
  Identifier decl.name ∧ (∀ parent ∈ decl.parent, Identifier parent)
    ∧ MembersMade (decl.fields, decl.methods)

theorem classDeclaration_makes (maker : Maker reach) : Makes ClassMade (classDeclaration reach) := by
  refine .advances fun opening => Makes.identifier.bind fun name named => ?_
  have rest (parent : Option String) (extends_ : ∀ name ∈ parent, Identifier name) : Makes ClassMade
      (Parser.skipNewlines >>= fun _ => Parser.expect (.mark .openBrace) >>= fun _ =>
        Parser.loop (classMember reach) ([], []) >>= fun members =>
          pure ⟨name, parent, members.1, members.2, opening.pos⟩) := by
    refine .skips (.expects fun _ => ?_)
    exact (Makes.loop MembersMade (fun _ all => classMember_makes maker all)
      (⟨nofun, nofun⟩ : MembersMade ([], []))).bind fun members all =>
        .result ⟨named, extends_, all⟩
  refine .eaten (Makes.identifier.bind fun parent here => rest (some parent) ?_) (rest none nofun)
  rintro _ ⟨⟩
  exact here

theorem class_writable {pos : Position} {decl : ClassDecl} (made : ClassMade decl) :
    (Stmt.class_ pos decl).Writable := by
  intro unguarded
  cases unguarded with
  | class_ valued called =>
      obtain ⟨named, extends_, fields, methods⟩ := made
      obtain ⟨fields, rfl, written⟩ := rows_of_writable fields valued
      obtain ⟨methods, rfl, callable⟩ := rows_of_writable methods called
      exact ⟨_, .class_ named extends_ written callable⟩

theorem importing_makes (pos : Position) : Makes Stmt.Writable (importing pos) := by
  refine .expects fun path => .eaten (Makes.identifier.bind fun name named => .result fun _ => ?_)
    (.result fun _ => ⟨_, .import_ nofun⟩)
  refine ⟨_, .import_ ?_⟩
  rintro _ ⟨⟩
  exact named

/-! ## Statements -/

theorem statement_makes (maker : Maker reach) : Makes Stmt.Writable (statement reach) := by
  have simply {stmt : Stmt} (here : stmt.SimplyWritable) : stmt.Writable := fun unguarded => by
    obtain ⟨words, simple⟩ := here unguarded
    exact ⟨_, .simple simple⟩
  have assign (pos : Position) : Makes Stmt.Writable (assignment reach pos) :=
    (assignment_makes maker pos).mono fun _ => simply
  refine Makes.current.bind fun token _ => ?_
  obtain ⟨kind, text, pos⟩ := token
  cases kind with
  | keyword word =>
      cases word with
      | let_ | const_ => exact (declaration_makes maker _ pos).mono fun _ => simply
      | func_ =>
          refine .peeks fun next => ?_
          split
          · refine .advances fun _ => (method_makes maker pos).bind fun fn here =>
              .result fun unguarded => ?_
            cases unguarded with
            | function inner =>
                obtain ⟨words, called⟩ := here inner
                exact ⟨_, .function called⟩
          · exact assign pos
      | class_ =>
          exact (classDeclaration_makes maker).bind fun decl made => .result (class_writable made)
      | if_ =>
          refine (conditional_makes maker).mono fun stmt here unguarded => ?_
          obtain ⟨words, branch⟩ := here unguarded
          exact ⟨_, .branch branch⟩
      | while_ =>
          refine .advances fun _ => maker.expression.bind fun cond test =>
            (block_makes maker).bind fun body here => .result fun unguarded => ?_
          cases unguarded with
          | while_ first inner =>
              obtain ⟨front, cond⟩ := Expr.Form.written (test first)
              obtain ⟨back, body⟩ := here inner
              exact ⟨_, .while_ cond body⟩
      | for_ => exact forLoop_makes maker
      | return_ =>
          refine .advances fun _ => Makes.current.bind fun next _ => ?_
          split
          · exact .result fun _ => ⟨_, .return_⟩
          · refine maker.expression.bind fun value here => .result fun unguarded => ?_
            cases unguarded with
            | return_ all =>
                obtain ⟨words, written⟩ := Expr.Form.written (here (all value rfl))
                exact ⟨_, .returnValue written⟩
      | break_ => exact .advances fun _ => .result fun _ => ⟨_, .break_⟩
      | continue_ => exact .advances fun _ => .result fun _ => ⟨_, .continue_⟩
      | try_ => exact guarded_makes maker
      | throw_ =>
          refine .advances fun _ => maker.expression.bind fun value here =>
            .result fun unguarded => ?_
          cases unguarded with
          | throw_ inner =>
              obtain ⟨words, written⟩ := Expr.Form.written (here inner)
              exact ⟨_, .throw_ written⟩
      | import_ => exact .advances fun _ => importing_makes pos
      | _ => exact assign pos
  | mark m =>
      cases m with
      | openBrace =>
          refine (block_makes maker).bind fun block here => .result fun unguarded => ?_
          cases unguarded with
          | block inner =>
              obtain ⟨words, written⟩ := here inner
              exact ⟨_, .block written⟩
      | _ => exact assign pos
  | _ => exact assign pos

/-! ## Goals -/

theorem reach_makes (depth : Nat) : Maker fun goal => Grammar.reach depth goal := by
  induction depth with
  | zero =>
      exact ⟨.exhausted, .exhausted, .exhausted, fun _ => .exhausted, .exhausted, .exhausted⟩
  | succ depth maker =>
      exact ⟨statement_makes maker, conditional_makes maker, expression_makes maker,
        operation_makes maker, operand_makes maker, pattern_makes maker⟩

theorem statements_makes (maker : Maker reach) :
    Makes (fun stmts => ∀ stmt ∈ stmts, stmt.Writable) (statements reach) := by
  refine .loop (fun before => ∀ stmt ∈ before, stmt.Writable) (fun before all => ?_) nofun
  refine .skips (.checked (.result (forall_mem_reverse all)) ?_)
  exact maker.statement.bind fun stmt here => .result (List.forall_mem_cons.mpr ⟨here, all⟩)

end Grammar

end Rill

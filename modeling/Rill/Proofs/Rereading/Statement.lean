import Rill.Proofs.Rereading.Expression

/-!
# Written statements are read again
-/

set_option autoImplicit false

namespace Rill

open Word (paren bracket brace joined ended)
open Token (front)

theorem AssignOp.ofStep?_mark (op : AssignOp) : ofStep? (.mark op.mark) = none := by
  cases op <;> rfl

theorem AssignOp.ofKind?_mark (op : AssignOp) : ofKind? (.mark op.mark) = some op := by
  cases op <;> rfl

theorem AssignOp.stops_mark (op : AssignOp) : (TokenKind.mark op.mark).stops = true := by
  cases op <;> rfl

/-- What may follow a statement: a semicolon, or the parenthesis that closes the head of a `for`. -/
def AfterSimple (more : List Token) : Prop :=
  front more = .mark .semicolon ∨ front more = .mark .closeParen

theorem AfterSimple.stops {more : List Token} (ends : AfterSimple more) :
    (front more).stops = true := by
  rcases ends with same | same <;> rw [same] <;> rfl

theorem AfterSimple.ne {more : List Token} (ends : AfterSimple more) {kind : TokenKind}
    (semicolon : .mark .semicolon ≠ kind) (paren : .mark .closeParen ≠ kind) : front more ≠ kind := by
  rcases ends with same | same <;> rwa [same]

theorem Block.Written.front {block : Block} {words : List Token} (written : block.Written words)
    (more : List Token) : Token.front (words ++ more) = .mark .openBrace := by
  cases written
  rfl

theorem Block.Written.stops {block : Block} {words : List Token} (written : block.Written words)
    (more : List Token) : (Token.front (words ++ more)).stops = true := by
  rw [written.front]
  rfl

theorem Identifier.wild : Identifier "_" := ⟨.wild, rfl⟩

namespace Grammar

variable {reach : Reach} {words more : List Token} {front_ middle back : List Token}

/-! ## Declarations -/

theorem name_listed {close : Mark} {name : String} (named : Identifier name) :
    Listed close Parser.identifier id (name, [Word.name name]) where
  starts more := by
    have kind : front (Word.name name :: more) = .ident := by rw [named.name_eq]; rfl
    have away {other : TokenKind} (shut : TokenKind.ident ≠ other) :
        front (Word.name name :: more) ≠ other := kind ▸ shut
    exact ⟨away nofun, away nofun⟩
  reads more _ := by
    have reads : Rereads (Word.name name :: more) (· = name) more
        (Parser.identifier >>= fun found => pure found) := .identifier named (.result rfl)
    rwa [bind_pure] at reads

theorem names_reads {close : Mark} (other : close ≠ .comma) {names : List String}
    (named : ∀ name ∈ names, Identifier name) (more : List Token) :
    Rereads (joined (names.map fun name => [Word.name name]) ++ Word.mark close :: more) (· = names)
      more (Parser.listed close Parser.identifier) := by
  have all : ∀ row ∈ names.map fun name => (name, [Word.name name]),
      Listed close Parser.identifier id row := by
    intro row inside
    obtain ⟨name, member, rfl⟩ := List.mem_map.mp inside
    exact name_listed (named name member)
  have rows : Rereads _ _ more _ := .listed other all
  rw [List.map_map] at rows
  refine rows.mono fun found same => ?_
  simpa [Function.comp_def] using same

theorem destructure_reads {names : Destructure} (written : names.Written words) (more : List Token) :
    Rereads (words ++ more) (· = names) more destructure := by
  cases written with
  | @array names named =>
      rw [bracket_append]
      refine .advance fun opening same => ?_
      have kind : opening.kind = .mark .openBracket := Token.kind_of_unplaced rfl same
      rw [if_pos kind]
      have given : ∀ name ∈ names.map (·.getD "_"), Identifier name := by
        intro name inside
        obtain ⟨given, member, rfl⟩ := List.mem_map.mp inside
        cases given with
        | none => exact .wild
        | some name => exact (named name member).1
      have reads := names_reads (show Mark.closeBracket ≠ .comma by nofun) given more
      rw [List.map_map] at reads
      refine reads.bind fun found same => .result ?_
      rw [same, List.map_map]
      refine congrArg Destructure.array (List.map_congr_left fun name member => ?_) |>.trans
        (congrArg Destructure.array (List.map_id _))
      cases name with
      | none => rfl
      | some name => exact if_neg (named name member).2
  | record named =>
      rw [brace_append]
      refine .advance fun opening same => ?_
      have kind : opening.kind = .mark .openBrace := Token.kind_of_unplaced rfl same
      rw [if_neg (by rw [kind]; nofun)]
      exact (names_reads (by nofun) named more).bind fun found same => .result (congrArg _ same)

theorem declaredRounds_reads (reader : Rereader reach) {constant : Bool}
    {rows : List (Binding × List Token)} (nonempty : rows ≠ [])
    (valued : constant = true → ∀ row ∈ rows, row.1.value ≠ none)
    (all : ∀ row ∈ rows, row.1.Written row.2) (ends : AfterSimple more) (done : List Binding) :
    RereadsRounds (joined (rows.map Prod.snd) ++ more)
      (fun found => found.map Binding.unplaced
        = done.reverse.map Binding.unplaced ++ rows.map (·.1.unplaced)) more
      (declaredRound reach constant) done := by
  induction rows generalizing done with
  | nil => exact absurd rfl nonempty
  | cons row rows ih =>
      obtain ⟨here, later⟩ := List.forall_mem_cons.mp all
      have initialised (value : Option Expr) (same : value.isNone = row.1.value.isNone) :
          ¬ (constant && value.isNone) = true := by
        intro bad
        rw [Bool.and_eq_true, same, Option.isNone_iff_eq_none] at bad
        exact valued bad.1 row List.mem_cons_self bad.2
      cases rows with
      | nil =>
          have single : joined ([row].map Prod.snd) = row.2 := List.append_nil _
          rw [single]
          refine .rounds_last (.sees fun token _ => ?_)
          refine binding_reads reader here ⟨ends.stops, ends.ne nofun nofun⟩ fun value same none_ => ?_
          rw [if_neg (initialised value none_)]
          refine .passes rfl (ends.ne nofun nofun) (.result ?_)
          simp [same]
      | cons next rows =>
          rw [List.map_cons, List.map_cons, Word.joined_cons_cons, List.append_assoc, List.cons_append]
          have line : front (joined ((next :: rows).map Prod.snd) ++ more) ≠ .newline := by
            rw [List.map_cons, Word.joined_cons, List.append_assoc,
              (List.forall_mem_cons.mp later).1.front]
            nofun
          have first : Rereads (row.2 ++ Word.mark .comma
                :: (joined ((next :: rows).map Prod.snd) ++ more))
              (Parser.Round.All (fun found : List Binding =>
                found.map Binding.unplaced = row.1.unplaced :: done.map Binding.unplaced) fun _ => False)
              (joined ((next :: rows).map Prod.snd) ++ more) (declaredRound reach constant done) := by
            refine .sees fun token _ => binding_reads reader here ⟨rfl, by nofun⟩
              fun value same none_ => ?_
            rw [if_neg (initialised value none_)]
            exact .eats rfl rfl (.onLine line (.result
              (congrArg (· :: done.map Binding.unplaced) same)))
          refine .rounds_again first fun found same => ?_
          have rest := ih (List.cons_ne_nil _ _)
              (fun const row inside => valued const row (List.mem_cons_of_mem _ inside)) later found
          simp only [List.map_reverse, same, List.reverse_cons, List.append_assoc] at rest
          simpa using rest

theorem declare_reads (reader : Rereader reach) {constant : Bool}
    {rows : List (Binding × List Token)} (nonempty : rows ≠ [])
    (valued : constant = true → ∀ row ∈ rows, row.1.value ≠ none)
    (all : ∀ row ∈ rows, row.1.Written row.2) (ends : AfterSimple more) (pos pos' : Position)
    (word : Token) :
    Rereads (word :: (joined (rows.map Prod.snd) ++ more))
      (·.unplaced = (Stmt.declare pos' constant (rows.map Prod.fst)).unplaced) more
      (declaration reach constant pos) := by
  have starts : front (joined (rows.map Prod.snd) ++ more) = .ident := by
    obtain ⟨row, rest, rfl⟩ := List.exists_cons_of_ne_nil nonempty
    rw [List.map_cons, Word.joined_cons, List.append_assoc, (all row List.mem_cons_self).front]
  refine .advances (.sees fun token kind => ?_)
  have ident : token.kind = .ident := (TokenKind.unplaced_eq_iff rfl).mp (kind.trans starts)
  rw [if_neg (by simp [ident])]
  refine (Rereads.loop (declaredRounds_reads reader nonempty valued all ends [])).bind
    fun found same => .result ?_
  exact congrArg (Stmt.declare .unknown constant) (Binding.unplacedAll (by simpa using same))

theorem destructured_reads (reader : Rereader reach) {names : Destructure} {value : Expr}
    (first : names.Written front_) (second : value.Written back) (ends : AfterSimple more)
    (constant : Bool) (pos pos' : Position) (word : Token) :
    Rereads (word :: (front_ ++ Word.mark .assign :: (back ++ more)))
      (·.unplaced = (Stmt.destructure pos' constant names value).unplaced) more
      (declaration reach constant pos) := by
  refine .advances (.sees fun token kind => ?_)
  have opens : token.kind = .mark .openBracket ∨ token.kind = .mark .openBrace := by
    cases first with
    | array => exact .inl ((TokenKind.unplaced_eq_iff rfl).mp kind)
    | record => exact .inr ((TokenKind.unplaced_eq_iff rfl).mp kind)
  rw [if_pos opens]
  refine (destructure_reads first _).bind fun found same => ?_
  subst same
  refine .expects rfl rfl (.onLine (second.front_ne more rfl) ?_)
  refine (reader.expression second ends.stops).bind fun expr same => .result ?_
  exact congrArg (Stmt.destructure .unknown constant found) same

/-! ## Assignments -/

theorem checkTarget_reads {found target : Expr} (same : found.unplaced = target.unplaced)
    (legal : isTarget target = true) : Rereads words (fun _ => True) words (checkTarget found) := by
  have target : isTarget found = true := by
    rw [← isTarget_relocate Position.nowhere, show found.relocate Position.nowhere = _ from same,
      isTarget_relocate, legal]
  rw [checkTarget, if_pos target]
  exact .result trivial

theorem effect_reads (reader : Rereader reach) {expr : Expr} (inner : expr.Written words)
    (ends : AfterSimple more) (pos pos' : Position) :
    Rereads (words ++ more) (·.unplaced = (Stmt.expr pos' expr).unplaced) more
      (assignment reach pos) := by
  refine (written_expression reader inner ends.stops).bind fun found same => .sees fun token kind => ?_
  have last : token.kind = .mark .semicolon ∨ token.kind = .mark .closeParen :=
    ends.imp (fun same => (TokenKind.unplaced_eq_iff rfl).mp (kind.trans same))
      fun same => (TokenKind.unplaced_eq_iff rfl).mp (kind.trans same)
  have step : AssignOp.ofStep? token.kind = none := by rcases last with kind | kind <;> rw [kind] <;> rfl
  have assign : AssignOp.ofKind? token.kind = none := by
    rcases last with kind | kind <;> rw [kind] <;> rfl
  simp only [step, assign]
  exact .result (congrArg (Stmt.expr .unknown) same)

theorem assigned_reads (reader : Rereader reach) {target value : Expr} {op : AssignOp}
    (legal : isTarget target = true) (first : target.Written front_) (second : value.Written back)
    (ends : AfterSimple more) (pos pos' : Position) :
    Rereads (front_ ++ Word.mark op.mark :: (back ++ more))
      (·.unplaced = (Stmt.assign pos' target op value).unplaced) more (assignment reach pos) := by
  refine (written_expression reader first
    (show (front (Word.mark op.mark :: (back ++ more))).stops = true from op.stops_mark)).bind
      fun found same => .look rfl fun place => ?_
  simp only [Word.mark, op.ofStep?_mark, op.ofKind?_mark]
  refine .advances ((checkTarget_reads same legal).bind fun _ _ =>
    .onLine (second.front_ne more rfl) ?_)
  refine (reader.expression second ends.stops).bind fun expr sameValue => .result ?_
  exact congrArg₂ (fun target value => Stmt.assign .unknown target op value) same sameValue

theorem step_reads (reader : Rereader reach) {target : Expr} {op : AssignOp} {m : Mark}
    (step : AssignOp.ofStep? (.mark m) = some op) (stops : (TokenKind.mark m).stops = true)
    (legal : isTarget target = true) (first : target.Written front_) (pos pos' pos'' : Position) :
    Rereads (front_ ++ Word.mark m :: more)
      (·.unplaced = (Stmt.assign pos' target op (.literal pos'' (.number 1.0))).unplaced) more
      (assignment reach pos) := by
  refine (written_expression reader first
    (show (front (Word.mark m :: more)).stops = true from stops)).bind
    fun found same => .look rfl fun place => ?_
  simp only [Word.mark, step]
  refine .advances ((checkTarget_reads same legal).bind fun _ _ => .result ?_)
  exact congrArg (fun target => Stmt.assign .unknown target op (.literal .unknown (.number 1.0))) same

theorem simple_of (reader : Rereader reach) {p : Parser Stmt}
    (declares : ∀ (constant : Bool) {words : List Token} {good : Stmt → Prop},
      (∀ pos, Rereads (Word.keyword (if constant then .const_ else .let_) :: words) good more
        (declaration reach constant pos)) →
      Rereads (Word.keyword (if constant then .const_ else .let_) :: words) good more p)
    (assigns : ∀ {words : List Token} {good : Stmt → Prop}, (front words).opens = true →
      (∀ pos, Rereads words good more (assignment reach pos)) → Rereads words good more p)
    {stmt : Stmt} (simple : stmt.Simple words) (ends : AfterSimple more) :
    Rereads (words ++ more) (·.unplaced = stmt.unplaced) more p := by
  cases simple with
  | expr inner => exact assigns (inner.opens more) fun pos => effect_reads reader inner ends pos _
  | declare nonempty valued all =>
      exact declares _ fun pos => declare_reads reader nonempty valued all ends pos _ _
  | destructure first second =>
      rw [List.cons_append, List.append_assoc, List.cons_append]
      exact declares _ fun pos => destructured_reads reader first second ends _ pos _ _
  | assign legal first second =>
      rw [List.append_assoc]
      exact assigns (first.opens _) fun pos => assigned_reads reader legal first second ends pos _
  | increment legal first =>
      rw [List.append_assoc]
      exact assigns (first.opens _) fun pos => step_reads reader rfl rfl legal first pos _ _
  | decrement legal first =>
      rw [List.append_assoc]
      exact assigns (first.opens _) fun pos => step_reads reader rfl rfl legal first pos _ _

theorem simple_reads (reader : Rereader reach) {stmt : Stmt} (written : stmt.Simple words)
    (ends : AfterSimple more) :
    Rereads (words ++ more) (·.unplaced = stmt.unplaced) more (simple reach) := by
  refine simple_of reader (fun constant words good reads => ?_) (fun opens reads => ?_) written ends
  · refine .look (by cases constant <;> rfl) fun pos => ?_
    cases constant <;> exact reads pos
  · refine .sees fun token same => ?_
    rw [← same] at opens
    clear same
    obtain ⟨kind, text, pos⟩ := token
    cases kind with
    | keyword k => cases k <;> first | exact reads pos | exact nomatch opens
    | _ => exact reads pos

/-! ## Conditions and loops -/

theorem conditional_reads (reader : Rereader reach) {stmt : Stmt} (written : stmt.Branch words)
    (more : List Token) :
    Rereads (words ++ Word.mark .semicolon :: more) (·.unplaced = stmt.unplaced)
      (Word.mark .semicolon :: more) (conditional reach) := by
  cases written with
  | alone test here =>
      rw [List.cons_append, List.append_assoc]
      refine .advance fun opening _ => (reader.expression test (here.stops _)).bind fun cond sameTest => ?_
      refine (block_reads reader here _).bind fun yes sameHere => .unannounced rfl nofun nofun (.result ?_)
      exact congrArg₂ (fun cond yes => Stmt.if_ .unknown cond yes none) sameTest sameHere
  | otherwise test here there =>
      simp only [List.cons_append, List.append_assoc]
      refine .advance fun opening _ => (reader.expression test (here.stops _)).bind fun cond sameTest => ?_
      refine (block_reads reader here _).bind fun yes sameHere => .announced rfl nofun rfl ?_
      refine .onLine nofun (.advance fun other _ => .away rfl (by rw [there.front]; nofun) ?_)
      refine (block_reads reader there _).bind fun no sameThere => .result ?_
      show Stmt.if_ .unknown _ _ (some (.block .unknown _)) = Stmt.if_ .unknown _ _ _
      rw [show cond.relocate _ = _ from sameTest, show yes.relocate _ = _ from sameHere,
        show no.relocate _ = _ from sameThere]
      rfl
  | chained test here there =>
      simp only [List.cons_append, List.append_assoc]
      refine .advance fun opening _ => (reader.expression test (here.stops _)).bind fun cond sameTest => ?_
      refine (block_reads reader here _).bind fun yes sameHere => .announced rfl nofun rfl ?_
      refine .onLine nofun (.advance fun other _ => .here rfl (by cases there <;> rfl) ?_)
      refine (reader.conditional _ there).bind fun no sameThere => .result ?_
      show Stmt.if_ .unknown _ _ (some _) = Stmt.if_ .unknown _ _ _
      rw [show cond.relocate _ = _ from sameTest, show yes.relocate _ = _ from sameHere,
        show no.relocate _ = _ from sameThere]
      rfl

theorem optional_none {α : Type} {stop : Mark} {part : Parser α} (stops : front words = .mark stop) :
    Rereads words (· = none) words (optional stop part) := .here rfl stops (.result rfl)

theorem optional_some {α : Type} {stop : Mark} {part : Parser α} {good : α → Prop}
    (goes : front words ≠ .mark stop) (reads : Rereads words good more part) :
    Rereads words (fun found => ∃ x, found = some x ∧ good x) more (optional stop part) :=
  .away rfl goes (reads.bind fun x here => .result ⟨x, rfl, here⟩)

theorem simple_front {stmt : Stmt} (written : stmt.Simple words) (more : List Token) (stop : Mark)
    (shut : (TokenKind.mark stop).starts = false) : front (words ++ more) ≠ .mark stop := by
  intro bad
  exact nomatch (bad ▸ written.starts more).symm.trans shut

theorem part_reads {row : Option (Stmt × List Token)} (reader : Rereader reach)
    (written : ∀ found ∈ row, Stmt.Simple found.1 found.2) {stop : Mark}
    (shut : (TokenKind.mark stop).starts = false) (stops : front more = .mark stop)
    (ends : AfterSimple more) :
    Rereads (row.elim [] Prod.snd ++ more)
      (fun found => Stmt.relocate? Position.nowhere found
        = Stmt.relocate? Position.nowhere (row.map Prod.fst)) more (optional stop (simple reach)) := by
  cases row with
  | none => exact (optional_none stops).mono fun found same => by rw [same]; rfl
  | some row =>
      have here := written row rfl
      refine (optional_some (simple_front here more stop shut) (simple_reads reader here ends)).mono
        fun found same => ?_
      obtain ⟨stmt, rfl, same⟩ := same
      exact congrArg some same

theorem counting_reads (reader : Rereader reach) {init post : Option (Stmt × List Token)}
    {cond : Option (Expr × List Token)} {body : Block}
    (first : ∀ row ∈ init, Stmt.Simple row.1 row.2) (test : ∀ row ∈ cond, Expr.Written row.1 row.2)
    (last : ∀ row ∈ post, Stmt.Simple row.1 row.2) (inner : body.Written back) (more : List Token)
    (pos pos' : Position) :
    Rereads (init.elim [] Prod.snd ++ Word.mark .semicolon
        :: (cond.elim [] Prod.snd ++ Word.mark .semicolon
          :: (post.elim [] Prod.snd ++ Word.mark .closeParen :: (back ++ more))))
      (·.unplaced = (Stmt.for_ pos' (init.map Prod.fst) (cond.map Prod.fst) (post.map Prod.fst)
        body).unplaced) more (counting reach pos true) := by
  refine (part_reads reader first rfl rfl (.inl rfl)).bind fun init sameFirst => .expects rfl rfl ?_
  have condition : Rereads (cond.elim [] Prod.snd ++ Word.mark .semicolon
        :: (post.elim [] Prod.snd ++ Word.mark .closeParen :: (back ++ more)))
      (fun found => Expr.relocate? Position.nowhere found
        = Expr.relocate? Position.nowhere (cond.map Prod.fst))
      (Word.mark .semicolon :: (post.elim [] Prod.snd ++ Word.mark .closeParen :: (back ++ more)))
      (optional .semicolon (reach .expression)) := by
    cases cond with
    | none => exact (optional_none rfl).mono fun found same => by rw [same]; rfl
    | some row =>
        have here := test row rfl
        refine (optional_some (here.front_ne _ rfl) (reader.expression here rfl)).mono
          fun found same => ?_
        obtain ⟨expr, rfl, same⟩ := same
        exact congrArg some same
  refine condition.bind fun cond sameTest => .expects rfl rfl ?_
  refine (part_reads reader last (show (TokenKind.mark .closeParen).starts = false from rfl) rfl
    (.inr rfl)).bind fun post sameLast => ?_
  rw [if_pos rfl]
  refine .expects rfl rfl ((block_reads reader inner more).bind fun body sameInner => .result ?_)
  show Stmt.for_ .unknown _ _ _ _ = Stmt.for_ .unknown _ _ _ _
  rw [sameFirst, sameTest, sameLast, show body.relocate _ = _ from sameInner]

theorem counts {init : Option (Stmt × List Token)} (first : ∀ row ∈ init, Stmt.Simple row.1 row.2)
    (more : List Token) :
    front (init.elim [] Prod.snd ++ Word.mark .semicolon :: more) ≠ .ident
      ∨ front (init.elim [] Prod.snd ++ Word.mark .semicolon :: more).tail ≠ .keyword .in_ := by
  -- an operand that starts with a name is nothing but the name
  have target {expr : Expr} {words : List Token} (written : expr.Written words) {rest : List Token}
      (other : front rest ≠ .keyword .in_) :
      front (words ++ rest) ≠ .ident ∨ front (words ++ rest).tail ≠ .keyword .in_ := by
    cases written with
    | bare atom => exact .inr other
    | group form => exact .inl nofun
  cases init with
  | none => exact .inl nofun
  | some row =>
      obtain ⟨stmt, words⟩ := row
      have here : stmt.Simple words := first _ rfl
      show front (words ++ Word.mark .semicolon :: more) ≠ .ident
        ∨ front (words ++ Word.mark .semicolon :: more).tail ≠ .keyword .in_
      cases here with
      | expr inner => exact target inner nofun
      | declare | destructure => exact .inl nofun
      | @assign _ _ _ op _ _ _ inner =>
          rw [List.append_assoc]
          exact target inner (by cases op <;> nofun)
      | increment _ inner | decrement _ inner =>
          rw [List.append_assoc]
          exact target inner nofun

theorem forLoop_reads (reader : Rereader reach) {init post : Option (Stmt × List Token)}
    {cond : Option (Expr × List Token)} {body : Block}
    (first : ∀ row ∈ init, Stmt.Simple row.1 row.2) (test : ∀ row ∈ cond, Expr.Written row.1 row.2)
    (last : ∀ row ∈ post, Stmt.Simple row.1 row.2) (inner : body.Written back) (more : List Token)
    (pos' : Position) :
    Rereads (Word.keyword .for_ :: Word.mark .openParen
        :: (init.elim [] Prod.snd ++ Word.mark .semicolon
          :: (cond.elim [] Prod.snd ++ Word.mark .semicolon
            :: (post.elim [] Prod.snd ++ Word.mark .closeParen :: (back ++ more)))))
      (·.unplaced = (Stmt.for_ pos' (init.map Prod.fst) (cond.map Prod.fst) (post.map Prod.fst)
        body).unplaced) more (forLoop reach) := by
  refine .advance fun opening _ => (Rereads.eaten rfl rfl).bind fun inParens here => ?_
  subst here
  refine (Rereads.checks rfl).bind fun name sameName => .peek fun next sameNext => ?_
  rw [if_neg]
  · exact counting_reads reader first test last inner more opening.pos pos'
  · intro bad
    rw [Bool.and_eq_true, decide_eq_true_eq, sameName, decide_eq_true_eq] at bad
    rw [bad.2] at sameNext
    exact (counts first _).elim (absurd bad.1) (absurd sameNext.symm)

theorem forIn_reads (reader : Rereader reach) {name : String} {source : Expr} {body : Block}
    (named : Identifier name) (first : source.Written front_) (inner : body.Written back)
    (more : List Token) (pos' : Position) :
    Rereads (Word.keyword .for_ :: Word.mark .openParen :: Word.name name :: Word.keyword .in_
        :: (front_ ++ Word.mark .closeParen :: (back ++ more)))
      (·.unplaced = (Stmt.forIn pos' name source body).unplaced) more (forLoop reach) := by
  refine .advance fun opening _ => (Rereads.eaten rfl rfl).bind fun inParens here => ?_
  subst here
  refine (Rereads.checks rfl).bind fun found sameName => .peek fun next sameNext => ?_
  rw [if_pos]
  · refine .identifier named (.advances ((reader.expression first rfl).bind fun expr same => ?_))
    rw [if_pos rfl]
    refine .expects rfl rfl ((block_reads reader inner more).bind fun body sameInner => .result ?_)
    exact congrArg₂ (Stmt.forIn .unknown name) same sameInner
  · have kind : front (Word.name name :: Word.keyword .in_
        :: (front_ ++ Word.mark .closeParen :: (back ++ more))) = .ident := by
      rw [named.name_eq]
      rfl
    rw [sameName, kind, (TokenKind.unplaced_eq_iff rfl).mp sameNext]
    rfl

/-! ## Guards -/

theorem caughtName_reads {name : String} (named : Identifier name) (more : List Token) :
    Rereads (paren [Word.name name] ++ more) (· = name) more caughtName := by
  rw [paren_append]
  exact .eats rfl rfl (.identifier named (.expects rfl rfl (.result rfl)))

section Parts

variable {after : List Token} {good : Stmt → Prop}

theorem handler_reads (reader : Rereader reach) {handler : Option (Handler × List Token)}
    (caught : ∀ row ∈ handler, Handler.Written row.1 row.2) {rest : List Token}
    (line : front rest ≠ .newline) (other : front rest ≠ .keyword .catch_)
    {f : Option Handler → Parser Stmt}
    (next : ∀ found, Handler.relocate? Position.nowhere found
        = Handler.relocate? Position.nowhere (handler.map Prod.fst) →
      Rereads rest good after (f found)) :
    Rereads (handler.elim [] Prod.snd ++ rest) good after
      (Parser.pastNewlines >>= fun token => if token.kind = .keyword .catch_ then
        Parser.skipNewlines >>= fun _ => Parser.advance >>= fun _ => caughtName >>= fun name =>
          block reach >>= fun body => f (some ⟨name, body⟩)
      else f none) := by
  cases handler with
  | none => exact .unannounced rfl line other (next none rfl)
  | some row =>
      obtain ⟨handler, words⟩ := row
      have here : handler.Written words := caught _ rfl
      cases here with
      | mk named inner =>
          simp only [Option.elim_some, List.cons_append, List.append_assoc]
          refine .announced rfl nofun rfl (.onLine nofun (.advances ?_))
          refine (caughtName_reads named _).bind fun name same => ?_
          subst same
          refine (block_reads reader inner _).bind fun block same => next (some ⟨name, block⟩) ?_
          exact congrArg (fun block => some (Handler.mk name block)) same

theorem cleanup_reads (reader : Rereader reach) {cleanup : Option (Block × List Token)}
    (last : ∀ row ∈ cleanup, Block.Written row.1 row.2) {rest : List Token}
    (line : front rest ≠ .newline) (other : front rest ≠ .keyword .finally_)
    {f : Option Block → Parser Stmt}
    (next : ∀ found, Block.relocate? Position.nowhere found
        = Block.relocate? Position.nowhere (cleanup.map Prod.fst) →
      Rereads rest good after (f found)) :
    Rereads (cleanup.elim [] (Word.keyword .finally_ :: ·.2) ++ rest) good after
      (Parser.pastNewlines >>= fun token => if token.kind = .keyword .finally_ then
        Parser.skipNewlines >>= fun _ => Parser.advance >>= fun _ => block reach >>= fun body =>
          f (some body)
      else f none) := by
  cases cleanup with
  | none => exact .unannounced rfl line other (next none rfl)
  | some row =>
      refine .announced rfl nofun rfl (.onLine nofun (.advances ?_))
      exact (block_reads reader (last row rfl) rest).bind fun block same =>
        next (some block) (congrArg some same)

end Parts

def tried (pos : Position) (body : Block) (handler : Option Handler) (cleanup : Option Block) :
    Parser Stmt := do
  if handler.isNone && cleanup.isNone then Parser.fail (.invalid pos .bareTry)
  return .try_ pos body handler cleanup

def triedRest (reach : Reach) (pos : Position) (body : Block) (handler : Option Handler) :
    Parser Stmt := do
  if (← Parser.pastNewlines).kind = .keyword .finally_ then
    Parser.skipNewlines
    let _ ← Parser.advance
    tried pos body handler (some (← block reach))
  else tried pos body handler none

theorem guarded_eq (reach : Reach) : guarded reach = (do
    let opening ← Parser.advance
    let body ← block reach
    if (← Parser.pastNewlines).kind = .keyword .catch_ then
      Parser.skipNewlines
      let _ ← Parser.advance
      let name ← caughtName
      let caught ← block reach
      triedRest reach opening.pos body (some ⟨name, caught⟩)
    else triedRest reach opening.pos body none) := rfl

theorem guarded_reads (reader : Rereader reach) {body : Block}
    {handler : Option (Handler × List Token)} {cleanup : Option (Block × List Token)}
    (followed : ¬ (handler = none ∧ cleanup = none)) (inner : body.Written words)
    (caught : ∀ row ∈ handler, Handler.Written row.1 row.2)
    (last : ∀ row ∈ cleanup, Block.Written row.1 row.2) (more : List Token) (pos' : Position) :
    Rereads (Word.keyword .try_ :: (words ++ (handler.elim [] Prod.snd
        ++ (cleanup.elim [] (Word.keyword .finally_ :: ·.2) ++ Word.mark .semicolon :: more))))
      (·.unplaced = (Stmt.try_ pos' body (handler.map Prod.fst) (cleanup.map Prod.fst)).unplaced)
      (Word.mark .semicolon :: more) (guarded reach) := by
  rw [guarded_eq]
  refine .advance fun opening _ => (block_reads reader inner _).bind fun found sameBody => ?_
  have starts : front (cleanup.elim [] (Word.keyword .finally_ :: ·.2) ++ Word.mark .semicolon :: more)
        ≠ .newline
      ∧ front (cleanup.elim [] (Word.keyword .finally_ :: ·.2) ++ Word.mark .semicolon :: more)
        ≠ .keyword .catch_ := by
    cases cleanup <;> exact ⟨nofun, nofun⟩
  refine handler_reads reader caught starts.1 starts.2 (f := triedRest reach opening.pos found)
    fun handler' sameHandler => ?_
  refine cleanup_reads reader last (by nofun) (by nofun) (f := tried opening.pos found handler')
    fun cleanup' sameCleanup => ?_
  have handled := congrArg Option.isNone sameHandler
  rw [Handler.isNone_relocate?, Handler.isNone_relocate?, Option.isNone_map] at handled
  have cleaned := congrArg Option.isNone sameCleanup
  rw [Block.isNone_relocate?, Block.isNone_relocate?, Option.isNone_map] at cleaned
  rw [tried, if_neg (by rw [handled, cleaned]; simpa using followed)]
  refine .result ?_
  show Stmt.try_ .unknown _ _ _ = Stmt.try_ .unknown _ _ _
  rw [show found.relocate _ = _ from sameBody, sameHandler, sameCleanup]

/-! ## Classes -/

theorem method_reads (reader : Rereader reach) {name : String} {params : List Binding} {body : Body}
    {pos : Position} (named : Identifier name)
    (rest : Function.Rest ⟨some name, params, body, pos⟩ words) (more : List Token)
    (pos' : Position) :
    Rereads (Word.name name :: (words ++ more))
      (·.unplaced = (Function.mk (some name) params body pos).unplaced) more (method reach pos') :=
  .identifier named (functionRest_reads reader rest more)

theorem fields_reads (reader : Rereader reach) {binding : Binding} (written : binding.Written words)
    (ends : AfterSimple more) :
    Rereads (words ++ more) (fun found => found.map Binding.unplaced = [binding.unplaced]) more
      (fields reach) := by
  rw [fields_eq]
  refine .loop (.rounds_last (binding_reads reader written ⟨ends.stops, ends.ne nofun nofun⟩
    fun value same _ => .passes rfl (ends.ne nofun nofun) (.result ?_)))
  exact congrArg (fun binding => [binding]) same

/-- The fields and methods found differ from these in their positions alone. -/
def MembersFound (fields : List Binding) (methods : List Function)
    (found : List Binding × List Function) : Prop :=
  found.1.map Binding.unplaced = fields ∧ found.2.map Function.unplaced = methods

theorem methodRounds_reads (reader : Rereader reach) {rows : List (Function × List Token)}
    (all : ∀ row ∈ rows, row.1.Method row.2) {gap : List Token}
    (apart : gap = [] ∨ gap = [Word.mark .semicolon]) (more : List Token)
    (done : List Binding × List Function) :
    RereadsRounds (gap ++ (ended (rows.map Prod.snd) ++ Word.mark .closeBrace :: more))
      (MembersFound (done.1.map Binding.unplaced)
        (done.2.map Function.unplaced ++ rows.map (·.1.unplaced))) more (classMember reach) done := by
  induction rows generalizing gap done with
  | nil =>
      refine .rounds_last (separated apart rfl (.look rfl fun pos => .advances (.result ⟨rfl, ?_⟩)))
      rw [List.map_nil, List.append_nil]
  | cons row rows ih =>
      obtain ⟨here, later⟩ := List.forall_mem_cons.mp all
      obtain ⟨fn, words⟩ := row
      rw [List.map_cons, ended_cons]
      have first : Rereads (gap ++ (words ++ Word.mark .semicolon
            :: (ended (rows.map Prod.snd) ++ Word.mark .closeBrace :: more)))
          (Parser.Round.All (MembersFound (done.1.map Binding.unplaced)
            (done.2.map Function.unplaced ++ [fn.unplaced])) fun _ => False)
          ([Word.mark .semicolon] ++ (ended (rows.map Prod.snd) ++ Word.mark .closeBrace :: more))
          (classMember reach done) := by
        cases here with
        | mk named rest =>
            refine separated apart rfl (.look rfl fun pos => .advances ?_)
            refine (method_reads reader named rest _ pos).bind fun found same => .result ⟨rfl, ?_⟩
            rw [List.map_append, List.map_singleton, same]
      refine .rounds_again first fun found same => ?_
      have rest := ih later (.inr rfl) found
      rw [same.1, same.2, List.append_assoc] at rest
      exact rest

theorem memberRounds_reads (reader : Rereader reach) {rows : List (Binding × List Token)}
    (valued : ∀ row ∈ rows, row.1.Written row.2) {methods : List (Function × List Token)}
    (called : ∀ row ∈ methods, row.1.Method row.2) {gap : List Token}
    (apart : gap = [] ∨ gap = [Word.mark .semicolon]) (more : List Token)
    (done : List Binding × List Function) :
    RereadsRounds (gap ++ (ended (rows.map (Word.keyword .let_ :: ·.2) ++ methods.map Prod.snd)
        ++ Word.mark .closeBrace :: more))
      (MembersFound (done.1.map Binding.unplaced ++ rows.map (·.1.unplaced))
        (done.2.map Function.unplaced ++ methods.map (·.1.unplaced))) more
      (classMember reach) done := by
  induction rows generalizing gap done with
  | nil =>
      rw [List.map_nil, List.nil_append, List.map_nil, List.append_nil]
      exact methodRounds_reads reader called apart more done
  | cons row rows ih =>
      obtain ⟨here, later⟩ := List.forall_mem_cons.mp valued
      rw [List.map_cons, List.cons_append, ended_cons]
      generalize others : ended (rows.map (Word.keyword .let_ :: ·.2) ++ methods.map Prod.snd)
        ++ Word.mark .closeBrace :: more = rest at ih
      have first : Rereads (gap ++ (Word.keyword .let_ :: (row.2 ++ Word.mark .semicolon :: rest)))
          (Parser.Round.All (MembersFound (done.1.map Binding.unplaced ++ [row.1.unplaced])
            (done.2.map Function.unplaced)) fun _ => False)
          ([Word.mark .semicolon] ++ rest) (classMember reach done) := by
        refine separated apart rfl (.look rfl fun pos => .advances ?_)
        refine (fields_reads reader here (.inl rfl)).bind fun found same => .result ⟨?_, rfl⟩
        rw [List.map_append, same]
      refine .rounds_again first fun found same => ?_
      have later := ih later (.inr rfl) found
      rw [same.1, same.2, List.append_assoc] at later
      exact later

theorem classDeclaration_reads (reader : Rereader reach) {name : String} {parent : Option String}
    {fields : List (Binding × List Token)} {methods : List (Function × List Token)}
    (named : Identifier name) (extends_ : ∀ name ∈ parent, Identifier name)
    (valued : ∀ row ∈ fields, row.1.Written row.2) (called : ∀ row ∈ methods, row.1.Method row.2)
    (more : List Token) (pos : Position) {word : Token} :
    Rereads (word :: Word.name name
        :: ((parent.elim [] fun parent => [Word.keyword .extends_, Word.name parent])
          ++ (brace (ended (fields.map (Word.keyword .let_ :: ·.2) ++ methods.map Prod.snd)) ++ more)))
      (fun decl => decl.relocate Position.nowhere = (ClassDecl.mk name parent (fields.map Prod.fst)
        (methods.map Prod.fst) pos).relocate Position.nowhere) more (classDeclaration reach) := by
  refine .advance fun opening _ => .identifier named ?_
  have rest : Rereads
      (brace (ended (fields.map (Word.keyword .let_ :: ·.2) ++ methods.map Prod.snd)) ++ more)
      (fun decl => decl.relocate Position.nowhere = (ClassDecl.mk name parent (fields.map Prod.fst)
        (methods.map Prod.fst) pos).relocate Position.nowhere) more
      (Parser.skipNewlines >>= fun _ => Parser.expect (.mark .openBrace) >>= fun _ =>
        Parser.loop (classMember reach) ([], []) >>= fun members =>
          pure (ClassDecl.mk name parent members.1 members.2 opening.pos)) := by
    rw [brace_append]
    refine .onLine nofun (.expects rfl rfl ?_)
    refine (Rereads.loop (memberRounds_reads reader valued called (.inl rfl) more ([], []))).bind
      fun found same => .result ?_
    simp only [ClassDecl.relocate, Binding.relocateAll_eq_map, Function.relocateAll_eq_map,
      List.map_map]
    rw [show found.1.map _ = _ from same.1, show found.2.map _ = _ from same.2]
    rfl
  cases parent with
  | none =>
      rw [brace_append] at rest ⊢
      exact .passes rfl nofun rest
  | some parent => exact .eats rfl rfl (.identifier (extends_ parent rfl) rest)

theorem importing_reads {path : String} {name : Option String}
    (named : ∀ given ∈ name, Identifier given) (more : List Token) (pos pos' : Position) :
    Rereads (Word.text path :: ((name.elim [] fun name => [Word.keyword .as_, Word.name name])
        ++ Word.mark .semicolon :: more))
      (·.unplaced = (Stmt.import_ pos' path name).unplaced) (Word.mark .semicolon :: more)
      (importing pos) := by
  refine .expect rfl rfl fun token same => ?_
  have text : token.text = path := Token.text_of_unplaced same
  cases name with
  | none => exact .passes rfl nofun (.result (by rw [text]; rfl))
  | some name => exact .eats rfl rfl (.identifier (named name rfl) (.result (by rw [text]; rfl)))

/-! ## All statements -/

theorem statement_reads (reader : Rereader reach) {stmt : Stmt} (written : stmt.Written words)
    (more : List Token) :
    Rereads (words ++ Word.mark .semicolon :: more) (·.unplaced = stmt.unplaced)
      (Word.mark .semicolon :: more) (statement reach) := by
  cases written with
  | simple simple =>
      refine simple_of reader (fun constant words good reads => ?_) (fun opens reads => ?_) simple
        (.inl rfl)
      · refine .look (by cases constant <;> rfl) fun pos => ?_
        cases constant <;> exact reads pos
      · refine .sees fun token same => ?_
        rw [← same] at opens
        clear same
        obtain ⟨kind, text, pos⟩ := token
        cases kind with
        | keyword k => cases k <;> first | exact reads pos | exact nomatch opens
        | mark m => cases m <;> first | exact reads pos | exact nomatch opens
        | _ => exact reads pos
  | branch branch =>
      have reads := conditional_reads reader branch more
      cases branch <;> exact .look rfl fun pos => reads
  | function method =>
      cases method with
      | mk named rest =>
          refine .look rfl fun pos => .peek fun token same => ?_
          have ident : token.kind = .ident := by
            rw [named.name_eq] at same
            exact (TokenKind.unplaced_eq_iff rfl).mp same
          rw [if_pos ident]
          refine .advances ((method_reads reader named rest _ pos).bind fun fn same => .result ?_)
          exact congrArg (Stmt.function .unknown) same
  | @class_ _ place _ _ _ _ named extends_ valued called =>
      simp only [List.cons_append, List.append_assoc]
      refine .look rfl fun pos => (classDeclaration_reads reader named extends_ valued called _ place).bind
        fun decl same => .result ?_
      exact congrArg (Stmt.class_ .unknown) same
  | while_ test inner =>
      rw [List.cons_append, List.append_assoc]
      refine .look rfl fun pos => .advances ?_
      refine (reader.expression test (inner.stops _)).bind fun cond sameTest => ?_
      refine (block_reads reader inner _).bind fun body sameInner => .result ?_
      exact congrArg₂ (Stmt.while_ .unknown) sameTest sameInner
  | for_ first test last inner =>
      rw [List.cons_append, List.append_assoc, paren_append, List.append_assoc, List.cons_append,
        List.append_assoc, List.cons_append]
      exact .look rfl fun pos => forLoop_reads reader first test last inner _ _
  | forIn named first inner =>
      rw [List.cons_append, List.append_assoc, paren_append]
      exact .look rfl fun pos => forIn_reads reader named first inner _ _
  | block inner =>
      have reads := block_reads reader inner (Word.mark .semicolon :: more)
      cases inner
      exact .look rfl fun pos => reads.bind fun block same =>
        .result (congrArg (Stmt.block .unknown) same)
  | return_ => exact .look rfl fun pos => .advances (.look rfl fun _ => .result rfl)
  | returnValue inner =>
      refine .look rfl fun pos => .advances (.sees fun token same => ?_)
      have opens : token.kind.unplaced.opens = true := by
        rw [same]
        exact inner.opens _
      have goes : ¬ token.kind.isTerminator = true := by
        intro bad
        simp only [TokenKind.isTerminator, Bool.or_eq_true, decide_eq_true_eq] at bad
        rcases bad with ((bad | bad) | bad) | bad <;> rw [bad] at opens <;> exact nomatch opens
      rw [if_neg goes]
      refine (reader.expression inner rfl).bind fun value same => .result ?_
      exact congrArg (fun value => Stmt.return_ .unknown (some value)) same
  | break_ | continue_ => exact .look rfl fun pos => .advances (.result rfl)
  | try_ followed inner caught last =>
      simp only [List.cons_append, List.append_assoc]
      exact .look rfl fun pos => guarded_reads reader followed inner caught last more _
  | throw_ inner =>
      refine .look rfl fun pos => .advances ((reader.expression inner rfl).bind fun value same =>
        .result ?_)
      exact congrArg (Stmt.throw_ .unknown) same
  | import_ named =>
      rw [List.cons_append, List.cons_append]
      exact .look rfl fun pos => .advances (importing_reads named more pos _)

/-! ## All goals -/

/-- Whatever the bound on the depth, goals are read again from what they are written with. -/
theorem reach_rereads (depth : Nat) : Rereader fun goal => Grammar.reach depth goal := by
  induction depth with
  | zero =>
      exact ⟨fun _ _ => .exhausted, fun _ _ => .exhausted, fun _ _ _ => .exhausted,
        fun _ _ => .exhausted, fun _ _ => .exhausted, fun _ _ => .exhausted, fun _ _ => .exhausted⟩
  | succ depth reader =>
      exact ⟨written_expression reader, fun more form => form_reads reader form more,
        fun power written ends => written_operation reader power written ends, written_operand reader,
        fun more written => pattern_reads reader written more,
        fun more written => statement_reads reader written more,
        fun more written => conditional_reads reader written more⟩

end Grammar

end Rill

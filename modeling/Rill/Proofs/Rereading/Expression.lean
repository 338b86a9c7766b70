import Rill.Proofs.Rereading.Collection

/-!
# Written patterns and expressions are read again
-/

set_option autoImplicit false

namespace Rill

open Word (paren bracket brace joined ended)
open Token (front)

theorem Pattern.Written.front_ne {signed : Bool} {pattern : Pattern} {words : List Token}
    (written : pattern.Written signed words) (more : List Token) :
    front (words ++ more) ≠ .newline ∧ front (words ++ more) ≠ .mark .closeBracket
      ∧ front (words ++ more) ≠ .mark .ellipsis := by
  cases written with
  | wildcard =>
      have kind : front ([Word.name "_"] ++ more) = .ident := rfl
      rw [kind]
      exact ⟨nofun, nofun, nofun⟩
  | binding named => rw [named.name_eq]; exact ⟨nofun, nofun, nofun⟩
  | _ => exact ⟨nofun, nofun, nofun⟩

namespace Grammar

variable {reach : Reach} {words more : List Token}

/-! ## Patterns -/

theorem element_reads (reader : Rereader reach) {pattern : Pattern}
    (written : pattern.Written true words) (more : List Token) (done : List Pattern) :
    Rereads (words ++ Word.mark .comma :: more)
      (Parser.Round.All (fun found : List Pattern => found = pattern :: done) fun _ => False) more
      (elementRound reach done) := by
  obtain ⟨line, close, dots⟩ := written.front_ne (Word.mark .comma :: more)
  refine .onLine line (.passes rfl close (.passes rfl dots ?_))
  refine (reader.pattern _ written).bind fun element same => .onLine nofun (.eats rfl rfl (.result ?_))
  exact congrArg (· :: done) same

theorem elementRounds_reads (reader : Rereader reach) {rows : List (Pattern × List Token)}
    (all : ∀ row ∈ rows, row.1.Written true row.2) (more : List Token) (done : List Pattern) :
    RereadsRounds (joined (rows.map Prod.snd) ++ Word.mark .closeBracket :: more)
      (· = .array (done.reverse ++ rows.map Prod.fst) none) more (elementRound reach) done := by
  induction rows generalizing done with
  | nil =>
      refine .rounds_last (.onLine nofun (.eats rfl rfl (.result ?_)))
      simp
  | cons row rows ih =>
      obtain ⟨here, later⟩ := List.forall_mem_cons.mp all
      cases rows with
      | nil =>
          have single : joined ([row].map Prod.snd) = row.2 := List.append_nil _
          rw [single]
          obtain ⟨line, close, dots⟩ := here.front_ne (Word.mark .closeBracket :: more)
          refine .rounds_last (.onLine line (.passes rfl close (.passes rfl dots ?_)))
          refine (reader.pattern _ here).bind fun element same => .onLine nofun ?_
          refine .passes rfl nofun (.onLine nofun (.expects rfl rfl (.result ?_)))
          simp [same]
      | cons next rows =>
          rw [List.map_cons, List.map_cons, Word.joined_cons_cons, List.append_assoc]
          refine .rounds_again (element_reads reader here _ done) fun found same => ?_
          have rest := ih later found
          simpa [same] using rest

theorem elementRounds_rest (reader : Rereader reach) {rows : List (Pattern × List Token)}
    (all : ∀ row ∈ rows, row.1.Written true row.2) {rest : String} (named : Identifier rest)
    (more : List Token) (done : List Pattern) :
    RereadsRounds (joined (rows.map Prod.snd ++ [[Word.mark .ellipsis, Word.name rest]])
        ++ Word.mark .closeBracket :: more)
      (· = .array (done.reverse ++ rows.map Prod.fst) (some rest)) more (elementRound reach) done := by
  induction rows generalizing done with
  | nil =>
      refine .rounds_last (.onLine nofun (.passes rfl nofun (.eats rfl rfl ?_)))
      refine .identifier named (.onLine nofun (.expects rfl rfl (.result ?_)))
      simp
  | cons row rows ih =>
      obtain ⟨here, later⟩ := List.forall_mem_cons.mp all
      have split : joined ((row :: rows).map Prod.snd ++ [[Word.mark .ellipsis, Word.name rest]])
          = row.2 ++ Word.mark .comma
            :: joined (rows.map Prod.snd ++ [[Word.mark .ellipsis, Word.name rest]]) := by
        cases rows <;> rfl
      rw [split, List.append_assoc, List.cons_append]
      refine .rounds_again (element_reads reader here _ done) fun found same => ?_
      have later := ih later found
      simpa [same] using later

theorem patternField_listed (reader : Rereader reach) {row : (String × Pattern) × List Token}
    (written : Pattern.FieldWritten row.1 row.2) :
    Listed .closeBrace (patternField reach) id row := by
  obtain ⟨⟨key, pattern⟩, words⟩ := row
  obtain ⟨word, rest, split, keyed, reads⟩ : ∃ word rest, words = word :: rest ∧ Word.IsKey key word
      ∧ ∀ more, AfterItem .closeBrace more →
        Rereads (rest ++ more) (· = (key, pattern)) more (Parser.eat (.mark .colon) >>= fun found =>
          if found = true then reach .pattern >>= fun inner => pure (key, inner)
          else pure (key, Pattern.binding key)) := by
    cases written with
    | alone keyed =>
        exact ⟨_, _, rfl, keyed, fun more ends => .passes rfl (ends.ne nofun nofun) (.result rfl)⟩
    | paired keyed value =>
        refine ⟨_, _, rfl, keyed, fun more _ => .eats rfl rfl ?_⟩
        exact (reader.pattern more value).bind fun inner same => .result (congrArg (key, ·) same)
  subst split
  have other : front [word] ≠ .newline ∧ front [word] ≠ .mark .closeBrace := by
    cases keyed with
    | text => exact ⟨nofun, nofun⟩
    | name => rcases Nameable.kind key with kind | ⟨k, kind⟩ <;>
        simp [front, kind]
  refine ⟨fun _ => other, fun more ends => ?_⟩
  cases keyed with
  | text => exact .here rfl rfl (.advance fun token same => Token.text_of_unplaced same ▸ reads more ends)
  | name nameable =>
      have text : front (Word.name key :: (rest ++ more)) ≠ .text := by
        rcases Nameable.kind key with kind | ⟨k, kind⟩ <;> simp [front, kind]
      exact .away rfl text (.memberName nameable (reads more ends))

theorem pattern_reads (reader : Rereader reach) {signed : Bool} {found : Pattern}
    (written : found.Written signed words) (more : List Token) :
    Rereads (words ++ more) (· = found) more (pattern reach) := by
  have value {text : String} {x : Float} {signed : Bool} (numeral : Numeral signed text x)
      (pos : Position) (rest : List Token) :
      Rereads rest (· = x) rest (numberValue ⟨.number, text, pos⟩) :=
    numberValue_reads (show Number.read (Token.mk .number text pos).text = some x from numeral.value)
  cases written with
  | wildcard => exact .look rfl fun pos => .advances (.result rfl)
  | binding named bound =>
      rw [named.name_eq]
      exact .look rfl fun pos => .advances (.result (if_neg bound))
  | number numeral =>
      refine .look rfl fun pos => .advances ((value numeral pos more).bind fun x same => .result ?_)
      rw [same]
  | negative numeral =>
      refine .look rfl fun pos => .peek fun token kind => ?_
      have number : token.kind = .number := (TokenKind.unplaced_eq_iff rfl).mp kind
      rw [if_pos number]
      refine .advances (.advance fun token same => ?_)
      rw [Token.eq_of_unplaced rfl same]
      refine (value numeral token.pos more).bind fun x same => .result ?_
      rw [same]
  | text | true_ | false_ | nil => exact .look rfl fun pos => .advances (.result rfl)
  | array all =>
      rw [bracket_append]
      exact .look rfl fun pos => .advances (.loop (elementRounds_reads reader all more []))
  | arrayRest all named =>
      rw [bracket_append]
      exact .look rfl fun pos => .advances (.loop (elementRounds_rest reader all named more []))
  | record all =>
      rw [brace_append]
      refine .look rfl fun pos => .advances ?_
      refine (Rereads.listed (show Mark.closeBrace ≠ .comma by nofun) fun row inside =>
        patternField_listed reader (all row inside)).bind fun found same => .result ?_
      rw [List.map_id] at same
      exact congrArg Pattern.record same

/-! ## Matches -/

theorem arm_reads (reader : Rereader reach) {found : Arm} (written : found.Written words)
    (ends : (front more).stops = true) :
    Rereads (words ++ more) (·.unplaced = found.unplaced) more (arm reach) := by
  cases written with
  | mk first second =>
      rw [List.cons_append, List.append_assoc, List.cons_append]
      refine .expects rfl rfl ((reader.pattern _ first).bind fun pattern same => ?_)
      subst same
      refine .passes rfl nofun (.expects rfl rfl (.onLine (second.front_ne more rfl) ?_))
      refine (reader.expression second ends).bind fun body same => .result ?_
      exact congrArg (Arm.mk pattern none) same

theorem nextArm_reads (reader : Rereader reach) {found : Arm} (written : found.Written words)
    {gap : List Token} (between : gap = [] ∨ gap = [Word.mark .comma])
    (ends : (front more).stops = true) (done : List Arm) :
    Rereads (gap ++ (words ++ more)) (Parser.Round.All (fun arms : List Arm =>
      arms.map Arm.unplaced = found.unplaced :: done.map Arm.unplaced) fun _ => False) more
      (armRound reach done) := by
  have starts : front (words ++ more) = .keyword .case_ := by
    cases written
    rfl
  refine apart between (by rw [starts]; rfl) (.passes rfl (by rw [starts]; nofun) ?_)
  refine (arm_reads reader written ends).bind fun arm same => .result ?_
  exact congrArg (· :: done.map Arm.unplaced) same

theorem armRounds_reads (reader : Rereader reach) {rows : List (Arm × List Token)}
    (all : ∀ row ∈ rows, row.1.Written row.2) (more : List Token) (done : List Arm) :
    RereadsRounds ((rows.map Prod.snd).flatMap (Word.mark .comma :: ·)
        ++ Word.mark .closeBrace :: more)
      (fun found => found.map Arm.unplaced = done.reverse.map Arm.unplaced ++ rows.map (·.1.unplaced))
      more (armRound reach) done := by
  induction rows generalizing done with
  | nil =>
      refine .rounds_last (.inEntry rfl (.eats rfl rfl (.result ?_)))
      simp
  | cons row rows ih =>
      obtain ⟨here, later⟩ := List.forall_mem_cons.mp all
      have ends := AfterItem.rest (rows.map Prod.snd) .closeBrace more
      rw [List.map_cons, List.flatMap_cons, List.append_assoc, List.cons_append]
      refine .rounds_again (nextArm_reads reader here (.inr rfl) (ends.stops rfl) done)
        fun found same bound => (ih later found bound).mono fun arms whole => ?_
      rw [whole, List.map_reverse, same]
      simp

theorem arms_reads (reader : Rereader reach) {rows : List (Arm × List Token)}
    (all : ∀ row ∈ rows, row.1.Written row.2) (more : List Token) :
    Rereads (joined (rows.map Prod.snd) ++ Word.mark .closeBrace :: more)
      (fun found => found.map Arm.unplaced = rows.map (·.1.unplaced)) more
      (Parser.loop (armRound reach) []) := by
  cases rows with
  | nil => exact .loop (armRounds_reads reader all more [])
  | cons row rows =>
      obtain ⟨here, later⟩ := List.forall_mem_cons.mp all
      have ends := AfterItem.rest (rows.map Prod.snd) .closeBrace more
      rw [List.map_cons, Word.joined_cons, List.append_assoc]
      refine .loop (.rounds_again (nextArm_reads reader here (.inl rfl) (ends.stops rfl) [])
        fun found same bound => (armRounds_reads reader later more found bound).mono
          fun arms whole => ?_)
      rw [whole, List.map_reverse, same]
      rfl

theorem matching_reads (reader : Rereader reach) {subject : Expr} {front_ : List Token}
    {rows : List (Arm × List Token)} (first : subject.Written front_)
    (all : ∀ row ∈ rows, row.1.Written row.2) (more : List Token) (pos pos' : Position) :
    Rereads (front_ ++ (brace (joined (rows.map Prod.snd)) ++ more))
      (·.unplaced = (Expr.match_ pos' subject (rows.map Prod.fst)).unplaced) more
      (matching reach pos) := by
  rw [brace_append, matching_eq]
  refine (reader.expression first rfl).bind fun expr same => .onLine nofun (.expects rfl rfl ?_)
  refine (arms_reads reader all more).bind fun arms sameArms => .result ?_
  exact congrArg₂ (Expr.match_ .unknown) same (Arm.unplacedAll sameArms)

end Grammar

/-! ## Forms -/

theorem BinaryOp.ofKind?_mark (op : BinaryOp) : ofKind? (.mark op.mark) = some op := by
  cases op <;> rfl

theorem BinaryOp.links_mark (op : BinaryOp) : (TokenKind.mark op.mark).links = false := by
  cases op <;> rfl

theorem BinaryOp.power_pos (op : BinaryOp) : 0 < op.power := by
  cases op <;> decide

theorem UnaryOp.ofKind?_mark (op : UnaryOp) : ofKind? (.mark op.mark) = some op := by
  cases op <;> rfl

theorem UnaryOp.mark_ne (op : UnaryOp) : TokenKind.mark op.mark ≠ .mark .ellipsis := by
  cases op <;> nofun

namespace Grammar

variable {reach : Reach} {words more : List Token} {front_ middle back : List Token}

theorem binary_reads (reader : Rereader reach) {op : BinaryOp} {left right : Expr}
    (first : left.Written front_) (second : right.Written back) (ends : (front more).stops = true)
    (pos : Position) :
    Rereads (front_ ++ Word.mark op.mark :: (back ++ more))
      (·.unplaced = (Expr.binary pos op left right).unplaced) more (expression reach) := by
  obtain ⟨⟨-, none_⟩, question⟩ := TokenKind.stops_iff.mp ends
  have operand := written_operand reader first
    (show (front (Word.mark op.mark :: (back ++ more))).links = false from op.links_mark)
  refine expression_reads (operand.bind fun expr same => .loop (.rounds_again ?_ fun whole same =>
    climbs_end same none_)) question
  refine .look rfl fun place => ?_
  simp only [Word.mark, op.ofKind?_mark]
  rw [if_neg (Nat.not_le.mpr op.power_pos)]
  refine .advances (.onLine (second.front_ne more rfl) ?_)
  refine (reader.operation op.power second ends).bind fun other sameOther => .result ?_
  exact congrArg₂ (Expr.binary .unknown op) same sameOther

theorem unary_reads (reader : Rereader reach) {op : UnaryOp} {operand : Expr}
    (inner : operand.Written words) (ends : (front more).stops = true) (pos : Position) :
    Rereads (Word.mark op.mark :: (words ++ more))
      (·.unplaced = (Expr.unary pos op operand).unplaced) more (expression reach) := by
  obtain ⟨⟨links, none_⟩, question⟩ := TokenKind.stops_iff.mp ends
  refine expression_reads (operation_reads 0 (.look rfl fun place => ?_) none_) question
  simp only [Word.mark, op.mark_ne, if_false, op.ofKind?_mark]
  exact .advances ((reader.operand inner links).bind fun expr same =>
    .result (congrArg (Expr.unary .unknown op) same))

theorem spread_reads (reader : Rereader reach) {source : Expr} (inner : source.Written words)
    (ends : (front more).stops = true) (pos : Position) :
    Rereads (Word.mark .ellipsis :: (words ++ more))
      (·.unplaced = (Expr.spread pos source).unplaced) more (expression reach) := by
  obtain ⟨⟨links, none_⟩, question⟩ := TokenKind.stops_iff.mp ends
  refine expression_reads (operation_reads 0 (.look rfl fun place => ?_) none_) question
  simp only [Word.mark, if_true]
  exact .advances ((reader.operand inner links).bind fun expr same =>
    .result (congrArg (Expr.spread .unknown) same))

theorem ternary_reads (reader : Rereader reach) {cond yes no : Expr} (test : cond.Written front_)
    (here : yes.Written middle) (there : no.Written back) (ends : (front more).stops = true)
    (pos : Position) :
    Rereads (front_ ++ Word.mark .question :: (middle ++ Word.mark .colon :: (back ++ more)))
      (·.unplaced = (Expr.ternary pos cond yes no).unplaced) more (expression reach) := by
  refine (operation_reads 0 (written_operand reader test rfl) rfl).bind fun expr sameTest => ?_
  refine .eats rfl rfl (.onLine (here.front_ne _ rfl) ?_)
  refine (reader.expression here rfl).bind fun left sameHere => .onLine nofun (.expects rfl rfl ?_)
  refine .onLine (there.front_ne more rfl) ((reader.expression there ends).bind fun right sameThere =>
    .result ?_)
  show Expr.ternary .unknown _ _ _ = Expr.ternary .unknown _ _ _
  rw [show expr.relocate _ = _ from sameTest, show left.relocate _ = _ from sameHere,
    show right.relocate _ = _ from sameThere]

/-! ### Chains -/

theorem linked_reads (reader : Rereader reach) {object : Expr} (first : object.Written front_)
    (arrow : front words ≠ .mark .fatArrow) (ends : (front more).stops = true) {good : Expr → Prop}
    (links : ∀ expr, expr.unplaced = object.unplaced →
      Rereads words (Parser.Round.All good fun _ => False) more (link reach expr)) :
    Rereads (front_ ++ words) good more (expression reach) := by
  obtain ⟨⟨last, none_⟩, question⟩ := TokenKind.stops_iff.mp ends
  have chain : Rereads (front_ ++ words) good more (chain reach) :=
    (primary_reads reader first arrow).bind fun expr same =>
      .loop (.rounds_again (links expr same) fun whole here => links_end here last)
  have start := TokenKind.unsigned_of_opens (first.opens words)
  exact expression_reads (operation_reads 0 (operand_reads chain start) none_) question

theorem argument_listed (reader : Rereader reach) {row : Expr × List Token}
    (written : row.1.Written row.2) :
    Listed .closeParen (reach .expression) Expr.unplaced row where
  starts more := ⟨written.front_ne more rfl, written.front_ne more rfl⟩
  reads _ ends := reader.expression written (ends.stops rfl)

theorem call_reads (reader : Rereader reach) {callee : Expr} (first : callee.Written front_)
    {rows : List (Expr × List Token)} (all : ∀ row ∈ rows, row.1.Written row.2)
    (ends : (front more).stops = true) (pos : Position) :
    Rereads (front_ ++ (paren (joined (rows.map Prod.snd)) ++ more))
      (·.unplaced = (Expr.call pos callee (rows.map Prod.fst)).unplaced) more (expression reach) := by
  rw [paren_append]
  refine linked_reads reader first (by nofun) ends fun expr same => .look rfl fun place => .advances ?_
  refine (Rereads.listed (show Mark.closeParen ≠ .comma by nofun) fun row inside =>
    argument_listed reader (all row inside)).bind fun args sameArgs => .result ?_
  exact congrArg₂ (Expr.call .unknown) same (Expr.unplacedAll sameArgs)

theorem member_reads (reader : Rereader reach) {object : Expr} (first : object.Written front_)
    {name : String} (nameable : Nameable name) (optional : Bool) (ends : (front more).stops = true)
    (pos : Position) :
    Rereads (front_ ++ Word.mark (if optional then .questionDot else .dot) :: Word.name name :: more)
      (·.unplaced = (Expr.member pos object name optional).unplaced) more (expression reach) := by
  refine linked_reads reader first (by cases optional <;> nofun) ends fun expr same => ?_
  have access (place : Position) {word : Token} : Rereads (word :: Word.name name :: more)
      (·.unplaced = (Expr.member pos object name optional).unplaced) more
      (memberAccess expr place optional) :=
    .advances (.memberName nameable (.result
      (congrArg (fun expr => Expr.member .unknown expr name optional) same)))
  cases optional <;> exact .look rfl fun place => (access place).bind fun _ here => .result here

theorem index_reads (reader : Rereader reach) {object index : Expr} (first : object.Written front_)
    (second : index.Written back) (ends : (front more).stops = true) (pos : Position) :
    Rereads (front_ ++ (bracket back ++ more))
      (·.unplaced = (Expr.index pos object index).unplaced) more (expression reach) := by
  rw [bracket_append]
  refine linked_reads reader first (by nofun) ends fun expr same => .look rfl fun place => .advances ?_
  refine .onLine (second.front_ne _ rfl) ((reader.expression second rfl).bind fun place sameIndex =>
    .onLine nofun (.expects rfl rfl (.result ?_)))
  exact congrArg₂ (Expr.index .unknown) same sameIndex

/-! ### Primaries -/

theorem functionLiteral_reads (reader : Rereader reach) {fn : Function} {words : List Token}
    (rest : fn.Rest words) (named : ∀ name ∈ fn.name, Identifier name) (more : List Token)
    (pos pos' : Position) :
    Rereads ((fn.name.toList.map Word.name) ++ (words ++ more))
      (·.unplaced = (Expr.function pos' fn).unplaced) more (functionLiteral reach pos) := by
  have done (name : Option String) (same : name = fn.name) :
      Rereads (words ++ more) (fun expr : Expr => expr.unplaced = (Expr.function pos' fn).unplaced)
        more (functionRest reach name pos >>= fun fn => pure (.function pos fn)) := by
    subst same
    exact (functionRest_reads reader rest more).bind fun found same =>
      .result (congrArg (Expr.function .unknown) same)
  cases given : fn.name with
  | none =>
      have starts : front (words ++ more) ≠ .ident := by
        cases rest
        nofun
      exact .away rfl starts (done none given.symm)
  | some name =>
      have identifier := named name given
      have kind : front (Word.name name :: (words ++ more)) = .ident := by
        rw [identifier.name_eq]
        rfl
      exact .here rfl kind (.identifier identifier (done (some name) given.symm))

theorem arrow_reads (reader : Rereader reach) {rows : List (Binding × List Token)}
    (all : ∀ row ∈ rows, row.1.Written row.2) {value : Expr} (body : value.Written words)
    (ends : (front more).stops = true) (pos pos' pos'' : Position) :
    Rereads (paren (joined (rows.map Prod.snd)) ++ Word.mark .fatArrow :: (words ++ more))
      (·.unplaced = (Expr.function pos' ⟨none, rows.map Prod.fst, .value value, pos''⟩).unplaced) more
      (parenthesised reach pos) := by
  -- the brackets between the parentheses match, so the search for an arrow ends behind them
  have neat : Neat false (joined (rows.map Prod.snd)) := .rows fun row inside => (all row inside).neat
  have nested := neat.nested
  have ahead : arrowAfterClose 0 (paren (joined (rows.map Prod.snd))
      ++ Word.mark .fatArrow :: (words ++ more)) = true := by
    rw [paren_append]
    exact (arrowAfterClose_paren nested _).mpr rfl
  refine .arrowAhead ?_
  rw [if_pos ahead]
  refine (params_reads reader all _).bind fun params sameParams => .expects rfl rfl ?_
  refine .onLine (body.front_ne more rfl) (.away rfl (body.front_ne more rfl) ?_)
  refine (reader.expression body ends).bind fun expr same => .result ?_
  exact congrArg₂ (fun params value => Expr.function .unknown ⟨none, params, .value value, .unknown⟩)
    (Binding.unplacedAll sameParams) same

theorem template_reads (reader : Rereader reach) {rows : List (TemplatePart × TemplatePiece)}
    (all : ∀ row ∈ rows, row.1.Written row.2) (more : List Token) (pos : Position) :
    Rereads (Word.template (rows.map Prod.snd) :: more)
      (·.unplaced = (Expr.template pos (rows.map Prod.fst)).unplaced) more (primary reach) := by
  refine .current fun token same => ?_
  obtain ⟨kind, text, place⟩ := token
  have kinds : kind.unplaced = .template (rows.map Prod.snd) := congrArg Token.kind same
  cases kind with
  | template pieces =>
      refine .advances ((templateParts_reads reader all (TokenKind.template.inj kinds)).bind
        fun parts sameParts => .result ?_)
      exact congrArg (Expr.template .unknown) sameParts
  | _ => exact nomatch kinds

theorem super_reads (more : List Token) (dot : front more ≠ .mark .dot) (pos pos' : Position) :
    Rereads more (·.unplaced = (Expr.super_ pos' none).unplaced) more (superReference pos) :=
  .passes rfl dot (.result rfl)

theorem superMember_reads {name : String} (nameable : Nameable name) (more : List Token)
    (pos pos' : Position) :
    Rereads (Word.mark .dot :: Word.name name :: more)
      (·.unplaced = (Expr.super_ pos' (some name)).unplaced) more (superReference pos) :=
  .eats rfl rfl (.memberName nameable (.result rfl))

/-! ### All forms -/

theorem form_reads (reader : Rereader reach) {expr : Expr} (form : expr.Form words)
    (more : List Token) :
    Rereads (words ++ Word.mark .closeParen :: more) (·.unplaced = expr.unplaced)
      (Word.mark .closeParen :: more) (expression reach) := by
  generalize ahead : Word.mark .closeParen :: more = rest
  have ends : (front rest).stops = true := ahead ▸ rfl
  have arrow : front rest ≠ .mark .fatArrow := by rw [← ahead]; nofun
  have dot : front rest ≠ .mark .dot := by rw [← ahead]; nofun
  cases form with
  | atom atom =>
      exact expression_of_primary (atom_reads atom arrow) (TokenKind.unsigned_of_opens atom.opens) ends
  | template alternate all => exact expression_of_primary (template_reads reader all rest _) rfl ends
  | array all =>
      rw [bracket_append]
      exact expression_of_primary (.look rfl fun pos => .advances (array_reads reader all rest pos _))
        rfl ends
  | record all =>
      rw [brace_append]
      exact expression_of_primary (.look rfl fun pos => .advances (record_reads reader all rest pos _))
        rfl ends
  | binary first second =>
      rw [List.append_assoc]
      exact binary_reads reader first second ends _
  | unary inner => exact unary_reads reader inner ends _
  | ternary test here there =>
      simp only [List.append_assoc, List.cons_append]
      exact ternary_reads reader test here there ends _
  | call first all =>
      rw [List.append_assoc]
      exact call_reads reader first all ends _
  | member first nameable =>
      rw [List.append_assoc]
      exact member_reads reader first nameable _ ends _
  | index first second =>
      rw [List.append_assoc]
      exact index_reads reader first second ends _
  | function body =>
      exact expression_of_primary (.look rfl fun pos => .advances
        (functionLiteral_reads reader body nofun rest pos _)) rfl ends
  | namedFunction method =>
      cases method with
      | mk named body =>
          exact expression_of_primary (.look rfl fun pos => .advances
            (functionLiteral_reads reader body (by simpa using named) rest pos _)) rfl ends
  | arrow all body =>
      rw [List.append_assoc, List.cons_append]
      refine expression_of_primary ?_ rfl ends
      have reads := arrow_reads reader all body ends
      rw [paren_append] at reads ⊢
      exact .look rfl fun pos => reads pos _ _
  | spread source => exact spread_reads reader source ends _
  | match_ first all =>
      rw [List.cons_append, List.append_assoc]
      exact expression_of_primary (.look rfl fun pos => .advances
        (matching_reads reader first all rest pos _)) rfl ends
  | arrayOf first each all =>
      rw [bracket_append]
      simp only [List.append_assoc]
      exact expression_of_primary (.look rfl fun pos => .advances
        (arrayOf_reads reader first each all rest pos _)) rfl ends
  | recordOf first each all =>
      rw [brace_append]
      simp only [List.append_assoc]
      exact expression_of_primary (.look rfl fun pos => .advances
        (recordOf_reads reader first each all rest pos _)) rfl ends
  | super_ =>
      exact expression_of_primary (.look rfl fun pos => .advances (super_reads rest dot pos _))
        rfl ends
  | superMember nameable =>
      exact expression_of_primary (.look rfl fun pos => .advances
        (superMember_reads nameable rest pos _)) rfl ends

end Grammar

end Rill

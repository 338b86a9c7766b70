import Rill.Proofs.Rereading.Operand

/-!
# Written collections are read again

Blocks and functions, arrays and records, templates, patterns and matches.
-/

set_option autoImplicit false

namespace Rill

open Word (paren bracket brace joined ended)
open Token (front)

/-! ## What statements start with -/

theorem TokenKind.starts_of_opens {kind : TokenKind} (opens : kind.opens = true) :
    kind.starts = true := by
  cases kind with
  | keyword k => cases k <;> first | rfl | exact nomatch opens
  | mark m => cases m <;> first | rfl | exact nomatch opens
  | _ => first | rfl | exact nomatch opens

theorem TokenKind.inside_of_starts {kind : TokenKind} (starts : kind.starts = true) :
    kind.parts = false ∧ kind ≠ .mark .closeBrace ∧ kind ≠ .endOfInput := by
  have away {other : TokenKind} (out : other.starts = false) : kind ≠ other := by
    rintro rfl
    exact nomatch starts.symm.trans out
  refine ⟨?_, away rfl, away rfl⟩
  rw [parts, Bool.or_eq_false_iff, decide_eq_false_iff_not, decide_eq_false_iff_not]
  exact ⟨away rfl, away rfl⟩

section

variable {words : List Token} (more : List Token)

theorem Stmt.Simple.starts {stmt : Stmt} (simple : stmt.Simple words) :
    (front (words ++ more)).starts = true := by
  cases simple with
  | expr inner => exact TokenKind.starts_of_opens (inner.opens more)
  | @declare _ constant => cases constant <;> rfl
  | @destructure _ constant => cases constant <;> rfl
  | assign _ first _ | increment _ first | decrement _ first =>
      rw [List.append_assoc]
      exact TokenKind.starts_of_opens (first.opens _)

theorem Stmt.Written.starts {stmt : Stmt} (written : stmt.Written words) :
    (front (words ++ more)).starts = true := by
  cases written with
  | simple simple => exact simple.starts more
  | branch branch => cases branch <;> rfl
  | function method => cases method; rfl
  | block inner => cases inner; rfl
  | _ => rfl

theorem Binding.Written.front {binding : Binding} (written : binding.Written words) :
    Token.front (words ++ more) = .ident := by
  cases written with
  | bare named | init named => rw [named.name_eq]; rfl

end

namespace Grammar

variable {reach : Reach} {words more : List Token}

/-! ## Blocks and functions -/

theorem initialiser_none (ends : front more ≠ .mark .assign) :
    Rereads more (· = none) more (initialiser reach) := .passes rfl ends (.result rfl)

theorem initialiser_some (reader : Rereader reach) {value : Expr} (written : value.Written words)
    (ends : (front more).stops = true) :
    Rereads (Word.mark .assign :: (words ++ more))
      (fun found => ∃ expr, found = some expr ∧ expr.unplaced = value.unplaced) more
      (initialiser reach) :=
  .eats rfl rfl (.onLine (written.front_ne more rfl)
    ((reader.expression written ends).bind fun expr same => .result ⟨expr, rfl, same⟩))

/-- What may follow a variable with its value or without one. -/
structure AfterBinding (more : List Token) : Prop where
  stops : (front more).stops = true
  assign : front more ≠ .mark .assign

theorem binding_reads {α : Type} (reader : Rereader reach) {binding : Binding}
    (written : binding.Written words) (ends : AfterBinding more) {good : α → Prop} {rest : List Token}
    {f : String → Option Expr → Parser α}
    (next : ∀ value, (Binding.mk binding.name value).unplaced = binding.unplaced →
      value.isNone = binding.value.isNone → Rereads more good rest (f binding.name value)) :
    Rereads (words ++ more) good rest
      (Parser.identifier >>= fun name => initialiser reach >>= fun value => f name value) := by
  cases written with
  | bare named =>
      refine .identifier named ((initialiser_none ends.assign).bind fun found same => ?_)
      subst same
      exact next none rfl rfl
  | init named inner =>
      refine .identifier named ((initialiser_some reader inner ends.stops).bind fun found same => ?_)
      obtain ⟨expr, rfl, same⟩ := same
      exact next (some expr) (congrArg (fun value => Binding.mk _ (some value)) same) rfl

theorem param_listed (reader : Rereader reach) {row : Binding × List Token}
    (written : row.1.Written row.2) : Listed .closeParen (param reach) Binding.unplaced row where
  starts more := by
    rw [written.front more]
    exact ⟨nofun, nofun⟩
  reads more ends := by
    have after : AfterBinding more := ⟨ends.stops rfl, ends.ne nofun nofun⟩
    exact binding_reads (f := fun name value => (pure ⟨name, value⟩ : Parser Binding)) reader written
      after fun value same _ => .result same

theorem params_reads (reader : Rereader reach) {rows : List (Binding × List Token)}
    (all : ∀ row ∈ rows, row.1.Written row.2) (more : List Token) :
    Rereads (paren (joined (rows.map Prod.snd)) ++ more)
      (fun found => found.map Binding.unplaced = rows.map (·.1.unplaced)) more (params reach) := by
  rw [paren_append]
  exact .expects rfl rfl (.listed nofun fun row inside => param_listed reader (all row inside))

theorem ended_cons (item : List Token) (items : List (List Token)) (more : List Token) :
    ended (item :: items) ++ more = item ++ Word.mark .semicolon :: (ended items ++ more) := by
  simp [ended]

theorem separated {α : Type} {good : α → Prop} {rest gap : List Token} {f : Unit → Parser α}
    (apart : gap = [] ∨ gap = [Word.mark .semicolon]) (kept : (front words).parts = false)
    (next : Rereads words good rest (f ())) :
    Rereads (gap ++ words) good rest (Parser.skipSeparators >>= f) := by
  rcases apart with rfl | rfl
  · exact .inStatement kept next
  · exact .nextStatement kept next

theorem blockRounds_reads (reader : Rereader reach) {rows : List (Stmt × List Token)}
    (all : ∀ row ∈ rows, row.1.Written row.2) {gap : List Token}
    (apart : gap = [] ∨ gap = [Word.mark .semicolon]) (more : List Token) (done : List Stmt) :
    RereadsRounds (gap ++ (ended (rows.map Prod.snd) ++ Word.mark .closeBrace :: more))
      (fun found => found.map Stmt.unplaced
        = done.reverse.map Stmt.unplaced ++ rows.map (·.1.unplaced)) more (blockRound reach) done := by
  induction rows generalizing gap done with
  | nil =>
      refine .rounds_last (separated apart rfl (.eats rfl rfl (.result ?_)))
      simp
  | cons row rows ih =>
      obtain ⟨here, later⟩ := List.forall_mem_cons.mp all
      rw [List.map_cons, ended_cons]
      obtain ⟨kept, inside, shown⟩ := TokenKind.inside_of_starts (here.starts
        (Word.mark .semicolon :: (ended (rows.map Prod.snd) ++ Word.mark .closeBrace :: more)))
      have first : Rereads (gap ++ (row.2 ++ Word.mark .semicolon
            :: (ended (rows.map Prod.snd) ++ Word.mark .closeBrace :: more)))
          (Parser.Round.All (fun found : List Stmt =>
            found.map Stmt.unplaced = row.1.unplaced :: done.map Stmt.unplaced) fun _ => False)
          ([Word.mark .semicolon] ++ (ended (rows.map Prod.snd) ++ Word.mark .closeBrace :: more))
          (blockRound reach done) := by
        refine separated apart kept (.passes rfl inside (.away rfl shown ?_))
        refine (reader.statement _ here).bind fun stmt same => .result ?_
        simp [same]
      refine .rounds_again first fun found same => ?_
      have rest := ih later (.inr rfl) found
      simp only [List.map_reverse, same, List.reverse_cons, List.append_assoc] at rest
      simpa using rest

theorem brace_append (words more : List Token) :
    brace words ++ more = Word.mark .openBrace :: (words ++ Word.mark .closeBrace :: more) := by
  simp [brace, Word.enclosed]

theorem bracket_append (words more : List Token) :
    bracket words ++ more = Word.mark .openBracket :: (words ++ Word.mark .closeBracket :: more) := by
  simp [bracket, Word.enclosed]

theorem block_reads (reader : Rereader reach) {body : Block} (written : body.Written words)
    (more : List Token) :
    Rereads (words ++ more) (·.unplaced = body.unplaced) more (block reach) := by
  cases written with
  | mk all =>
      rw [brace_append, block_eq]
      refine .onLine nofun (.expect rfl rfl fun opening _ => ?_)
      refine (Rereads.loop (blockRounds_reads reader all (.inl rfl) more [])).bind fun stmts same => ?_
      refine .result ?_
      exact congrArg (fun stmts => Block.mk stmts .unknown) (Stmt.unplacedAll (by simpa using same))

theorem functionRest_reads (reader : Rereader reach) {fn : Function} (rest : fn.Rest words)
    (more : List Token) {pos : Position} :
    Rereads (words ++ more) (·.unplaced = fn.unplaced) more (functionRest reach fn.name pos) := by
  cases rest with
  | mk all body =>
      rw [List.append_assoc]
      refine (params_reads reader all _).bind fun params sameParams => ?_
      refine (block_reads reader body more).bind fun block sameBlock => .result ?_
      simp only [Function.unplaced, Function.relocate, Body.relocate, sameBlock,
        Binding.unplacedAll sameParams]

/-! ## Comprehensions and arrays -/

theorem each_reads (reader : Rereader reach) {name : String} {source : Expr}
    (written : Clause.Written (.each name source) words) (ends : (front more).stops = true)
    (done : List Clause) :
    Rereads (words ++ more) (Parser.Round.All (fun found : List Clause => found.map Clause.unplaced
      = (Clause.each name source).unplaced :: done.map Clause.unplaced) fun _ => False) more
      (clauseRound reach done) := by
  cases written with
  | each named inner =>
      refine .onLine nofun (.eats rfl rfl (.identifier named (.expects rfl rfl ?_)))
      refine (reader.expression inner ends).bind fun expr same => .result ?_
      exact congrArg (fun expr => Clause.each name expr :: done.map Clause.unplaced) same

theorem only_reads (reader : Rereader reach) {cond : Expr} (written : Clause.Written (.only cond) words)
    (ends : (front more).stops = true) {done : List Clause} (begun : done ≠ []) :
    Rereads (words ++ more) (Parser.Round.All (fun found : List Clause => found.map Clause.unplaced
      = (Clause.only cond).unplaced :: done.map Clause.unplaced) fun _ => False) more
      (clauseRound reach done) := by
  cases written with
  | only inner =>
      refine .onLine nofun (.passes rfl nofun ?_)
      rw [if_pos (by simpa using begun)]
      refine .eats rfl rfl ((reader.expression inner ends).bind fun expr same => .result ?_)
      exact congrArg (fun expr => Clause.only expr :: done.map Clause.unplaced) same

theorem clauses_front {rows : List (Clause × List Token)} (all : ∀ row ∈ rows, row.1.Written row.2)
    {close : Mark} (closes : (TokenKind.mark close).stops = true) (more : List Token) :
    (front ((rows.map Prod.snd).flatten ++ Word.mark close :: more)).stops = true := by
  cases rows with
  | nil => exact closes
  | cons row rows =>
      obtain ⟨clause, words⟩ := row
      have here : clause.Written words := all _ List.mem_cons_self
      cases here <;> rfl

theorem clauseRounds_reads (reader : Rereader reach) {rows : List (Clause × List Token)}
    (all : ∀ row ∈ rows, row.1.Written row.2) {close : Mark}
    (closes : (TokenKind.mark close).stops = true) (more : List Token) {done : List Clause}
    (begun : done ≠ []) :
    RereadsRounds ((rows.map Prod.snd).flatten ++ Word.mark close :: more)
      (fun found => found.map Clause.unplaced
        = done.reverse.map Clause.unplaced ++ rows.map (·.1.unplaced))
      (Word.mark close :: more) (clauseRound reach) done := by
  induction rows generalizing done with
  | nil =>
      refine .rounds_last (.onLine nofun (.passes rfl nofun ?_))
      rw [if_pos (by simpa using begun)]
      refine .passes rfl nofun (.result ?_)
      simp
  | cons row rows ih =>
      obtain ⟨here, later⟩ := List.forall_mem_cons.mp all
      have ends := clauses_front later closes more
      rw [List.map_cons, List.flatten_cons, List.append_assoc]
      have first : Rereads (row.2 ++ ((rows.map Prod.snd).flatten ++ Word.mark close :: more))
          (Parser.Round.All (fun found : List Clause =>
            found.map Clause.unplaced = row.1.unplaced :: done.map Clause.unplaced) fun _ => False)
          ((rows.map Prod.snd).flatten ++ Word.mark close :: more) (clauseRound reach done) := by
        obtain ⟨clause, words⟩ := row
        cases clause with
        | each name source => exact each_reads reader here ends done
        -- an `if` is a clause only behind another one, which `begun` says
        | only cond => exact only_reads reader here ends begun
      refine .rounds_again first fun found same => ?_
      have rest := ih later (show found ≠ [] by rintro rfl; simp at same)
      simp only [List.map_reverse, same, List.reverse_cons, List.append_assoc] at rest
      simpa using rest

theorem clauses_reads (reader : Rereader reach) {name : String} {source : Expr}
    (each : Clause.Written (.each name source) words) {rows : List (Clause × List Token)}
    (all : ∀ row ∈ rows, row.1.Written row.2) {close : Mark}
    (closes : (TokenKind.mark close).stops = true) (more : List Token) :
    Rereads (words ++ ((rows.map Prod.snd).flatten ++ Word.mark close :: more))
      (fun found => Clause.relocateAll Position.nowhere found
        = Clause.relocateAll Position.nowhere (.each name source :: rows.map Prod.fst))
      (Word.mark close :: more) (clauses reach) := by
  rw [clauses_eq]
  have rounds : RereadsRounds (words ++ ((rows.map Prod.snd).flatten ++ Word.mark close :: more))
      (fun found => found.map Clause.unplaced
        = (Clause.each name source).unplaced :: rows.map (·.1.unplaced))
      (Word.mark close :: more) (clauseRound reach) [] := by
    refine .rounds_again (each_reads reader each (clauses_front all closes more) [])
      fun begun same bound => ?_
    have nonempty : begun ≠ [] := by rintro rfl; simp at same
    refine (clauseRounds_reads reader all closes more nonempty bound).mono fun found rest => ?_
    rw [rest, List.map_reverse, same]
    rfl
  refine (Rereads.loop rounds).mono fun found same => ?_
  rw [Clause.relocateAll_eq_map, Clause.relocateAll_eq_map, same, List.map_cons, List.map_map]
  rfl

theorem itemRounds_reads (reader : Rereader reach) {rows : List (Expr × List Token)}
    (all : ∀ row ∈ rows, row.1.Written row.2) (more : List Token) (done : List Expr) :
    RereadsRounds ((rows.map Prod.snd).flatMap (Word.mark .comma :: ·)
        ++ Word.mark .closeBracket :: more)
      (fun found => found.map Expr.unplaced = done.reverse.map Expr.unplaced ++ rows.map (·.1.unplaced))
      (Word.mark .closeBracket :: more) (itemRound reach) done := by
  induction rows generalizing done with
  | nil =>
      refine .rounds_last (.passes rfl nofun (.result ?_))
      simp
  | cons row rows ih =>
      obtain ⟨here, later⟩ := List.forall_mem_cons.mp all
      have ends := AfterItem.rest (rows.map Prod.snd) .closeBracket more
      rw [List.map_cons, List.flatMap_cons, List.append_assoc, List.cons_append]
      -- all that matters of the items to come is that a comma or the bracket is ahead
      generalize (rows.map Prod.snd).flatMap (Word.mark .comma :: ·)
        ++ Word.mark .closeBracket :: more = rest at ends ih
      have first : Rereads (Word.mark .comma :: (row.2 ++ rest))
          (Parser.Round.All (fun found : List Expr =>
            found.map Expr.unplaced = row.1.unplaced :: done.map Expr.unplaced) fun _ => False)
          rest (itemRound reach done) := by
        refine .eats rfl rfl (.onLine (here.front_ne rest rfl) (.away rfl (here.front_ne rest rfl) ?_))
        refine (reader.expression here (ends.stops rfl)).bind fun expr same =>
          .onLine (ends.ne nofun nofun) (.result ?_)
        simp [same]
      refine .rounds_again first fun found same => ?_
      have rounds := ih later found
      simp only [List.map_reverse, same, List.reverse_cons, List.append_assoc] at rounds
      simpa using rounds

theorem array_reads (reader : Rereader reach) {rows : List (Expr × List Token)}
    (all : ∀ row ∈ rows, row.1.Written row.2) (more : List Token) (pos pos' : Position) :
    Rereads (joined (rows.map Prod.snd) ++ Word.mark .closeBracket :: more)
      (·.unplaced = (Expr.array pos' (rows.map Prod.fst)).unplaced) more (array reach pos) := by
  rw [array_eq]
  cases rows with
  | nil => exact .onLine nofun (.eats rfl rfl (.result rfl))
  | cons row rows =>
      obtain ⟨here, later⟩ := List.forall_mem_cons.mp all
      rw [List.map_cons, Word.joined_cons, List.append_assoc]
      have rounds := itemRounds_reads reader later more
      have ends := AfterItem.rest (rows.map Prod.snd) .closeBracket more
      generalize (rows.map Prod.snd).flatMap (Word.mark .comma :: ·)
        ++ Word.mark .closeBracket :: more = rest at rounds ends
      refine .onLine (here.front_ne rest rfl) (.passes rfl (here.front_ne rest rfl) ?_)
      refine (reader.expression here (ends.stops rfl)).bind fun first same =>
        .onLine (ends.ne nofun nofun) (.away rfl (ends.ne nofun nofun) ?_)
      refine (Rereads.loop (rounds [first])).bind fun found all => .expects rfl rfl (.result ?_)
      refine congrArg (Expr.array .unknown) ?_
      rw [Expr.relocateAll_eq_map, Expr.relocateAll_eq_map, all]
      simp [same]

theorem arrayOf_reads (reader : Rereader reach) {element source : Expr} {name : String}
    {front_ middle : List Token} {rows : List (Clause × List Token)} (first : element.Written front_)
    (each : Clause.Written (.each name source) middle) (all : ∀ row ∈ rows, row.1.Written row.2)
    (more : List Token) (pos pos' : Position) :
    Rereads (front_ ++ (middle ++ ((rows.map Prod.snd).flatten ++ Word.mark .closeBracket :: more)))
      (·.unplaced = (Expr.arrayOf pos' element (.each name source :: rows.map Prod.fst)).unplaced) more
      (array reach pos) := by
  rw [array_eq]
  have starts : ∀ rest, front (middle ++ rest) = .keyword .for_ := by
    cases each
    exact fun _ => rfl
  refine .onLine (first.front_ne _ rfl) (.passes rfl (first.front_ne _ rfl) ?_)
  refine (reader.expression first (by rw [starts]; rfl)).bind fun element' sameElement => ?_
  refine .onLine (by rw [starts]; nofun) (.here rfl (starts _) ?_)
  refine (clauses_reads reader each all rfl more).bind fun found sameClauses => ?_
  refine .onLine nofun (.expects rfl rfl (.result ?_))
  exact congrArg₂ (Expr.arrayOf .unknown) sameElement sameClauses

/-! ## Records -/

theorem word_kind {name : String} {token : Token} (same : token.unplaced = Word.name name) :
    token.kind = .ident ∨ ∃ k, token.kind = .keyword k := by
  have kind : token.kind.unplaced = (Word.name name).kind := congrArg Token.kind same
  rcases Nameable.kind name with found | ⟨k, found⟩
  · exact .inl ((TokenKind.unplaced_eq_iff rfl).mp (kind.trans found))
  · exact .inr ⟨k, (TokenKind.unplaced_eq_iff rfl).mp (kind.trans found)⟩

theorem key_name {name : String} (nameable : Nameable name) :
    Rereads (Word.name name :: more) (fun found => found.1 = .name name ∧ ∃ pos, found.2 = .ident pos name)
      more (key reach) := by
  refine .current fun token same => ?_
  have named : Rereads (Word.name name :: more)
      (fun found => found.1 = .name name ∧ ∃ pos, found.2 = .ident pos name) more
      (Parser.memberName >>= fun name => pure (Key.name name, Expr.ident token.pos name)) :=
    .memberName nameable (.result ⟨rfl, token.pos, rfl⟩)
  obtain ⟨kind, text, pos⟩ := token
  rcases word_kind same with found | ⟨k, found⟩ <;> cases found <;> exact named

theorem key_text (content : String) : Rereads (Word.text content :: more)
    (fun found => found.1 = .name content ∧ ∃ pos, found.2 = .literal pos (.text content)) more
    (key reach) := .look rfl fun pos => .advances (.result ⟨rfl, pos, rfl⟩)

theorem computedKey_reads (reader : Rereader reach) {expr : Expr} (written : expr.Written words) :
    Rereads (bracket words ++ more)
      (fun found => found.1 = .computed found.2 ∧ found.2.unplaced = expr.unplaced) more
      (key reach) := by
  rw [bracket_append]
  refine .look rfl fun pos => .advances (.onLine (written.front_ne _ rfl) ?_)
  refine (reader.expression written rfl).bind fun found same => .onLine nofun ?_
  exact .expects rfl rfl (.result ⟨rfl, same⟩)

theorem value_reads (reader : Rereader reach) {expr : Expr} (written : expr.Written words)
    (ends : (front more).stops = true) (found : Key × Expr) :
    Rereads (Word.mark .colon :: (words ++ more)) (·.unplaced = expr.unplaced) more
      (entryValue reach found) :=
  .eats rfl rfl (.onLine (written.front_ne more rfl) (reader.expression written ends))

theorem shorthand_reads (colon : front more ≠ .mark .colon) {name : String} {found : Key × Expr}
    (named : found.1 = .name name ∧ ∃ pos, found.2 = .ident pos name) :
    Rereads more (fun value => ∃ pos, value = .ident pos name) more (entryValue reach found) := by
  obtain ⟨key, meant⟩ := found
  obtain ⟨rfl, pos, rfl⟩ := named
  exact .passes rfl colon (.result ⟨pos, rfl⟩)

/-- What may follow an entry of a record and says nothing about its value. -/
structure AfterEntry (more : List Token) : Prop where
  stops : (front more).stops = true
  colon : front more ≠ .mark .colon

section Entries

variable {α : Type} {good : α → Prop} {rest : List Token} {f : Key × Expr → Expr → Parser α}

theorem field_reads (reader : Rereader reach) {key : Key} {value : Expr}
    (written : (Entry.field key value).Written words) (ends : AfterEntry more)
    (next : ∀ found expr, (Entry.field found.1 expr).unplaced = (Entry.field key value).unplaced →
      Rereads more good rest (f found expr)) :
    Rereads (words ++ more) good rest
      (Grammar.key reach >>= fun found => entryValue reach found >>= fun expr => f found expr) := by
  cases written with
  | named keyed inner =>
      rw [List.cons_append, List.cons_append]
      have named {name : String} (found : Key × Expr) (key : found.1 = .name name) (expr : Expr)
          (same : expr.unplaced = value.unplaced) :
          (Entry.field found.1 expr).unplaced = (Entry.field (.name name) value).unplaced := by
        rw [key]
        exact congrArg (Entry.field (.name name)) same
      cases keyed with
      | text =>
          exact (key_text _).bind fun found same => (value_reads reader inner ends.stops found).bind
            fun expr value => next found expr (named found same.1 expr value)
      | name nameable =>
          exact (key_name nameable).bind fun found same =>
            (value_reads reader inner ends.stops found).bind fun expr value =>
              next found expr (named found same.1 expr value)
  | shorthand nameable =>
      refine (key_name nameable).bind fun found same => (shorthand_reads ends.colon same).bind
        fun expr value => next found expr ?_
      obtain ⟨pos, rfl⟩ := value
      rw [same.1]
      rfl
  | computed first second =>
      rw [List.append_assoc, List.cons_append]
      refine (computedKey_reads reader first).bind fun found same =>
        (value_reads reader second ends.stops found).bind fun expr value => next found expr ?_
      rw [same.1]
      exact congrArg₂ (fun key => Entry.field (.computed key)) same.2 value

theorem keyed_reads (reader : Rereader reach) {key value : Expr} (written : Entry.Keyed key value words)
    (ends : AfterEntry more)
    (next : ∀ found expr, found.2.unplaced = key.unplaced → expr.unplaced = value.unplaced →
      Rereads more good rest (f found expr)) :
    Rereads (words ++ more) good rest
      (Grammar.key reach >>= fun found => entryValue reach found >>= fun expr => f found expr) := by
  cases written with
  | computed first second =>
      rw [List.append_assoc, List.cons_append]
      exact (computedKey_reads reader first).bind fun found same =>
        (value_reads reader second ends.stops found).bind fun expr value => next found expr same.2 value
  | named nameable inner =>
      refine (key_name nameable).bind fun found same =>
        (value_reads reader inner ends.stops found).bind fun expr value => next found expr ?_ value
      obtain ⟨-, pos, same⟩ := same
      rw [same]
      rfl
  | shorthand nameable =>
      refine (key_name nameable).bind fun found same => (shorthand_reads ends.colon same).bind
        fun expr value => next found expr ?_ ?_
      · obtain ⟨-, pos, same⟩ := same
        rw [same]
        rfl
      · obtain ⟨pos, rfl⟩ := value
        rfl

end Entries

theorem starts_name (name : String) (words : List Token) :
    (front (Word.name name :: words)).partsEntries = false
      ∧ front (Word.name name :: words) ≠ .mark .closeBrace
      ∧ front (Word.name name :: words) ≠ .mark .ellipsis := by
  have away {kind : TokenKind} (named : kind = .ident ∨ ∃ k, kind = .keyword k) :
      kind.partsEntries = false ∧ kind ≠ .mark .closeBrace ∧ kind ≠ .mark .ellipsis := by
    rcases named with rfl | ⟨k, rfl⟩ <;> exact ⟨rfl, nofun, nofun⟩
  exact away (Nameable.kind name)

theorem Entry.Written.starts {key : Key} {value : Expr}
    (written : (Entry.field key value).Written words) (more : List Token) :
    (front (words ++ more)).partsEntries = false ∧ front (words ++ more) ≠ .mark .closeBrace
      ∧ front (words ++ more) ≠ .mark .ellipsis := by
  cases written with
  | named keyed =>
      cases keyed with
      | text => exact ⟨rfl, nofun, nofun⟩
      | name => exact starts_name _ _
  | shorthand => exact starts_name _ _
  | computed => exact ⟨rfl, nofun, nofun⟩

theorem Entry.Keyed.starts {key value : Expr} (written : Entry.Keyed key value words)
    (more : List Token) :
    (front (words ++ more)).partsEntries = false ∧ front (words ++ more) ≠ .mark .closeBrace
      ∧ front (words ++ more) ≠ .mark .ellipsis := by
  cases written with
  | computed => exact ⟨rfl, nofun, nofun⟩
  | named | shorthand => exact starts_name _ _

theorem apart {α : Type} {good : α → Prop} {rest gap : List Token} {f : Unit → Parser α}
    (apart : gap = [] ∨ gap = [Word.mark .comma]) (kept : (front words).partsEntries = false)
    (next : Rereads words good rest (f ())) :
    Rereads (gap ++ words) good rest (Parser.skipEntrySeparators >>= f) := by
  rcases apart with rfl | rfl
  · exact .inEntry kept next
  · exact .nextEntry kept next

theorem entry_reads (reader : Rereader reach) {entry : Entry} (written : entry.Written words)
    (gap : List Token) (between : gap = [] ∨ gap = [Word.mark .comma])
    (ends : AfterItem .closeBrace more) (pos : Position) (done : List Entry) :
    Rereads (gap ++ (words ++ more)) (Parser.Round.All (fun found : List Entry =>
      found.map Entry.unplaced = entry.unplaced :: done.map Entry.unplaced) fun _ => False) more
      (entryRound reach pos done) := by
  cases entry with
  | spread source =>
      cases written with
      | spread inner =>
          refine apart between rfl (.passes rfl nofun (.eats rfl rfl ?_))
          refine (reader.expression inner (ends.stops rfl)).bind fun expr same => .result ?_
          exact congrArg (fun expr => Entry.spread expr :: done.map Entry.unplaced) same
  | field key value =>
      obtain ⟨kept, inside, dots⟩ := Entry.Written.starts written more
      refine apart between kept (.passes rfl inside (.passes rfl dots ?_))
      refine field_reads reader written ⟨ends.stops rfl, ends.ne nofun nofun⟩ fun found expr same => ?_
      refine .pastNewlines (ends.ne nofun nofun) fun next kind => ?_
      have literal : front more ≠ .keyword .for_ := ends.ne nofun nofun
      have other : next.kind ≠ .keyword .for_ := fun here => literal (by rw [← kind, here]; rfl)
      rw [if_neg (by simp [other])]
      refine .sees fun token kind => ?_
      have ends' : endsEntry token = true := by
        rw [endsEntry]
        rcases ends with comma | brace
        · rw [(TokenKind.unplaced_eq_iff rfl).mp (kind.trans comma)]
          rfl
        · rw [(TokenKind.unplaced_eq_iff rfl).mp (kind.trans brace)]
          rfl
      rw [if_pos ends']
      exact .result (congrArg (· :: done.map Entry.unplaced) same)

theorem record_unplaced (pos : Position) (entries : List Entry) :
    (Expr.record pos entries).unplaced = .record .unknown (entries.map Entry.unplaced) := by
  rw [Expr.unplaced, Expr.relocate, Entry.relocateAll_eq_map]

theorem entryRounds_reads (reader : Rereader reach) {rows : List (Entry × List Token)}
    (all : ∀ row ∈ rows, row.1.Written row.2) (more : List Token) (pos : Position)
    (done : List Entry) :
    RereadsRounds ((rows.map Prod.snd).flatMap (Word.mark .comma :: ·)
        ++ Word.mark .closeBrace :: more)
      (·.unplaced = .record .unknown (done.reverse.map Entry.unplaced ++ rows.map (·.1.unplaced))) more
      (entryRound reach pos) done := by
  induction rows generalizing done with
  | nil =>
      refine .rounds_last (.inEntry rfl (.eats rfl rfl (.result ?_)))
      rw [Parser.Round.all_done, record_unplaced, List.map_nil, List.append_nil]
  | cons row rows ih =>
      obtain ⟨here, later⟩ := List.forall_mem_cons.mp all
      have ends := AfterItem.rest (rows.map Prod.snd) .closeBrace more
      rw [List.map_cons, List.flatMap_cons, List.append_assoc, List.cons_append]
      refine .rounds_again (entry_reads reader here [Word.mark .comma] (.inr rfl) ends pos done)
        fun found same bound => (ih later found bound).mono fun expr whole => ?_
      rw [whole, List.map_reverse, same]
      simp

theorem record_reads (reader : Rereader reach) {rows : List (Entry × List Token)}
    (all : ∀ row ∈ rows, row.1.Written row.2) (more : List Token) (pos pos' : Position) :
    Rereads (joined (rows.map Prod.snd) ++ Word.mark .closeBrace :: more)
      (·.unplaced = (Expr.record pos' (rows.map Prod.fst)).unplaced) more (record reach pos) := by
  rw [record_eq, record_unplaced, List.map_map]
  cases rows with
  | nil => exact .loop (entryRounds_reads reader all more pos [])
  | cons row rows =>
      obtain ⟨here, later⟩ := List.forall_mem_cons.mp all
      have ends := AfterItem.rest (rows.map Prod.snd) .closeBrace more
      rw [List.map_cons, Word.joined_cons, List.append_assoc]
      refine .loop (.rounds_again (entry_reads reader here [] (.inl rfl) ends pos [])
        fun found same bound => (entryRounds_reads reader later more pos found bound).mono
          fun expr whole => ?_)
      rw [whole, List.map_reverse, same]
      rfl

theorem recordOf_reads (reader : Rereader reach) {key value source : Expr} {name : String}
    {front_ middle : List Token} {rows : List (Clause × List Token)}
    (first : Entry.Keyed key value front_) (each : Clause.Written (.each name source) middle)
    (all : ∀ row ∈ rows, row.1.Written row.2) (more : List Token) (pos pos' : Position) :
    Rereads (front_ ++ (middle ++ ((rows.map Prod.snd).flatten ++ Word.mark .closeBrace :: more)))
      (·.unplaced = (Expr.recordOf pos' key value (.each name source :: rows.map Prod.fst)).unplaced)
      more (record reach pos) := by
  have for_ : ∀ rest, front (middle ++ rest) = .keyword .for_ := by
    cases each
    exact fun _ => rfl
  obtain ⟨kept, inside, dots⟩ := Entry.Keyed.starts first
    (middle ++ ((rows.map Prod.snd).flatten ++ Word.mark .closeBrace :: more))
  rw [record_eq]
  refine .loop (.rounds_last (.inEntry kept (.passes rfl inside (.passes rfl dots ?_))))
  refine keyed_reads reader first ⟨by rw [for_]; rfl, by rw [for_]; nofun⟩ fun found expr sameKey same => ?_
  refine .pastNewlines (by rw [for_]; nofun) fun next kind => ?_
  rw [for_] at kind
  rw [if_pos (by simp [(TokenKind.unplaced_eq_iff rfl).mp kind])]
  refine .onLine (by rw [for_]; nofun) ((clauses_reads reader each all rfl more).bind
    fun clauses sameClauses => .onLine nofun (.expects rfl rfl (.result ?_)))
  show Expr.recordOf .unknown _ _ _ = _
  rw [sameClauses]
  exact congrArg₂ (fun key value => Expr.recordOf .unknown key value _) sameKey same

/-! ## Templates -/

theorem holeExpression_reads (reader : Rereader reach) {expr : Expr} (written : expr.Written words)
    (pos : Position) :
    Rereads words (·.unplaced = expr.unplaced) [] (holeExpression reach pos) := by
  have starts := written.opens []
  have reads := reader.expression written (show (front []).stops = true from rfl)
  rw [List.append_nil] at starts reads
  refine .onLine (TokenKind.ne_of_opens starts rfl) (.away rfl (TokenKind.ne_of_opens starts rfl) ?_)
  exact reads.bind fun expr same => .onLine nofun (.here rfl rfl (.result same))

theorem hole_reads (reader : Rereader reach) {expr : Expr} (written : expr.Written words)
    (pos : Position) :
    Rereads more (·.unplaced = expr.unplaced) more (hole reach (Token.respell words) pos) := by
  intro outer offers
  obtain ⟨tokens, finish, read, same⟩ := tokenizeAt_words (written.neat.legible none nofun) pos
  have inner : (Stream.ofTokens (tokens ++ [⟨.endOfInput, "", finish⟩])).Offers words := by
    rw [ofTokens_append tokens rfl]
    exact ⟨same, rfl⟩
  unfold hole
  rw [read]
  rcases holeExpression_reads reader written pos _ inner with out | ⟨found, after, run, good, -⟩
  · exact .inl (by simp only [out])
  · exact .inr ⟨found, outer, by simp only [run], good, offers⟩

theorem templateParts_reads (reader : Rereader reach) {rows : List (TemplatePart × TemplatePiece)}
    (all : ∀ row ∈ rows, row.1.Written row.2) {pieces : List TemplatePiece}
    (same : pieces.map TemplatePiece.unplaced = rows.map Prod.snd) :
    Rereads more (fun found => TemplatePart.relocateAll Position.nowhere found
      = TemplatePart.relocateAll Position.nowhere (rows.map Prod.fst)) more
      (templateParts reach pieces) := by
  induction rows generalizing pieces with
  | nil =>
      rw [List.map_nil, List.map_eq_nil_iff] at same
      subst same
      exact .result rfl
  | cons row rows ih =>
      obtain ⟨here, later⟩ := List.forall_mem_cons.mp all
      rw [List.map_cons, List.map_eq_cons_iff] at same
      obtain ⟨piece, rest, rfl, same, sameRest⟩ := same
      obtain ⟨part, written⟩ := row
      cases here with
      | text =>
          cases piece with
          | hole => exact nomatch same
          | text cooked =>
              obtain rfl : cooked = _ := TemplatePiece.text.inj same
              refine (ih later sameRest).bind fun parts sameParts => .result ?_
              exact congrArg (TemplatePart.text cooked :: ·) sameParts
      | hole inner =>
          cases piece with
          | text => exact nomatch same
          | hole source pos =>
              obtain ⟨rfl, -⟩ := TemplatePiece.hole.inj same
              refine (hole_reads reader inner pos).bind fun expr sameExpr =>
                (ih later sameRest).bind fun parts sameParts => .result ?_
              exact congrArg₂ (fun expr parts => TemplatePart.hole expr :: parts) sameExpr sameParts

end Grammar

end Rill

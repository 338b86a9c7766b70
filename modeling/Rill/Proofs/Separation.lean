import Mathlib
import Rill.Proofs.Concatenation
import Rill.Proofs.Progress.Expression
import Rill.Proofs.Shielding.Statement

/-!
# Statements side by side

The separators between two statements are passed over, however many there are, and none is asked
for: programs and blocks take a statement wherever the one before it stops. So what separates two
statements is the grammar of the first alone. Two programs make one with nothing between them, if
the second starts with a token that no statement goes on with and the first does not end with a
`return` that would take it for its value.
-/

set_option autoImplicit false

namespace Rill.Grammar

open Rill.Stream (Longer Leaves Mimics Seam Shows Taken)
open Rill.TokenKind (afterStatement)

/-! ## Statements in a row -/

/-- From the near stream, with separators passed over before each, these statements are read, and
they leave the last stream. -/
inductive Tiled (read : Parser Stmt) : Stream → List Stmt → Stream → Prop where
  | none (near : Stream) : Tiled read near [] near
  | some {near middle last : Stream} {stmt : Stmt} {stmts : List Stmt}
      (first : read (near.dropWhile isSeparator) = .ok (stmt, middle))
      (later : Tiled read middle stmts last) : Tiled read near (stmt :: stmts) last

namespace Tiled

variable {depth depth' : Nat} {near far middle last : Stream} {stmts : List Stmt}

theorem append {read : Parser Stmt} {stmts' : List Stmt} (front : Tiled read near stmts middle)
    (back : Tiled read middle stmts' last) : Tiled read near (stmts ++ stmts') last := by
  induction front with
  | none near => exact back
  | some first _ ih => exact .some first (ih back)

/-- Only what comes after the separators counts. -/
theorem restart {read : Parser Stmt} {near' : Stream}
    (same : near.dropWhile isSeparator = near'.dropWhile isSeparator)
    (tiled : Tiled read near stmts last) :
    ∃ last', Tiled read near' stmts last'
      ∧ last'.dropWhile isSeparator = last.dropWhile isSeparator := by
  cases tiled with
  | none => exact ⟨near', .none near', same.symm⟩
  | some first later => exact ⟨last, .some (same ▸ first) later, rfl⟩

theorem taken (sound : near.Sound) (tiled : Tiled (reach depth .statement) near stmts last) :
    Taken 0 near last := by
  induction tiled with
  | none near => exact .refl near
  | @some near _ _ _ _ first _ ih =>
      have skipped := Taken.dropWhile (Blank.separators 0).flat near
      have whole := skipped.trans
        ((reach_follows 0 (Nat.le_refl depth)).statement _ (skipped.sound sound) first).1
      exact whole.trans (ih (whole.sound sound))

theorem left_of_read {stmt : Stmt} (sound : near.Sound)
    (run : reach depth .statement (near.dropWhile isSeparator) = .ok (stmt, middle)) :
    near.ahead.dropWhile isSeparator ≠ [] := by
  intro empty
  have spent := Stream.spent_of_nil ((Leaves.dropWhile isSeparator near).sound sound) empty
  exact ((reach_enduring depth).dead .statement spent run).1

/-! ## In other streams -/

/-- The statements are read as well within a greater depth and where the stream goes on with what
may come after a program. -/
theorem follow {more : List Token} (le : depth ≤ depth') (seam : Seam more) (sound : near.Sound)
    (tiled : Tiled (reach depth .statement) near stmts last) (mimics : Mimics 0 more near far) :
    ∃ last', Tiled (reach depth' .statement) far stmts last' ∧ Mimics 0 more last last' := by
  induction tiled generalizing far with
  | none near => exact ⟨far, .none far, mimics⟩
  | some first _ ih =>
      have skipped := mimics.dropWhile isSeparator (Blank.separators 0).alike
        (left_of_read sound first)
      have sound' := (Leaves.dropWhile isSeparator _).sound sound
      obtain ⟨taken, follow⟩ := (reach_follows 0 le).statement _ sound' first
      obtain ⟨bad, -⟩ | ⟨far', read, mimics'⟩ := follow seam skipped
      · exact bad.elim
      obtain ⟨last', later, mimics''⟩ := ih (taken.sound sound') mimics'
      rw [Position.below_zero, Stmt.relocate_id] at read
      exact ⟨last', .some read later, mimics''⟩

theorem before {next : Token} {more : List Token} (stops : next.kind.afterStatement = true)
    (bare : ∀ stmt ∈ stmts.getLast?, stmt.bare = true → next.kind.isTerminator = true)
    (sound : near.Sound) (tiled : Tiled (reach depth .statement) near stmts last)
    (longer : Longer (next :: more) near far) :
    ∃ last', Tiled (reach depth .statement) far stmts last' ∧ Longer (next :: more) last last' := by
  induction tiled generalizing far with
  | none near => exact ⟨far, .none far, longer⟩
  | @some near middle last stmt stmts first later ih =>
      have sound' := (Leaves.dropWhile isSeparator near).sound sound
      have sound'' := ((reach_enduring depth).statement _ sound' first).1.sound sound'
      have lone : middle.ahead = [] → stmt.bare = true → next.kind.isTerminator = true := by
        intro empty
        cases later with
        | none => exact bare stmt (by simp)
        | some first' _ => exact absurd (by rw [empty]; rfl) (left_of_read sound'' first')
      have last_ (other : Stmt) (member : other ∈ stmts.getLast?) :
          other ∈ (stmt :: stmts).getLast? := by
        cases stmts with
        | nil => exact nomatch member
        | cons second rest => rwa [List.getLast?_cons_cons]
      obtain ⟨far', read, longer'⟩ := reach_before stops lone sound' first
        (longer.dropWhile (left_of_read sound first))
      obtain ⟨last', later', longer''⟩ :=
        ih (fun other member => bare other (last_ other member)) sound'' longer'
      exact ⟨last', .some read later', longer''⟩

end Tiled

/-! ## The loops -/

/-- What the rounds of a program read is a row of statements with nothing but separators after
it. -/
theorem tiled_of_rounds {depth bound : Nat} {near after : Stream} {done body : List Stmt}
    (sound : near.Sound)
    (run : Parser.iterate (programRound (reach depth)) bound done near = .ok (body, after)) :
    ∃ stmts last, body = done.reverse ++ stmts ∧ stmts.length < bound
      ∧ Tiled (reach depth .statement) near stmts last ∧ last.ahead.dropWhile isSeparator = [] := by
  induction bound generalizing done near with
  | zero => exact nomatch run
  | succ bound ih =>
      obtain ⟨round, middle, first, later⟩ := Parser.bind_eq_ok.mp run
      have sound' := (Leaves.dropWhile isSeparator near).sound sound
      rw [programRound_eq] at first
      split at first
      · next ends =>
        cases first
        cases later
        refine ⟨[], near, (List.append_nil _).symm, Nat.succ_pos bound, .none near, ?_⟩
        cases front : (near.dropWhile isSeparator).ahead with
        | nil => exact front
        | cons token rest =>
            rw [Stream.current_of_front front] at ends
            exact absurd ends (sound'.genuine token (front ▸ List.mem_cons_self)).kind_ne_end
      · obtain ⟨stmt, near', read, again⟩ := Parser.bind_eq_ok.mp first
        cases again
        have sound'' := ((reach_enduring depth).statement _ sound' read).1.sound sound'
        obtain ⟨stmts, last, same, fits, tiled, ends⟩ := ih sound'' later
        refine ⟨stmt :: stmts, last, ?_, Nat.succ_lt_succ fits, .some read tiled, ends⟩
        rw [same, List.reverse_cons, List.append_assoc, List.singleton_append]

theorem tiled_of_statements {depth : Nat} {near after : Stream} {body : List Stmt}
    (sound : near.Sound) (run : statements (reach depth) near = .ok (body, after)) :
    ∃ last, body.length ≤ near.size ∧ Tiled (reach depth .statement) near body last
      ∧ last.ahead.dropWhile isSeparator = [] := by
  obtain ⟨stmts, last, rfl, fits, tiled, ends⟩ := tiled_of_rounds sound run
  exact ⟨last, Nat.le_of_lt_succ fits, tiled, ends⟩

theorem rounds_of_tiled {round : List Stmt → Parser (Parser.Round (List Stmt) (List Stmt))}
    {read : Parser Stmt} {near last after : Stream} {stmts : List Stmt}
    (step : ∀ ⦃stream stmt middle⦄ done, read (stream.dropWhile isSeparator) = .ok (stmt, middle) →
      round done stream = .ok (.again (stmt :: done), middle))
    (ends : ∀ done, round done last = .ok (.done done.reverse, after))
    (tiled : Tiled read near stmts last) {bound : Nat} (fits : stmts.length < bound)
    (done : List Stmt) :
    Parser.iterate round bound done near = .ok (done.reverse ++ stmts, after) := by
  induction tiled generalizing bound done with
  | none near =>
      obtain ⟨bound, rfl⟩ : ∃ n, bound = n + 1 := ⟨bound - 1, by omega⟩
      rw [List.append_nil]
      exact Parser.bind_eq_ok.mpr ⟨_, _, ends done, rfl⟩
  | @some near middle last stmt stmts first later ih =>
      obtain ⟨bound, rfl⟩ : ∃ n, bound = n + 1 := ⟨bound - 1, by omega⟩
      have rest := ih ends (Nat.lt_of_succ_lt_succ fits) (stmt :: done)
      rw [List.reverse_cons, List.append_assoc, List.singleton_append] at rest
      exact Parser.bind_eq_ok.mpr ⟨_, _, step done first, rest⟩

theorem starts_of_read {depth : Nat} {stream after : Stream} {stmt : Stmt}
    (run : reach depth .statement stream = .ok (stmt, after)) :
    stream.current.kind.starts = true := by
  by_contra idle
  exact reach_stuck depth (Bool.eq_false_iff.mpr idle) stream rfl _ run

theorem ne_of_starts {kind kind' : TokenKind} (starts : kind.starts = true)
    (idle : kind'.starts = false) : kind ≠ kind' := by
  rintro rfl
  exact nomatch idle.symm.trans starts

theorem statements_of_tiled {depth : Nat} {near last : Stream} {body : List Stmt}
    (fits : body.length ≤ near.size) (tiled : Tiled (reach depth .statement) near body last)
    (ends : (last.dropWhile isSeparator).current.kind = .endOfInput) :
    statements (reach depth) near = .ok (body, last.dropWhile isSeparator) := by
  show Parser.iterate (programRound (reach depth)) (near.size + 1) [] near = _
  refine rounds_of_tiled (fun stream stmt middle done run => ?_) (fun done => ?_) tiled
    (Nat.lt_succ_of_le fits) []
  · rw [programRound_eq, if_neg (ne_of_starts (starts_of_read run) rfl)]
    exact Parser.bind_eq_ok.mpr ⟨stmt, middle, run, rfl⟩
  · rw [programRound_eq, if_pos ends]

theorem blockRound_read {depth : Nat} {stream middle : Stream} {stmt : Stmt} (done : List Stmt)
    (run : reach depth .statement (stream.dropWhile isSeparator) = .ok (stmt, middle)) :
    blockRound (reach depth) done stream = .ok (.again (stmt :: done), middle) := by
  have starts := starts_of_read run
  refine Parser.bind_eq_ok.mpr ⟨(), stream.dropWhile isSeparator, rfl, ?_⟩
  refine Parser.bind_eq_ok.mpr ⟨false, _, Parser.eat_other (ne_of_starts starts rfl), ?_⟩
  refine Parser.bind_eq_ok.mpr ⟨false, _, Parser.check_other (ne_of_starts starts rfl), ?_⟩
  exact Parser.bind_eq_ok.mpr ⟨stmt, middle, run, rfl⟩

theorem block_of_tiled {depth : Nat} {near last : Stream} {opening : Token} {rest : List Token}
    {body : List Stmt} (shows_ : near.Shows (opening :: rest))
    (kind : opening.kind = .mark .openBrace) (fits : body.length ≤ near.size)
    (tiled : Tiled (reach depth .statement) near.tail body last)
    (ends : (last.dropWhile isSeparator).current.kind = .mark .closeBrace) :
    block (reach depth) near = .ok (⟨body, opening.pos⟩, (last.dropWhile isSeparator).tail) := by
  have start : near.dropWhile (·.kind = .newline) = near := by
    have stays : near.ahead.dropWhile (·.kind = .newline) = near.ahead := by
      rw [shows_.ahead, List.dropWhile_cons, if_neg (by simp [kind])]
    simp only [Stream.dropWhile, stays]
  have rounds : Parser.loop (blockRound (reach depth)) [] near.tail
      = .ok (body, (last.dropWhile isSeparator).tail) := by
    show Parser.iterate (blockRound (reach depth)) (near.size + 1) [] near.tail = _
    refine rounds_of_tiled (fun stream stmt middle done run => blockRound_read done run)
      (fun done => ?_) tiled (Nat.lt_succ_of_le fits) []
    refine Parser.bind_eq_ok.mpr ⟨(), last.dropWhile isSeparator, rfl, ?_⟩
    exact Parser.bind_eq_ok.mpr ⟨true, _, Parser.eat_here ends, rfl⟩
  rw [block_eq]
  refine Parser.bind_eq_ok.mpr ⟨(), near, congrArg (fun stream => Except.ok ((), stream)) start, ?_⟩
  refine Parser.bind_eq_ok.mpr ⟨opening, near.tail, kind ▸ shows_.expect, ?_⟩
  exact Parser.bind_eq_ok.mpr ⟨body, _, rounds, rfl⟩

/-! ## Two programs side by side -/

/-- What may come behind a program without going on with it: separators, of which a line feed has
nothing behind it that goes on with a statement, or a token that no statement goes on with. -/
structure Ends (stmts : List Stmt) (more : List Token) : Prop where
  fresh : ∀ token ∈ (more.dropWhile (·.kind = .newline)).head?, token.kind.continues = false
  stops : ∀ token ∈ more.head?, token.kind ≠ .newline → token.kind.afterStatement = true
    ∧ ∀ stmt ∈ stmts.getLast?, stmt.bare = true → token.kind.isTerminator = true

theorem tiled_of_program {depth depth' : Nat} (le : depth ≤ depth') {front more : List Token}
    {finish : Token} {body : List Stmt} {after far : Stream}
    (sound : (Stream.ofList front finish).Sound)
    (run : statements (reach depth) (.ofList front finish) = .ok (body, after))
    (shows_ : far.Shows (front ++ more)) (ends : Ends body more) :
    ∃ last, body.length ≤ front.length ∧ Tiled (reach depth' .statement) far body last
      ∧ last.ahead.dropWhile isSeparator = more.dropWhile isSeparator := by
  obtain ⟨left, fits, tiled, empty⟩ := tiled_of_statements sound run
  have longer := shows_.longer finish
  have behind {last : Stream} (ahead : last.ahead = left.ahead ++ more) :
      last.ahead.dropWhile isSeparator = more.dropWhile isSeparator := by
    rw [ahead, List.dropWhile_append, empty]
    rfl
  have followed (seam : Seam more) : ∃ last, body.length ≤ front.length
      ∧ Tiled (reach depth' .statement) far body last
      ∧ last.ahead.dropWhile isSeparator = more.dropWhile isSeparator := by
    have mimics : Mimics 0 more (.ofList front finish) far :=
      ⟨by rw [Token.below_zero, List.map_id, longer.ahead], longer.size, shows_.kind, shows_.text⟩
    obtain ⟨last, tiled', mimics'⟩ := tiled.follow le seam sound mimics
    refine ⟨last, fits, tiled', behind ?_⟩
    rw [mimics'.ahead, Token.below_zero, List.map_id]
  cases more with
  | nil => exact followed .nil
  | cons token rest =>
      by_cases feed : token.kind = .newline
      · have genuine : token.Genuine := shows_.genuine token (by rw [shows_.ahead]; simp)
        refine followed ⟨fun first here => ?_, ends.fresh⟩
        cases here
        exact ⟨feed, genuine.feed_text feed⟩
      · obtain ⟨stops, bare⟩ := ends.stops token rfl feed
        have same : Mimics 0 [] (.ofList front finish) (.ofList front finish) :=
          ⟨by rw [Token.below_zero, List.map_id, List.append_nil], Nat.le_refl _, sound.kind,
            sound.text⟩
        obtain ⟨left', tiled', mimics⟩ := tiled.follow le .nil sound same
        obtain ⟨last, tiled'', longer'⟩ := tiled'.before stops bare sound longer
        refine ⟨last, fits, tiled'', behind ?_⟩
        rw [longer'.ahead, mimics.ahead, Token.below_zero, List.map_id, List.append_nil]

theorem kind_of_separator {token : Token} (separator : isSeparator token = true) :
    token.kind = .newline ∨ token.kind = .mark .semicolon := by
  simpa [isSeparator] using separator

theorem continues_of_separator {token : Token} (separator : isSeparator token = true) :
    token.kind.continues = false := by
  rcases kind_of_separator separator with kind | kind <;> rw [kind] <;> rfl

theorem fresh_of_program {depth : Nat} {back rest : List Token} {finish : Token}
    {body : List Stmt} {after : Stream} (sound : (Stream.ofList back finish).Sound)
    (run : statements (reach depth) (.ofList back finish) = .ok (body, after))
    (fresh : ∀ token ∈ (rest.dropWhile (·.kind = .newline)).head?, token.kind.continues = false) :
    ∀ token ∈ ((back ++ rest).dropWhile (·.kind = .newline)).head?,
      token.kind.continues = false := by
  rw [List.dropWhile_append]
  cases drops : back.dropWhile (·.kind = .newline) with
  | nil => exact fresh
  | cons opening later =>
      intro token here
      cases here
      cases separator : isSeparator opening with
      | true => exact continues_of_separator separator
      | false =>
          have front := dropWhile_separators drops separator
          obtain ⟨left, -, tiled, empty⟩ := tiled_of_statements sound run
          cases tiled with
          | none => exact nomatch empty.symm.trans front
          | some read _ =>
              have front' : ((Stream.ofList back finish).dropWhile isSeparator).ahead
                  = opening :: later := front
              have starts := starts_of_read read
              rw [Stream.current_of_front front'] at starts
              rw [Bool.eq_false_iff]
              exact fun goesOn => nomatch starts.symm.trans (TokenKind.starts_of_continues goesOn)

/-- Separators may stand behind a program, with anything behind them that does not go on with a
statement from a later line. -/
theorem ends_of_gap {gap more : List Token} {stmts : List Stmt}
    (blank : ∀ token ∈ gap, isSeparator token = true)
    (fresh : ∀ token ∈ (more.dropWhile (·.kind = .newline)).head?, token.kind.continues = false)
    (stops : gap = [] → ∀ token ∈ more.head?, token.kind ≠ .newline →
      token.kind.afterStatement = true
        ∧ ∀ stmt ∈ stmts.getLast?, stmt.bare = true → token.kind.isTerminator = true) :
    Ends stmts (gap ++ more) := by
  refine ⟨?_, ?_⟩
  · clear stops
    induction gap with
    | nil => exact fresh
    | cons token gap ih =>
        obtain ⟨separator, blank⟩ := List.forall_mem_cons.mp blank
        rw [List.cons_append, List.dropWhile_cons]
        split
        · exact ih blank
        · intro first here
          cases here
          exact continues_of_separator separator
  · cases gap with
    | nil => exact stops rfl
    | cons token gap =>
        intro first here other
        cases here
        have semicolon := (kind_of_separator (blank token List.mem_cons_self)).resolve_left other
        rw [semicolon]
        exact ⟨rfl, fun _ _ _ => rfl⟩

theorem ends_of_close {rest : List Token}
    (closes : ∀ token ∈ rest.head?, token.kind = .mark .closeBrace) (stmts : List Stmt) :
    Ends stmts rest := by
  cases rest with
  | nil => exact ⟨nofun, nofun⟩
  | cons token rest =>
      have kind := closes token rfl
      refine ⟨fun first here => ?_, fun first here _ => ?_⟩
      · rw [List.dropWhile_cons, if_neg (by simp [kind])] at here
        cases here
        rw [kind]
        rfl
      · cases here
        rw [kind]
        exact ⟨rfl, fun _ _ _ => rfl⟩

/-- The tokens of two programs with separators between them, or nothing, are read as the two
programs are. -/
theorem tiled_adjoined {depth depth₁ depth₂ : Nat} (le₁ : depth₁ ≤ depth) (le₂ : depth₂ ≤ depth)
    {front gap back : List Token} (rest : List Token) {finish₁ finish₂ : Token}
    {first second : List Stmt} {after₁ after₂ far : Stream} (sound₁ : (Stream.ofList front finish₁).Sound)
    (sound₂ : (Stream.ofList back finish₂).Sound)
    (run₁ : statements (reach depth₁) (.ofList front finish₁) = .ok (first, after₁))
    (run₂ : statements (reach depth₂) (.ofList back finish₂) = .ok (second, after₂))
    (blank : ∀ token ∈ gap, isSeparator token = true)
    (apart : gap = [] → ∀ token ∈ back.head?, token.kind.afterStatement = true
      ∧ ∀ stmt ∈ first.getLast?, stmt.bare = true → token.kind.isTerminator = true)
    (closes : ∀ token ∈ rest.head?, token.kind = .mark .closeBrace)
    (shows_ : far.Shows (front ++ (gap ++ (back ++ rest)))) :
    ∃ last, (first ++ second).length ≤ far.size
      ∧ Tiled (reach depth .statement) far (first ++ second) last ∧ Taken 0 far last
      ∧ last.ahead.dropWhile isSeparator = rest.dropWhile isSeparator := by
  have ends₁ : Ends first (gap ++ (back ++ rest)) := by
    refine ends_of_gap blank (fresh_of_program sound₂ run₂ (ends_of_close closes first).fresh)
      fun adjacent token here other => ?_
    cases back with
    | nil => exact (ends_of_close closes first).stops token here other
    | cons token back => exact apart adjacent _ here
  obtain ⟨middle, short₁, tiled₁, left₁⟩ := tiled_of_program le₁ sound₁ run₁ shows_ ends₁
  have taken := tiled₁.taken shows_.toSound
  have length := far.length_le
  simp only [shows_.ahead, List.length_append] at length
  -- The second program starts on the stream that the first one and the gap leave.
  let fresh : Stream := ⟨back ++ rest, middle.finish, middle.size, by
    rw [taken.size, List.length_append]; omega⟩
  have same : fresh.dropWhile isSeparator = middle.dropWhile isSeparator := by
    have drops : middle.ahead.dropWhile isSeparator = (back ++ rest).dropWhile isSeparator := by
      rw [left₁, List.dropWhile_append_of_pos blank]
    simp only [Stream.dropWhile, Stream.mk.injEq]
    exact ⟨drops.symm, rfl, rfl⟩
  have shows₂ : fresh.Shows (back ++ rest) := by
    refine ⟨⟨fun token member => shows_.genuine token ?_, ?_, ?_⟩, rfl⟩
    · rw [shows_.ahead]
      exact List.mem_append_right _ (List.mem_append_right _ member)
    · exact taken.finish ▸ shows_.kind
    · exact taken.finish ▸ shows_.text
  obtain ⟨last, short₂, tiled₂, left₂⟩ := tiled_of_program le₂ sound₂ run₂ shows₂
    (ends_of_close closes second)
  obtain ⟨last', tiled₂', same'⟩ := tiled₂.restart same
  refine ⟨last', ?_, tiled₁.append tiled₂', (tiled₁.append tiled₂').taken shows_.toSound, ?_⟩
  · rw [List.length_append]
    omega
  · exact (congrArg Stream.ahead same').trans left₂

theorem depthBound_finish (tokens : List Token) (finish : Position) :
    depthBound (tokens ++ [⟨.endOfInput, "", finish⟩]) = depthBound tokens + 1 := by
  rw [depthBound_eq, depthBound_eq, List.map_append, List.sum_append]
  rfl

theorem depthBound_parts (front gap back : List Token) :
    depthBound front ≤ depthBound (front ++ (gap ++ back))
      ∧ depthBound back ≤ depthBound (front ++ (gap ++ back)) := by
  simp only [depthBound_eq, List.map_append, List.sum_append]
  omega

end Rill.Grammar

namespace Rill.Program

open Grammar
open Rill.Stream (Shows)

/-- Statements need nothing between them. Take the tokens of two programs, with any separators
between the two; there may be none if the second program starts with a token that no statement goes
on with, unless it could be the value of a `return` at the end of the first. They are read as one
program, of the statements of the first and then those of the second, and so they are in a block. -/
theorem ofTokens_adjoined {front gap back : List Token} {finish₁ finish₂ : Position} {dir : String}
    {first second : Program} (genuine : ∀ token ∈ front ++ (gap ++ back), token.Genuine)
    (before : ofTokens (front ++ [⟨.endOfInput, "", finish₁⟩]) dir = .ok first)
    (after : ofTokens (back ++ [⟨.endOfInput, "", finish₂⟩]) dir = .ok second)
    (blank : ∀ token ∈ gap, isSeparator token = true)
    (apart : gap = [] → ∀ token ∈ back.head?, token.kind.afterStatement = true
      ∧ ∀ stmt ∈ first.body.getLast?, stmt.bare = true → token.kind.isTerminator = true) :
    (∀ finish, ofTokens (front ++ (gap ++ back) ++ [⟨.endOfInput, "", finish⟩]) dir
        = .ok ⟨first.body ++ second.body, dir⟩)
    ∧ ∀ depth stream opening closing rest, depthBound (front ++ (gap ++ back)) < depth →
        stream.Shows (opening :: (front ++ (gap ++ (back ++ closing :: rest)))) →
        opening.kind = .mark .openBrace → closing.kind = .mark .closeBrace →
        ∃ after, block (reach depth) stream = .ok (⟨first.body ++ second.body, opening.pos⟩, after)
          ∧ after.ahead = rest := by
  obtain ⟨-, after₁, run₁⟩ := ofTokens_eq_ok.mp before
  obtain ⟨-, after₂, run₂⟩ := ofTokens_eq_ok.mp after
  rw [ofTokens_append front rfl] at run₁
  rw [ofTokens_append back rfl] at run₂
  obtain ⟨small₁, small₂⟩ := depthBound_parts front gap back
  rw [depthBound_finish] at run₁ run₂
  have sound₁ : (Stream.ofList front ⟨.endOfInput, "", finish₁⟩).Sound :=
    ⟨fun token member => genuine token (List.mem_append_left _ member), rfl, rfl⟩
  have sound₂ : (Stream.ofList back ⟨.endOfInput, "", finish₂⟩).Sound :=
    ⟨fun token member => genuine token (List.mem_append_right _ (List.mem_append_right _ member)),
      rfl, rfl⟩
  constructor
  · intro finish
    have shows_ : (Stream.ofList (front ++ (gap ++ back)) ⟨.endOfInput, "", finish⟩).Shows
        (front ++ (gap ++ (back ++ []))) :=
      ⟨⟨genuine, rfl, rfl⟩, by rw [List.append_nil]; rfl⟩
    obtain ⟨last, fits, tiled, taken, left⟩ := tiled_adjoined (Nat.succ_le_succ small₁)
      (Nat.succ_le_succ small₂) [] sound₁ sound₂ run₁ run₂ blank apart nofun shows_
    have ends : (last.dropWhile isSeparator).current.kind = .endOfInput := by
      have empty : (last.dropWhile isSeparator).ahead = [] := left
      rw [Stream.current, empty]
      exact (taken.sound shows_.toSound).kind
    refine ofTokens_eq_ok.mpr ⟨rfl, last.dropWhile isSeparator, ?_⟩
    rw [ofTokens_append _ rfl, depthBound_finish]
    exact statements_of_tiled fits tiled ends
  · intro depth stream opening closing rest deep shows_ opens closes
    obtain ⟨last, fits, tiled, taken, left⟩ := tiled_adjoined
      (Nat.le_trans (Nat.succ_le_succ small₁) deep) (Nat.le_trans (Nat.succ_le_succ small₂) deep)
      (closing :: rest) sound₁ sound₂ run₁ run₂ blank apart
      (fun token here => by cases here; exact closes) shows_.tail
    have front : (last.dropWhile isSeparator).ahead = closing :: rest := by
      refine left.trans ?_
      rw [List.dropWhile_cons, if_neg (by simp [isSeparator, closes])]
    refine ⟨_, block_of_tiled shows_ opens fits tiled ?_, ?_⟩
    · rw [Stream.current_of_front front, closes]
    · show (last.dropWhile isSeparator).ahead.tail = rest
      rw [front, List.tail_cons]

/-- Two names with a blank between them, as a program and in a block. -/
theorem ofTokens_adjoined_names :
    tokenize "\x7ba b\x7d" = .ok [⟨.mark .openBrace, "\x7b", ⟨1, 1⟩⟩, ⟨.ident, "a", ⟨1, 2⟩⟩,
      ⟨.ident, "b", ⟨1, 4⟩⟩, ⟨.mark .closeBrace, "\x7d", ⟨1, 5⟩⟩, ⟨.endOfInput, "", ⟨1, 6⟩⟩]
    ∧ ofTokens [⟨.ident, "a", ⟨1, 2⟩⟩, ⟨.ident, "b", ⟨1, 4⟩⟩, ⟨.endOfInput, "", ⟨1, 5⟩⟩] ""
        = .ok ⟨[.expr ⟨1, 2⟩ (.ident ⟨1, 2⟩ "a"), .expr ⟨1, 4⟩ (.ident ⟨1, 4⟩ "b")], ""⟩
    ∧ ∃ after, block (reach 9) (Stream.ofTokens [⟨.mark .openBrace, "\x7b", ⟨1, 1⟩⟩,
          ⟨.ident, "a", ⟨1, 2⟩⟩, ⟨.ident, "b", ⟨1, 4⟩⟩, ⟨.mark .closeBrace, "\x7d", ⟨1, 5⟩⟩,
          ⟨.endOfInput, "", ⟨1, 6⟩⟩])
        = .ok (⟨[.expr ⟨1, 2⟩ (.ident ⟨1, 2⟩ "a"), .expr ⟨1, 4⟩ (.ident ⟨1, 4⟩ "b")], ⟨1, 1⟩⟩, after)
      ∧ after.ahead = [] := by
  have lexed : tokenize "\x7ba b\x7d" = .ok [⟨.mark .openBrace, "\x7b", ⟨1, 1⟩⟩,
      ⟨.ident, "a", ⟨1, 2⟩⟩, ⟨.ident, "b", ⟨1, 4⟩⟩, ⟨.mark .closeBrace, "\x7d", ⟨1, 5⟩⟩,
      ⟨.endOfInput, "", ⟨1, 6⟩⟩] := by cbv
  obtain ⟨front, finish, same, genuine⟩ :=
    (Scans.tokenizeAt_eq_ok.mp lexed).genuine (Position.clamp_placed _)
  have dropped := congrArg List.dropLast same
  rw [List.dropLast_concat] at dropped
  subst dropped
  have before : ofTokens ([⟨.ident, "a", ⟨1, 2⟩⟩] ++ [⟨.endOfInput, "", ⟨1, 3⟩⟩]) ""
      = .ok ⟨[.expr ⟨1, 2⟩ (.ident ⟨1, 2⟩ "a")], ""⟩ := rfl
  have after : ofTokens ([⟨.ident, "b", ⟨1, 4⟩⟩] ++ [⟨.endOfInput, "", ⟨1, 5⟩⟩]) ""
      = .ok ⟨[.expr ⟨1, 4⟩ (.ident ⟨1, 4⟩ "b")], ""⟩ := rfl
  have adjoined := ofTokens_adjoined (fun token member => genuine token (by simp at member ⊢; tauto))
    before after (List.forall_mem_nil _)
    (fun _ token here => by cases here; exact ⟨rfl, fun stmt last bare => by cases last; cases bare⟩)
  exact ⟨lexed, adjoined.1 ⟨1, 5⟩, adjoined.2 9 _ ⟨.mark .openBrace, "\x7b", ⟨1, 1⟩⟩
    ⟨.mark .closeBrace, "\x7d", ⟨1, 5⟩⟩ [] (by decide) ⟨⟨genuine, rfl, rfl⟩, rfl⟩ rfl rfl⟩

end Rill.Program

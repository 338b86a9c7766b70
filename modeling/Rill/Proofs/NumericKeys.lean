import Mathlib
import Rill.Proofs.Climbing
import Rill.Proofs.Depth
import Rill.Proofs.Frames
import Rill.Proofs.Progress.Expression
import Rill.Proofs.Shielding.Statement
import Rill.Proofs.WholeNumerals

/-!
# Numbers as keys

A number may stand for the key of a record in three ways: bare before the colon, in brackets, and
bare in a comprehension. In brackets and in a comprehension it is an expression, and its key is the
number as it is shown; bare in a record its key is the number as it is spelled (`numeric_keys`). The
two are the same for a whole number written in the usual way, but not for `1.0`, which is shown
as `1`.
-/

set_option autoImplicit false

namespace Rill

namespace Parser

variable {β γ : Type} {round : β → Parser (Round β γ)} {state next : β} {result : γ}
  {stream middle after : Stream}

theorem bind_of_ok {p : Parser β} {f : β → Parser γ} {x : β} (run : p stream = .ok (x, middle)) :
    (p >>= f) stream = f x middle := by
  show (p stream >>= fun found => f found.1 found.2) = _
  rw [run]
  rfl

theorem loop_once (last : round state stream = .ok (.done result, after)) :
    loop round state stream = .ok (result, after) :=
  Parser.bind_eq_ok.mpr ⟨_, _, last, rfl⟩

theorem loop_twice (room : 0 < stream.size) (first : round state stream = .ok (.again next, middle))
    (last : round next middle = .ok (.done result, after)) :
    loop round state stream = .ok (result, after) := by
  obtain ⟨size, room⟩ := Nat.exists_eq_succ_of_ne_zero room.ne'
  unfold loop
  rw [room]
  exact Parser.bind_eq_ok.mpr ⟨_, _, first, Parser.bind_eq_ok.mpr ⟨_, _, last, rfl⟩⟩

end Parser

namespace Grammar

open Rill.Stream (Shows)
open Rill.TokenKind (afterStatement)

variable {depth : Nat} {stream : Stream} {tokens rest : List Token} {expr : Expr}

theorem room_of_shows {first : Token} (shows_ : stream.Shows (first :: rest)) : 0 < stream.size := by
  have bound := stream.length_le
  rw [shows_.ahead, List.length_cons] at bound
  omega

theorem identifier_of_shows {token : Token} (kind : token.kind = .ident)
    (shows_ : stream.Shows (token :: rest)) :
    Parser.identifier stream = .ok (token.text, stream.tail) := by
  have here := Stream.current_of_front shows_.ahead
  refine Parser.bind_eq_ok.mpr ⟨true, stream, ?_, ?_⟩
  · exact congrArg (fun found => Except.ok (found, stream)) (decide_eq_true (here ▸ kind))
  · exact Parser.bind_eq_ok.mpr ⟨token, stream.tail, congrArg (fun t => Except.ok (t, stream.tail)) here, rfl⟩

/-! ## Operands -/

theorem expression_then (reads : Reads (reach depth .expression) tokens expr []) {token : Token}
    (stops : token.kind.afterStatement = true) (shows_ : stream.Shows (tokens ++ token :: rest)) :
    ∃ after, reach depth .expression stream = .ok (expr, after) ∧ after.Shows (token :: rest) :=
  read_before (reach_shielding depth).expression' reads
    ((Apart.afterStatement stops).mono fun _ => TokenKind.afterStatement_expression) shows_

theorem expression_alone {first : Token} (kind : first.kind.enclosed)
    (reads : Reads (primary (reach depth)) (first :: tokens) expr [])
    (genuine : ∀ token ∈ first :: tokens, token.Genuine) :
    Reads (reach (depth + 1) .expression) (first :: tokens) expr [] := by
  have shows_ : (Stream.ofList (first :: tokens) ⟨.endOfInput, "", .start⟩).Shows
      (first :: tokens ++ []) := ⟨⟨genuine, rfl, rfl⟩, (List.append_nil _).symm⟩
  have joined : Joined [] := by simp [Joined]
  obtain ⟨after, run, left⟩ := operand_before (.inl kind) reads joined (Nat.le_refl depth) shows_
  have nothing : ∀ term ∈ [], Term.Fits depth term := List.forall_mem_nil _
  have last : climb (reach depth) 0 expr after = .ok (.done expr, after) :=
    climb_done (reach depth) expr nothing left (by simp)
  have ends : after.current.kind ≠ .mark .question := by
    rw [Stream.current, left.ahead]
    simp [left.kind]
  refine ⟨.start, after, ?_, left.ahead⟩
  refine Parser.bind_eq_ok.mpr ⟨expr, after, ?_, ?_⟩
  · exact Parser.bind_eq_ok.mpr ⟨expr, after, run, Parser.loop_once last⟩
  · exact Parser.bind_eq_ok.mpr ⟨false, after, Parser.eat_other ends, rfl⟩

theorem primary_number {reach : Reach} {token : Token} {value : Float} (kind : token.kind = .number)
    (found : Number.read token.text = some value) (shows_ : stream.Shows (token :: rest)) :
    primary reach stream = .ok (.literal token.pos (.number value), stream.tail) := by
  have here := Stream.current_of_front shows_.ahead
  refine Parser.bind_eq_ok.mpr ⟨_, _, rfl, ?_⟩
  simp only [here, kind, numberValue, found]
  rfl

theorem number_alone (depth : Nat) {token : Token} {value : Float} (kind : token.kind = .number)
    (found : Number.read token.text = some value) (genuine : token.Genuine) :
    Reads (reach (depth + 1) .expression) [token] (.literal token.pos (.number value)) [] := by
  have genuine : ∀ other ∈ [token], other.Genuine := by simpa using genuine
  have shows_ : (Stream.ofList [token] ⟨.endOfInput, "", .start⟩).Shows [token] :=
    ⟨⟨genuine, rfl, rfl⟩, rfl⟩
  exact expression_alone (by rw [kind]; rfl)
    ⟨.start, _, primary_number kind found shows_, shows_.tail.ahead⟩ genuine

theorem number_then (depth : Nat) {item closing : Token} {value : Float} (number : item.kind = .number)
    (closes : closing.kind = .mark .closeBracket) (found : Number.read item.text = some value)
    (shows_ : stream.Shows (item :: closing :: rest)) :
    (stream.dropWhile (·.kind = .newline)).current = item
      ∧ ∃ after, reach (depth + 1) .expression (stream.dropWhile (·.kind = .newline))
          = .ok (.literal item.pos (.number value), after)
        ∧ (after.dropWhile (·.kind = .newline)).Shows (closing :: rest) := by
  have alone := number_alone depth number found
    (shows_.genuine item (shows_.ahead ▸ List.mem_cons_self))
  have start : (stream.dropWhile (·.kind = .newline)).Shows ([item] ++ closing :: rest) :=
    shows_.dropWhile (by rw [number]; rfl)
  obtain ⟨after, run, left⟩ := expression_then alone (by rw [closes]; rfl) start
  exact ⟨Stream.current_of_front start.ahead, after, run, left.dropWhile (by rw [closes]; rfl)⟩

theorem array_alone (depth : Nat) {opening item closing : Token} {value : Float}
    (opens : opening.kind = .mark .openBracket) (number : item.kind = .number)
    (closes : closing.kind = .mark .closeBracket) (found : Number.read item.text = some value)
    (genuine : ∀ token ∈ [opening, item, closing], token.Genuine) :
    Reads (reach (depth + 2) .expression) [opening, item, closing]
      (.array opening.pos [.literal item.pos (.number value)]) [] := by
  refine expression_alone (by rw [opens]; rfl) ?_ genuine
  have shows_ : (Stream.ofList [opening, item, closing] ⟨.endOfInput, "", .start⟩).Shows
      [opening, item, closing] := ⟨⟨genuine, rfl, rfl⟩, rfl⟩
  obtain ⟨here, middle, run, ends⟩ :=
    number_then depth number closes found shows_.tail
  have there := Stream.current_of_front ends.ahead
  have last : itemRound (reach (depth + 1)) [.literal item.pos (.number value)]
      (middle.dropWhile (·.kind = .newline))
        = .ok (.done [.literal item.pos (.number value)], middle.dropWhile (·.kind = .newline)) :=
    Parser.bind_eq_ok.mpr ⟨false, _, Parser.eat_other (by rw [there, closes]; nofun), rfl⟩
  refine ⟨.start, _, ?_, ends.tail.ahead⟩
  refine Parser.bind_eq_ok.mpr ⟨opening, _, rfl, ?_⟩
  simp only [opens]
  refine Parser.bind_eq_ok.mpr ⟨opening, _, rfl, ?_⟩
  refine Parser.bind_eq_ok.mpr ⟨(), _, rfl, ?_⟩
  refine Parser.bind_eq_ok.mpr ⟨false, _, Parser.eat_other (by rw [here, number]; nofun), ?_⟩
  refine Parser.bind_eq_ok.mpr ⟨_, middle, run, ?_⟩
  refine Parser.bind_eq_ok.mpr ⟨(), _, rfl, ?_⟩
  refine Parser.bind_eq_ok.mpr ⟨false, _, Parser.check_other (by rw [there, closes]; nofun), ?_⟩
  refine Parser.bind_eq_ok.mpr ⟨_, _, Parser.loop_once last, ?_⟩
  exact Parser.bind_eq_ok.mpr ⟨closing, _, closes ▸ ends.expect, rfl⟩

/-! ## Keys and values -/

theorem key_number {reach : Reach} {token : Token} {value : Float} (kind : token.kind = .number)
    (found : Number.read token.text = some value) (shows_ : stream.Shows (token :: rest)) :
    key reach stream
      = .ok ((.name token.text, .literal token.pos (.number value)), stream.tail) := by
  have here := Stream.current_of_front shows_.ahead
  refine Parser.bind_eq_ok.mpr ⟨_, _, rfl, ?_⟩
  simp only [here, kind, found]
  rfl

theorem key_computed {opening item closing : Token} {value : Float}
    (opens : opening.kind = .mark .openBracket) (number : item.kind = .number)
    (closes : closing.kind = .mark .closeBracket) (found : Number.read item.text = some value)
    (shows_ : stream.Shows (opening :: item :: closing :: rest)) :
    ∃ after, key (reach (depth + 1)) stream
        = .ok ((.computed (.literal item.pos (.number value)), .literal item.pos (.number value)),
          after)
      ∧ after.Shows rest := by
  have here := Stream.current_of_front shows_.ahead
  obtain ⟨-, middle, run, ends⟩ := number_then depth number closes found shows_.tail
  refine ⟨_, ?_, ends.tail⟩
  refine Parser.bind_eq_ok.mpr ⟨_, _, rfl, ?_⟩
  simp only [here, opens]
  refine Parser.bind_eq_ok.mpr ⟨_, stream.tail, rfl, ?_⟩
  refine Parser.bind_eq_ok.mpr ⟨(), _, rfl, ?_⟩
  refine Parser.bind_eq_ok.mpr ⟨_, middle, run, ?_⟩
  refine Parser.bind_eq_ok.mpr ⟨(), _, rfl, ?_⟩
  exact Parser.bind_eq_ok.mpr ⟨closing, _, closes ▸ ends.expect, rfl⟩

theorem entryValue_colon (named : Key × Expr) {colon token : Token}
    (colons : colon.kind = .mark .colon) (reads : Reads (reach depth .expression) tokens expr [])
    (stops : token.kind.afterStatement = true) (feed : token.kind ≠ .newline)
    (shows_ : stream.Shows (colon :: (tokens ++ token :: rest))) :
    ∃ after, entryValue (reach depth) named stream = .ok (expr, after)
      ∧ after.Shows (token :: rest) := by
  have starts : ∀ first ∈ (tokens ++ token :: rest).head?, first.kind ≠ .newline := by
    cases tokens with
    | nil => simpa using feed
    | cons first tokens => exact fun other here => starts_of_reads reads other here
  have start : stream.tail.Shows ([] ++ (tokens ++ token :: rest)) := shows_.tail
  obtain ⟨after, run, left⟩ :=
    expression_then reads stops (start.pastFeeds (List.forall_mem_nil _) starts)
  refine ⟨after, ?_, left⟩
  refine Parser.bind_eq_ok.mpr ⟨true, stream.tail, colons ▸ shows_.eat, ?_⟩
  exact Parser.bind_eq_ok.mpr ⟨(), _, rfl, run⟩

/-! ## Records -/

theorem entryRound_end (reach : Reach) (pos : Position) (done : List Entry) {closing : Token}
    (closes : closing.kind = .mark .closeBrace) (shows_ : stream.Shows (closing :: rest)) :
    ∃ after, entryRound reach pos done stream = .ok (.done (.record pos done.reverse), after)
      ∧ after.Shows rest := by
  have skipped := shows_.dropWhile (p := fun token => token.kind = .newline
    || token.kind = .mark .semicolon || token.kind = .mark .comma) (by rw [closes]; rfl)
  refine ⟨_, Parser.bind_eq_ok.mpr ⟨(), _, rfl, ?_⟩, skipped.tail⟩
  exact Parser.bind_eq_ok.mpr ⟨true, _, closes ▸ skipped.eat, rfl⟩

/-- What the first round of a record does after the value of its entry. -/
def entryRest (reach : Reach) (pos : Position) (found : Key × Expr) (value : Expr) :
    Parser (Parser.Round (List Entry) Expr) := do
  if (← Parser.pastNewlines).kind = .keyword .for_ then
    Parser.skipNewlines
    let clauses ← clauses reach
    Parser.skipNewlines
    let _ ← Parser.expect (.mark .closeBrace)
    return .done (.recordOf pos found.2 value clauses)
  if endsEntry (← Parser.current) then return .again [.field found.1 value]
  Parser.unexpected .entryEnd

theorem entryRound_first (pos : Position) {found : Key × Expr} {first : Token} {back : List Token}
    (plain : first.kind = .number ∨ first.kind = .mark .openBracket)
    (shows_ : stream.Shows (first :: back))
    (runKey : ∀ {stream : Stream}, stream.Shows (first :: back) →
      ∃ middle, key (reach depth) stream = .ok (found, middle) ∧ middle.Shows rest)
    (runValue : ∀ {middle : Stream}, middle.Shows rest →
      ∃ after, entryValue (reach depth) found middle = .ok (expr, after) ∧ after.Shows tokens) :
    ∃ after, after.Shows tokens
      ∧ entryRound (reach depth) pos [] stream = entryRest (reach depth) pos found expr after := by
  have skipped := shows_.dropWhile (p := fun token => token.kind = .newline
    || token.kind = .mark .semicolon || token.kind = .mark .comma)
    (by rcases plain with kind | kind <;> (rw [kind]; rfl))
  have other {mark : Mark} (apart : mark = .closeBrace ∨ mark = .ellipsis) :
      (stream.dropWhile fun token => token.kind = .newline
        || token.kind = .mark .semicolon || token.kind = .mark .comma).current.kind ≠ .mark mark := by
    rw [Stream.current_of_front skipped.ahead]
    rcases plain with kind | kind <;> rcases apart with rfl | rfl <;> (rw [kind]; nofun)
  obtain ⟨middle, run, left⟩ := runKey skipped
  obtain ⟨after, run', left'⟩ := runValue left
  refine ⟨after, left', ?_⟩
  refine (Parser.bind_of_ok rfl).trans ?_
  refine (Parser.bind_of_ok (Parser.eat_other (other (.inl rfl)))).trans ?_
  refine (Parser.bind_of_ok (Parser.eat_other (other (.inr rfl)))).trans ?_
  refine (Parser.bind_of_ok run).trans ?_
  obtain ⟨key, meant⟩ := found
  refine (Parser.bind_of_ok run').trans ?_
  simp only [entryRest, List.isEmpty_nil, Bool.true_and, decide_eq_true_eq]

theorem record_one {pos : Position} {found : Key × Expr} {closing : Token} {after : Stream}
    (closes : closing.kind = .mark .closeBrace) (room : 0 < stream.size)
    (first : entryRound (reach depth) pos [] stream = entryRest (reach depth) pos found expr after)
    (shows_ : after.Shows (closing :: rest)) :
    ∃ last, record (reach depth) pos stream = .ok (.record pos [.field found.1 expr], last)
      ∧ last.Shows rest := by
  have there := Stream.current_of_front shows_.ahead
  have past : after.pastNewlines = closing := by
    rw [Stream.pastNewlines, shows_.ahead, List.dropWhile_cons, if_neg (by simp [closes])]
    rfl
  obtain ⟨last, ends, left⟩ := entryRound_end (fun goal => reach depth goal) pos
    [.field found.1 expr] closes shows_
  refine ⟨last, Parser.loop_twice room (first.trans ?_) ends, left⟩
  refine (Parser.bind_of_ok rfl).trans ?_
  rw [past, if_neg (by simp [closes])]
  refine (Parser.bind_of_ok rfl).trans ?_
  rw [there, endsEntry, closes]
  rfl

/-! ## Comprehensions -/

/-- The clause `for x in [n]`. -/
structure Each where
  for_ : Token
  name : Token
  in_ : Token
  opening : Token
  item : Token
  closing : Token
  value : Float

namespace Each

variable {each : Each}

def written (each : Each) : List Token :=
  [each.for_, each.name, each.in_, each.opening, each.item, each.closing]

def clause (each : Each) : Clause :=
  .each each.name.text (.array each.opening.pos [.literal each.item.pos (.number each.value)])

structure Fits (each : Each) : Prop where
  for_ : each.for_.kind = .keyword .for_
  name : each.name.kind = .ident
  in_ : each.in_.kind = .keyword .in_
  opening : each.opening.kind = .mark .openBracket
  item : each.item.kind = .number
  closing : each.closing.kind = .mark .closeBracket
  value : Number.read each.item.text = some each.value

theorem clauseRound (depth : Nat) (fits : each.Fits) {ending : Token} (ends : ending.kind = .mark .closeBrace)
    (shows_ : stream.Shows (each.written ++ ending :: rest)) :
    ∃ after, clauseRound (reach (depth + 2)) [] stream = .ok (.again [each.clause], after)
      ∧ after.Shows (ending :: rest) := by
  have start := shows_.dropWhile (p := (·.kind = .newline)) (by rw [fits.for_]; rfl)
  have alone := array_alone depth fits.opening fits.item fits.closing fits.value
    fun token member => shows_.genuine token (by
      rw [shows_.ahead]
      simp only [written, List.mem_cons, List.cons_append] at member ⊢
      tauto)
  have behind : (stream.dropWhile (·.kind = .newline)).tail.tail.tail.Shows
      ([each.opening, each.item, each.closing] ++ ending :: rest) := start.tail.tail.tail
  obtain ⟨after, run, left⟩ := expression_then alone (by rw [ends]; rfl) behind
  refine ⟨after, ?_, left⟩
  refine Parser.bind_eq_ok.mpr ⟨(), _, rfl, ?_⟩
  refine Parser.bind_eq_ok.mpr ⟨true, _, fits.for_ ▸ start.eat, ?_⟩
  refine Parser.bind_eq_ok.mpr ⟨each.name.text, _, identifier_of_shows fits.name start.tail, ?_⟩
  refine Parser.bind_eq_ok.mpr ⟨each.in_, _, fits.in_ ▸ start.tail.tail.expect, ?_⟩
  exact Parser.bind_eq_ok.mpr ⟨_, after, run, rfl⟩

theorem clauses (depth : Nat) (fits : each.Fits) {ending : Token} (ends : ending.kind = .mark .closeBrace)
    (shows_ : stream.Shows (each.written ++ ending :: rest)) :
    ∃ after, clauses (reach (depth + 2)) stream = .ok ([each.clause], after)
      ∧ after.Shows (ending :: rest) := by
  obtain ⟨middle, first, left⟩ := clauseRound depth fits ends shows_
  have skipped := left.dropWhile (p := (·.kind = .newline)) (by rw [ends]; rfl)
  have other {word : Keyword} : (middle.dropWhile (·.kind = .newline)).current.kind ≠ .keyword word := by
    rw [Stream.current_of_front skipped.ahead, ends]
    nofun
  refine ⟨_, Parser.loop_twice (room_of_shows shows_) first ?_, skipped⟩
  refine Parser.bind_eq_ok.mpr ⟨(), _, rfl, ?_⟩
  refine Parser.bind_eq_ok.mpr ⟨false, _, Parser.eat_other other, ?_⟩
  exact Parser.bind_eq_ok.mpr ⟨false, _, Parser.eat_other other, rfl⟩

end Each

theorem record_each {pos : Position} {found : Key × Expr} {each : Each} {ending : Token}
    {after : Stream} (fits : each.Fits) (ends : ending.kind = .mark .closeBrace)
    (first : entryRound (reach (depth + 2)) pos [] stream
      = entryRest (reach (depth + 2)) pos found expr after)
    (shows_ : after.Shows (each.written ++ ending :: rest)) :
    ∃ last, record (reach (depth + 2)) pos stream
        = .ok (.recordOf pos found.2 expr [each.clause], last)
      ∧ last.Shows rest := by
  have start := shows_.dropWhile (p := (·.kind = .newline)) (by rw [fits.for_]; rfl)
  have past : after.pastNewlines.kind = .keyword .for_ := by
    rw [← fits.for_]
    exact congrArg Token.kind (Stream.current_of_front start.ahead)
  obtain ⟨middle, run, left⟩ := Each.clauses depth fits ends start
  have skipped := left.dropWhile (p := (·.kind = .newline)) (by rw [ends]; rfl)
  refine ⟨_, Parser.loop_once (first.trans ?_), skipped.tail⟩
  refine (Parser.bind_of_ok rfl).trans ?_
  rw [if_pos past]
  refine Parser.bind_eq_ok.mpr ⟨(), _, rfl, ?_⟩
  refine Parser.bind_eq_ok.mpr ⟨_, middle, run, ?_⟩
  refine Parser.bind_eq_ok.mpr ⟨(), _, rfl, ?_⟩
  exact Parser.bind_eq_ok.mpr ⟨ending, _, ends ▸ skipped.expect, rfl⟩

/-! ## The forms -/

/-- A way to write a record whose only key is a number: bare before the colon, in brackets, or bare
in a comprehension. -/
inductive KeyForm where
  | bare
  | bracketed
  | each (clause : Each)

namespace KeyForm

/-- The tokens of a form around those of its value. -/
inductive Spells (key : Token) (value : List Token) : KeyForm → List Token → Prop where
  | bare {opening colon closing : Token} (opens : opening.kind = .mark .openBrace)
      (colons : colon.kind = .mark .colon) (closes : closing.kind = .mark .closeBrace) :
      Spells key value .bare (opening :: key :: colon :: (value ++ [closing]))
  | bracketed {opening left right colon closing : Token} (opens : opening.kind = .mark .openBrace)
      (lefts : left.kind = .mark .openBracket) (rights : right.kind = .mark .closeBracket)
      (colons : colon.kind = .mark .colon) (closes : closing.kind = .mark .closeBrace) :
      Spells key value .bracketed (opening :: left :: key :: right :: colon :: (value ++ [closing]))
  | each {opening colon closing : Token} {clause : Each} (opens : opening.kind = .mark .openBrace)
      (colons : colon.kind = .mark .colon) (fits : clause.Fits)
      (closes : closing.kind = .mark .closeBrace) :
      Spells key value (.each clause)
        (opening :: key :: colon :: (value ++ (clause.written ++ [closing])))

def record (pos : Position) (key : Token) (number : Float) (value : Expr) : KeyForm → Expr
  | bare => .record pos [.field (.name key.text) value]
  | bracketed => .record pos [.field (.computed (.literal key.pos (.number number))) value]
  | each clause => .recordOf pos (.literal key.pos (.number number)) value [clause.clause]

theorem record_pos (form : KeyForm) (pos : Position) (key : Token) (number : Float) (value : Expr) :
    (form.record pos key number value).pos = pos := by
  cases form <;> rfl

def text (spelled : String) (number : Float) : KeyForm → String
  | bare => spelled
  | bracketed | each _ => Number.format number

theorem text_of_shown (form : KeyForm) {spelled : String} {number : Float}
    (same : spelled = Number.format number) : form.text spelled number = Number.format number := by
  cases form with
  | bare => exact same
  | bracketed | each => rfl

/-- The frame that the value is evaluated in: in a comprehension a new one, that holds the item. -/
def enter (pos : Position) (env : FrameId) : KeyForm → Exec FrameId
  | bare | bracketed => pure env
  | each clause => do
      let _ ← Store.newArray #[.number clause.value]
      Exec.tick .forIn pos
      let frame ← Store.child env
      Store.define frame clause.name.text (.number clause.value)
      return frame

end KeyForm

theorem primary_record {reach : Reach} {opening : Token} (opens : opening.kind = .mark .openBrace)
    (shows_ : stream.Shows (opening :: rest)) :
    primary reach stream = record reach opening.pos stream.tail := by
  have here := Stream.current_of_front shows_.ahead
  refine (Parser.bind_of_ok rfl).trans ?_
  simp only [here, opens]
  exact Parser.bind_of_ok rfl

theorem KeyForm.Spells.key_mem {form : KeyForm} {key : Token} {value : List Token}
    (spells : form.Spells key value tokens) : key ∈ tokens := by
  cases spells <;> simp

theorem KeyForm.Spells.reads {form : KeyForm} {key : Token} {number : Float} {value : List Token}
    (spells : form.Spells key value tokens) (kind : key.kind = .number)
    (found : Number.read key.text = some number)
    (reads : Reads (reach (depth + 2) .expression) value expr [])
    (genuine : ∀ token ∈ tokens, token.Genuine) :
    ∃ pos, Reads (reach (depth + 3) .expression) tokens (form.record pos key number expr) [] := by
  have shows_ : (Stream.ofList tokens ⟨.endOfInput, "", .start⟩).Shows tokens :=
    ⟨⟨genuine, rfl, rfl⟩, rfl⟩
  cases spells with
  | @bare opening colon closing opens colons closes =>
      refine ⟨opening.pos, expression_alone (by rw [opens]; rfl) ?_ genuine⟩
      obtain ⟨after, left, first⟩ := entryRound_first opening.pos (.inl kind) shows_.tail
        (fun shows_ => ⟨_, key_number kind found shows_, shows_.tail⟩)
        (fun shows_ => entryValue_colon _ colons reads (by rw [closes]; rfl) (by rw [closes]; nofun)
          shows_)
      obtain ⟨last, run, ends⟩ := record_one closes (room_of_shows shows_.tail) first left
      exact ⟨.start, last, (primary_record opens shows_).trans run, ends.ahead⟩
  | @bracketed opening left right colon closing opens lefts rights colons closes =>
      refine ⟨opening.pos, expression_alone (by rw [opens]; rfl) ?_ genuine⟩
      obtain ⟨after, left, first⟩ := entryRound_first opening.pos (.inr lefts) shows_.tail
        (fun shows_ => key_computed lefts kind rights found shows_)
        (fun shows_ => entryValue_colon _ colons reads (by rw [closes]; rfl) (by rw [closes]; nofun)
          shows_)
      obtain ⟨last, run, ends⟩ := record_one closes (room_of_shows shows_.tail) first left
      exact ⟨.start, last, (primary_record opens shows_).trans run, ends.ahead⟩
  | @each opening colon closing clause opens colons fits closes =>
      refine ⟨opening.pos, expression_alone (by rw [opens]; rfl) ?_ genuine⟩
      obtain ⟨after, left, first⟩ := entryRound_first opening.pos (.inl kind) shows_.tail
        (fun shows_ => ⟨_, key_number kind found shows_, shows_.tail⟩)
        (fun shows_ => entryValue_colon _ colons reads (by rw [fits.for_]; rfl)
          (by rw [fits.for_]; nofun) shows_)
      obtain ⟨last, run, ends⟩ := record_each fits closes first left
      exact ⟨.start, last, (primary_record opens shows_).trans run, ends.ahead⟩

end Grammar

/-! ## Evaluation -/

namespace Engine

open Grammar (KeyForm Each)

variable (loader : Option Loader) (level : Nat)

theorem eval_succ (expr : Expr) (env : FrameId) :
    (ofDepth loader (level + 1)).eval expr env
      = Exec.locate expr.pos ((ofDepth loader level).evalForm expr env) := by
  rw [eval, perform_succ]
  rfl

theorem eval_literal (pos : Position) (literal : Literal) (env : FrameId) :
    (ofDepth loader (level + 1)).eval (.literal pos literal) env = pure literal.value := by
  rw [eval_succ]
  rfl

theorem evalKey_number (pos : Position) (number : Float) (env : FrameId) :
    (ofDepth loader (level + 1)).evalKey env (.computed (.literal pos (.number number)))
      = pure (Number.format number) := by
  simp only [evalKey, eval_literal]
  funext state
  show Outcome.done (state.heap.display (.number number)) _ = _
  rw [Heap.display, Heap.showWithin]
  rfl

theorem eval_array_number (pos at_ : Position) (number : Float) (env : FrameId) :
    (ofDepth loader (level + 2)).eval (.array pos [.literal at_ (.number number)]) env
      = (liftM (Store.newArray #[.number number]) : Exec Value) := by
  rw [eval_succ]
  simp only [evalForm, evalItems, evalItem, eval_literal, Exec.bind_assoc]
  rfl

theorem newArray_elements {α : Type} (items : Array Value) (f : List Value → Exec α) :
    (do
      let value ← (liftM (Store.newArray items) : Exec Value)
      let found ← (liftM (Access.elements value) : Exec (List Value))
      f found) = (do
      let _ ← (liftM (Store.newArray items) : Exec Value)
      f items.toList) := by
  funext state
  simp only [Exec.bind_eq, Exec.store_eq, Store.newArray]
  show f _ _ = f _ _
  simp [Heap.array]

/-- Whatever the form, a record with one field is made of the value. -/
theorem evalForm_keyed (form : KeyForm) (pos : Position) (key : Token) (number : Float)
    (value : Expr) (env : FrameId) :
    (ofDepth loader (level + 2)).evalForm (form.record pos key number value) env = (do
      let inner ← form.enter pos env
      let result ← (ofDepth loader (level + 2)).eval value inner
      Store.newRecord ⟨[(form.text key.text number, result)]⟩) := by
  cases form with
  | bare =>
      simp only [KeyForm.record, evalForm, evalEntries, Exec.bind_assoc]
      rfl
  | bracketed =>
      simp only [KeyForm.record, evalForm, evalEntries, evalKey_number, Exec.bind_assoc]
      rfl
  | each clause =>
      simp only [KeyForm.record, KeyForm.enter, evalForm, Each.clause, comprehend, eval_array_number,
        Exec.bind_assoc, newArray_elements, evalKey_number, List.foldlM_cons, List.foldlM_nil]
      rfl

end Engine

open Engine in
/-- A number as the only key of a record. In brackets and in a comprehension the key is the number as
it is shown, and bare in a record it is the number as it is spelled. So the forms agree if and only if
the number is spelled as it is shown, like a whole number below `10 ^ 15` in its usual digits. -/
theorem numeric_keys {form : Grammar.KeyForm} {depth : Nat} {key : Token} {tokens within : List Token}
    {value : Expr} {stream : Stream} (kind : key.kind = .number)
    (reads : Reads (Grammar.reach (depth + 2) .expression) within value [])
    (spells : form.Spells key within tokens) (shows_ : stream.Shows tokens) :
    ∃ number expr after, Number.read key.text = some number
      ∧ Grammar.reach (depth + 3) .expression stream = .ok (expr, after) ∧ after.ahead = []
      ∧ (∀ loader level env, (ofDepth loader (level + 3)).eval expr env = Exec.locate expr.pos (do
          let inner ← form.enter expr.pos env
          let result ← (ofDepth loader (level + 2)).eval value inner
          Store.newRecord ⟨[(form.text key.text number, result)]⟩))
      ∧ ((∀ other : Grammar.KeyForm, other.text key.text number = form.text key.text number)
        ↔ key.text = Number.format number)
      ∧ ∀ n < 10 ^ 15, key.text = n.repr → key.text = Number.format number := by
  have genuine (token : Token) (member : token ∈ tokens) : token.Genuine :=
    shows_.genuine token (shows_.ahead ▸ member)
  obtain ⟨number, found⟩ := (genuine key spells.key_mem).number_read kind
  obtain ⟨pos, whole⟩ := spells.reads kind found reads genuine
  obtain ⟨after, run, left⟩ := Grammar.reads_in
    (Grammar.reach_follows 0 (Nat.le_refl (depth + 3))).expression whole shows_
  refine ⟨number, form.record pos key number value, after, found, run, left.ahead, ?_, ?_, ?_⟩
  · intro loader level env
    rw [eval_succ, evalForm_keyed, form.record_pos]
  · refine ⟨fun agree => ?_, fun same other => ?_⟩
    · exact (agree .bare).trans (agree .bracketed).symm
    · rw [other.text_of_shown same, form.text_of_shown same]
  · intro n small digits
    rw [digits]
    exact (Number.format_of_read small (digits ▸ found)).symm

/-- A record whose key is spelled `1.0` has the key `1.0`, though the number is shown as `1`. -/
theorem numeric_keys_fraction :
    let tokens : List Token := [⟨.mark .openBrace, "\x7b", ⟨1, 1⟩⟩, ⟨.number, "1.0", ⟨1, 2⟩⟩,
      ⟨.mark .colon, ":", ⟨1, 5⟩⟩, ⟨.number, "2", ⟨1, 7⟩⟩, ⟨.mark .closeBrace, "\x7d", ⟨1, 8⟩⟩]
    let finish : Token := ⟨.endOfInput, "", ⟨1, 9⟩⟩
    let two : Float := Number.ofDecimal false 2 0
    tokenize "\x7b1.0: 2\x7d" = .ok (tokens ++ [finish])
      ∧ ∃ number expr after, Number.read "1.0" = some number ∧ Number.format number = "1"
        ∧ Grammar.reach 3 .expression (Stream.ofList tokens finish) = .ok (expr, after)
        ∧ after.ahead = []
        ∧ (Engine.ofDepth none 3).eval expr 0 (State.ofHeap .empty) = .done (.record 0)
          (State.ofHeap { Heap.empty with records := #[⟨[("1.0", .number two)]⟩] }) := by
  intro tokens finish two
  have lexed : tokenize "\x7b1.0: 2\x7d" = .ok (tokens ++ [finish]) := by with_unfolding_all rfl
  refine ⟨lexed, ?_⟩
  obtain ⟨front, ending, same, genuine⟩ :=
    (Scans.tokenizeAt_eq_ok.mp lexed).genuine (Position.clamp_placed _)
  obtain ⟨rfl, -⟩ := List.append_inj' same rfl
  have reads : Reads (Grammar.reach (0 + 2) .expression) [⟨.number, "2", ⟨1, 7⟩⟩]
      (.literal ⟨1, 7⟩ (.number two)) [] := ⟨.start, _, rfl, rfl⟩
  have spells : Grammar.KeyForm.bare.Spells ⟨.number, "1.0", ⟨1, 2⟩⟩ [⟨.number, "2", ⟨1, 7⟩⟩] tokens :=
    .bare rfl rfl rfl
  have shows_ : (Stream.ofList tokens finish).Shows tokens := ⟨⟨genuine, rfl, rfl⟩, rfl⟩
  obtain ⟨number, expr, after, found, run, left, valued, -, -⟩ := numeric_keys rfl reads spells shows_
  have shown : Number.format number = "1" := by
    have known : Number.read "1.0" = some (Number.nearest false 10 10) := rfl
    have bits : Number.nearestBits 10 10 = Number.nearestBits 1 1 := by decide +kernel
    have one : Number.nearest false 10 10 = Number.nearest false 1 1 := by
      simp [Number.nearest, bits]
    rw [Option.some.inj (found.symm.trans known), one]
    exact Number.format_whole (by decide)
  refine ⟨number, expr, after, found, shown, run, left, ?_⟩
  rw [valued none 0 0]
  rfl

end Rill

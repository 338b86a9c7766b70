import Rill.Proofs.Following
import Rill.Proofs.Nesting

/-!
# What the positions of a tree point at

A fact about each position in a syntax tree, and the judgement that productions give trees all of
whose positions are those of tokens and errors that stand at a token, at a hole, or where a source
cannot be read.
-/

set_option autoImplicit false

namespace Rill

/-! ## Every position in a tree -/

mutual

def Expr.Everywhere (good : Position → Prop) : Expr → Prop
  | .literal pos _ | .ident pos _ | .super_ pos _ => good pos
  | .template pos parts => good pos ∧ TemplatePart.EverywhereAll good parts
  | .array pos items => good pos ∧ Expr.EverywhereAll good items
  | .record pos entries => good pos ∧ Entry.EverywhereAll good entries
  | .binary pos _ left right => good pos ∧ left.Everywhere good ∧ right.Everywhere good
  | .unary pos _ operand => good pos ∧ operand.Everywhere good
  | .ternary pos cond yes no =>
      good pos ∧ cond.Everywhere good ∧ yes.Everywhere good ∧ no.Everywhere good
  | .call pos callee args => good pos ∧ callee.Everywhere good ∧ Expr.EverywhereAll good args
  | .member pos object _ _ => good pos ∧ object.Everywhere good
  | .index pos object index => good pos ∧ object.Everywhere good ∧ index.Everywhere good
  | .function pos fn => good pos ∧ fn.Everywhere good
  | .spread pos inner => good pos ∧ inner.Everywhere good
  | .match_ pos subject arms => good pos ∧ subject.Everywhere good ∧ Arm.EverywhereAll good arms
  | .arrayOf pos element clauses =>
      good pos ∧ element.Everywhere good ∧ Clause.EverywhereAll good clauses
  | .recordOf pos key value clauses =>
      good pos ∧ key.Everywhere good ∧ value.Everywhere good ∧ Clause.EverywhereAll good clauses

def Expr.EverywhereAll (good : Position → Prop) : List Expr → Prop
  | [] => True
  | expr :: rest => expr.Everywhere good ∧ Expr.EverywhereAll good rest

def Expr.Everywhere? (good : Position → Prop) : Option Expr → Prop
  | none => True
  | some expr => expr.Everywhere good

def TemplatePart.EverywhereAll (good : Position → Prop) : List TemplatePart → Prop
  | [] => True
  | .text _ :: rest => TemplatePart.EverywhereAll good rest
  | .hole expr :: rest => expr.Everywhere good ∧ TemplatePart.EverywhereAll good rest

def Key.Everywhere (good : Position → Prop) : Key → Prop
  | .name _ => True
  | .computed key => key.Everywhere good

def Entry.Everywhere (good : Position → Prop) : Entry → Prop
  | .field key value => key.Everywhere good ∧ value.Everywhere good
  | .spread source => source.Everywhere good

def Entry.EverywhereAll (good : Position → Prop) : List Entry → Prop
  | [] => True
  | entry :: rest => entry.Everywhere good ∧ Entry.EverywhereAll good rest

def Arm.Everywhere (good : Position → Prop) : Arm → Prop
  | ⟨_, guard, body⟩ => Expr.Everywhere? good guard ∧ body.Everywhere good

def Arm.EverywhereAll (good : Position → Prop) : List Arm → Prop
  | [] => True
  | arm :: rest => arm.Everywhere good ∧ Arm.EverywhereAll good rest

def Clause.Everywhere (good : Position → Prop) : Clause → Prop
  | .each _ source => source.Everywhere good
  | .only cond => cond.Everywhere good

def Clause.EverywhereAll (good : Position → Prop) : List Clause → Prop
  | [] => True
  | clause :: rest => clause.Everywhere good ∧ Clause.EverywhereAll good rest

def Binding.Everywhere (good : Position → Prop) : Binding → Prop
  | ⟨_, value⟩ => Expr.Everywhere? good value

def Binding.EverywhereAll (good : Position → Prop) : List Binding → Prop
  | [] => True
  | binding :: rest => binding.Everywhere good ∧ Binding.EverywhereAll good rest

def Function.Everywhere (good : Position → Prop) : Function → Prop
  | ⟨_, params, body, pos⟩ =>
      Binding.EverywhereAll good params ∧ body.Everywhere good ∧ good pos

def Function.EverywhereAll (good : Position → Prop) : List Function → Prop
  | [] => True
  | fn :: rest => fn.Everywhere good ∧ Function.EverywhereAll good rest

def Body.Everywhere (good : Position → Prop) : Body → Prop
  | .block block => block.Everywhere good
  | .value expr => expr.Everywhere good

def Block.Everywhere (good : Position → Prop) : Block → Prop
  | ⟨stmts, pos⟩ => Stmt.EverywhereAll good stmts ∧ good pos

def Block.Everywhere? (good : Position → Prop) : Option Block → Prop
  | none => True
  | some block => block.Everywhere good

def Stmt.Everywhere (good : Position → Prop) : Stmt → Prop
  | .expr pos expr => good pos ∧ expr.Everywhere good
  | .declare pos _ bindings => good pos ∧ Binding.EverywhereAll good bindings
  | .destructure pos _ _ value => good pos ∧ value.Everywhere good
  | .assign pos target _ value => good pos ∧ target.Everywhere good ∧ value.Everywhere good
  | .function pos fn => good pos ∧ fn.Everywhere good
  | .class_ pos decl => good pos ∧ decl.Everywhere good
  | .if_ pos cond yes no =>
      good pos ∧ cond.Everywhere good ∧ yes.Everywhere good ∧ Stmt.Everywhere? good no
  | .while_ pos cond body => good pos ∧ cond.Everywhere good ∧ body.Everywhere good
  | .for_ pos init cond post body =>
      good pos ∧ Stmt.Everywhere? good init ∧ Expr.Everywhere? good cond
        ∧ Stmt.Everywhere? good post ∧ body.Everywhere good
  | .forIn pos _ source body => good pos ∧ source.Everywhere good ∧ body.Everywhere good
  | .block pos block => good pos ∧ block.Everywhere good
  | .return_ pos value => good pos ∧ Expr.Everywhere? good value
  | .break_ pos | .continue_ pos | .import_ pos _ _ => good pos
  | .try_ pos body handler cleanup =>
      good pos ∧ body.Everywhere good ∧ Handler.Everywhere? good handler
        ∧ Block.Everywhere? good cleanup
  | .throw_ pos value => good pos ∧ value.Everywhere good

def Stmt.EverywhereAll (good : Position → Prop) : List Stmt → Prop
  | [] => True
  | stmt :: rest => stmt.Everywhere good ∧ Stmt.EverywhereAll good rest

def Stmt.Everywhere? (good : Position → Prop) : Option Stmt → Prop
  | none => True
  | some stmt => stmt.Everywhere good

def Handler.Everywhere? (good : Position → Prop) : Option Handler → Prop
  | none => True
  | some ⟨_, body⟩ => body.Everywhere good

def ClassDecl.Everywhere (good : Position → Prop) : ClassDecl → Prop
  | ⟨_, _, fields, methods, pos⟩ =>
      Binding.EverywhereAll good fields ∧ Function.EverywhereAll good methods ∧ good pos

end

def Program.Everywhere (good : Position → Prop) (program : Program) : Prop :=
  Stmt.EverywhereAll good program.body

section Lists

variable {good : Position → Prop}

theorem Expr.Everywhere.here {expr : Expr} (all : expr.Everywhere good) : good expr.pos := by
  cases expr with
  | literal | ident | super_ => exact all
  | _ => exact all.1

theorem Expr.everywhereAll_iff {items : List Expr} :
    Expr.EverywhereAll good items ↔ ∀ expr ∈ items, expr.Everywhere good := by
  induction items with
  | nil => simp [Expr.EverywhereAll]
  | cons expr rest ih => simp [Expr.EverywhereAll, ih]

theorem Entry.everywhereAll_iff {entries : List Entry} :
    Entry.EverywhereAll good entries ↔ ∀ entry ∈ entries, entry.Everywhere good := by
  induction entries with
  | nil => simp [Entry.EverywhereAll]
  | cons entry rest ih => simp [Entry.EverywhereAll, ih]

theorem Arm.everywhereAll_iff {arms : List Arm} :
    Arm.EverywhereAll good arms ↔ ∀ arm ∈ arms, arm.Everywhere good := by
  induction arms with
  | nil => simp [Arm.EverywhereAll]
  | cons arm rest ih => simp [Arm.EverywhereAll, ih]

theorem Clause.everywhereAll_iff {clauses : List Clause} :
    Clause.EverywhereAll good clauses ↔ ∀ clause ∈ clauses, clause.Everywhere good := by
  induction clauses with
  | nil => simp [Clause.EverywhereAll]
  | cons clause rest ih => simp [Clause.EverywhereAll, ih]

theorem Binding.everywhereAll_iff {bindings : List Binding} :
    Binding.EverywhereAll good bindings ↔ ∀ binding ∈ bindings, binding.Everywhere good := by
  induction bindings with
  | nil => simp [Binding.EverywhereAll]
  | cons binding rest ih => simp [Binding.EverywhereAll, ih]

theorem Function.everywhereAll_iff {functions : List Function} :
    Function.EverywhereAll good functions ↔ ∀ fn ∈ functions, fn.Everywhere good := by
  induction functions with
  | nil => simp [Function.EverywhereAll]
  | cons fn rest ih => simp [Function.EverywhereAll, ih]

theorem Stmt.everywhereAll_iff {stmts : List Stmt} :
    Stmt.EverywhereAll good stmts ↔ ∀ stmt ∈ stmts, stmt.Everywhere good := by
  induction stmts with
  | nil => simp [Stmt.EverywhereAll]
  | cons stmt rest ih => simp [Stmt.EverywhereAll, ih]

end Lists

/-! ## Productions -/

theorem Token.Nested.starts {whole : String} {token : Token} (nested : token.Nested whole)
    (shown : token.kind ≠ .endOfInput) : StartsToken whole token.pos :=
  nested.stands.resolve_right fun finish => shown finish.1

/-- The tokens of a stream are those of a source inside the text. -/
structure Stream.Real (whole : String) (stream : Stream) : Prop extends Sound stream where
  nested : ∀ token ∈ stream.ahead, token.Nested whole
  ends : stream.finish.Nested whole

namespace Stream.Real

variable {whole : String} {stream : Stream}

theorem current (real : stream.Real whole) : stream.current.Nested whole := by
  rw [Stream.current]
  cases front : stream.ahead with
  | nil => exact real.ends
  | cons token rest => exact real.nested token (front ▸ List.mem_cons_self)

theorem sub {after : Stream} (real : stream.Real whole) (fewer : after.ahead ⊆ stream.ahead)
    (finish : after.finish = stream.finish) : after.Real whole where
  genuine token member := real.genuine token (fewer member)
  kind := finish ▸ real.kind
  text := finish ▸ real.text
  nested token member := real.nested token (fewer member)
  ends := finish ▸ real.ends

theorem tail (real : stream.Real whole) : stream.tail.Real whole :=
  real.sub (List.tail_subset stream.ahead) rfl

theorem dropWhile (real : stream.Real whole) (p : Token → Bool) : (stream.dropWhile p).Real whole :=
  real.sub (List.dropWhile_suffix p).subset rfl

theorem alive {α : Type} {p : Parser α} {x : α} {after : Stream} (real : stream.Real whole)
    (dead : Dead p) (run : p stream = .ok (x, after)) : StartsToken whole stream.current.pos := by
  refine real.current.starts fun finish => ?_
  have spent : stream.Spent := by
    refine ⟨real.toSound, fun token member => ?_⟩
    obtain ⟨front, rest, split⟩ := List.append_of_mem member
    cases ahead : stream.ahead with
    | nil => rw [ahead] at member; exact nomatch member
    | cons first later =>
        rw [Stream.current_of_front ahead] at finish
        exact absurd finish (real.genuine first (ahead ▸ List.mem_cons_self)).kind_ne_end
  exact (dead spent run).1

end Stream.Real

namespace ParseError

/-- The error is about a nested token, about a hole, or about a source that cannot be read. -/
inductive Located (whole : String) : ParseError → Prop
  | token {error : ParseError} {token : Token} (nested : token.Nested whole)
      (place : error.pos = token.pos) : Located whole error
  | hole {error : ParseError} {token : Token} {pieces : List TemplatePiece} {source : String}
      (nested : token.Nested whole) (template : token.kind = .template pieces)
      (piece : .hole source error.pos ∈ pieces) : Located whole error
  | lexical {error : LexError} {source : String} {start : Position} (inside : Inside whole source start)
      (fails : tokenizeAt source start = .error error) : Located whole (.lexical error)

end ParseError

/-- From this stream of nested tokens, the production gives what is `good` and leaves nested tokens,
or its error is located. -/
def YieldsFrom {α : Type} (whole : String) (stream : Stream) (good : α → Prop) (p : Parser α) : Prop :=
  stream.Real whole →
    (∀ ⦃x after⦄, p stream = .ok (x, after) → good x ∧ after.Real whole)
    ∧ ∀ ⦃error⦄, p stream = .error (.error error) → error.Located whole

def Yields {α : Type} (whole : String) (good : α → Prop) (p : Parser α) : Prop :=
  ∀ stream, YieldsFrom whole stream good p

section Rules

variable {α β γ : Type} {whole : String} {stream : Stream} {good good' : α → Prop} {p : Parser α}
  {f : α → Parser β} {rest : β → Prop}

theorem YieldsFrom.bindRun (first : YieldsFrom whole stream good p)
    (next : ∀ x after, p stream = .ok (x, after) → good x → YieldsFrom whole after rest (f x)) :
    YieldsFrom whole stream rest (p >>= f) := by
  intro real
  obtain ⟨ok, failed⟩ := first real
  have step : (p >>= f) stream = p stream >>= fun found => f found.1 found.2 := rfl
  cases run : p stream with
  | error failure =>
      rw [run] at step
      refine ⟨fun x after done => ?_, fun error bad => ?_⟩
      · rw [step] at done
        exact nomatch done
      · rw [step] at bad
        cases bad
        exact failed run
  | ok found =>
      obtain ⟨x, after⟩ := found
      obtain ⟨value, left⟩ := ok run
      rw [run] at step
      have later := next x after run value left
      refine ⟨fun y finish done => ?_, fun error bad => ?_⟩
      · rw [step] at done
        exact later.1 done
      · rw [step] at bad
        exact later.2 bad

theorem YieldsFrom.bind (first : YieldsFrom whole stream good p)
    (next : ∀ x, good x → Yields whole rest (f x)) : YieldsFrom whole stream rest (p >>= f) :=
  first.bindRun fun x after _ value => next x value after

theorem Yields.bind (first : Yields whole good p) (next : ∀ x, good x → Yields whole rest (f x)) :
    Yields whole rest (p >>= f) := fun stream => (first stream).bind next

theorem YieldsFrom.mono (yields : YieldsFrom whole stream good p) (weaker : ∀ x, good x → good' x) :
    YieldsFrom whole stream good' p := fun real =>
  ⟨fun _ _ done => ((yields real).1 done).imp_left (weaker _), (yields real).2⟩

theorem Yields.mono (yields : Yields whole good p) (weaker : ∀ x, good x → good' x) :
    Yields whole good' p := fun stream => (yields stream).mono weaker

theorem Yields.result {x : α} (value : good x) : Yields whole good (pure x : Parser α) := by
  intro stream real
  refine ⟨fun y after done => ?_, fun error bad => nomatch bad⟩
  cases done
  exact ⟨value, real⟩

theorem Yields.exhausted : Yields whole good (Parser.exhausted : Parser α) :=
  fun _ _ => ⟨fun _ _ done => (nomatch done), fun _ bad => nomatch bad⟩

theorem Yields.fail {error : ParseError} (located : error.Located whole) :
    Yields whole good (Parser.fail error : Parser α) := by
  refine fun stream real => ⟨fun _ _ done => (nomatch done), fun error' bad => ?_⟩
  cases bad
  exact located

theorem YieldsFrom.alive (yields : YieldsFrom whole stream good p) (dead : Dead p) :
    YieldsFrom whole stream (fun x => good x ∧ StartsToken whole stream.current.pos) p := by
  intro real
  obtain ⟨ok, failed⟩ := yields real
  refine ⟨fun x after run => ?_, failed⟩
  obtain ⟨value, left⟩ := ok run
  exact ⟨⟨value, real.alive dead run⟩, left⟩

theorem YieldsFrom.of_current {f : Token → Parser α}
    (next : stream.current.Nested whole → YieldsFrom whole stream good (f stream.current)) :
    YieldsFrom whole stream good (Parser.current >>= f) := fun real => next real.current real

theorem YieldsFrom.peeked {f : Token → Parser α} (next : ∀ token, YieldsFrom whole stream good (f token)) :
    YieldsFrom whole stream good (Parser.peek >>= f) := fun real => next stream.peek real

theorem Yields.current : Yields whole (Token.Nested whole) Parser.current := by
  intro stream real
  refine ⟨fun token after done => ?_, fun error bad => nomatch bad⟩
  cases done
  exact ⟨real.current, real⟩

theorem Yields.peek : Yields whole (fun _ => True) Parser.peek := by
  intro stream real
  refine ⟨fun token after done => ?_, fun error bad => nomatch bad⟩
  cases done
  exact ⟨trivial, real⟩

theorem Yields.pastNewlines : Yields whole (fun _ => True) Parser.pastNewlines := by
  intro stream real
  refine ⟨fun token after done => ?_, fun error bad => nomatch bad⟩
  cases done
  exact ⟨trivial, real⟩

theorem Yields.advance : Yields whole (Token.Nested whole) Parser.advance := by
  intro stream real
  refine ⟨fun token after done => ?_, fun error bad => nomatch bad⟩
  cases done
  exact ⟨real.current, real.tail⟩

theorem Yields.skip (q : Token → Bool) :
    Yields whole (fun _ => True) (modify (·.dropWhile q) : Parser Unit) := by
  intro stream real
  refine ⟨fun token after done => ?_, fun error bad => nomatch bad⟩
  cases done
  exact ⟨trivial, real.dropWhile q⟩

theorem Yields.check (kind : TokenKind) : Yields whole (fun _ => True) (Parser.check kind) :=
  Yields.current.bind fun _ _ => .result trivial

theorem Yields.unexpected (wanted : Wanted) :
    Yields whole good (Parser.unexpected wanted : Parser α) :=
  Yields.current.bind fun _ nested => .fail (.token nested rfl)

theorem Yields.eat (kind : TokenKind) : Yields whole (fun _ => True) (Parser.eat kind) := by
  refine (Yields.check kind).bind fun here _ => ?_
  split
  · exact Yields.advance.bind fun _ _ => .result trivial
  · exact .result trivial

theorem Yields.unexpecteds (wanted : Wanted) {f : β → Parser α} :
    Yields whole good (Parser.unexpected wanted >>= f) :=
  have dead : Yields whole (fun _ => False) (Parser.unexpected wanted : Parser β) := .unexpected wanted
  dead.bind fun _ bad => bad.elim

theorem Yields.fails {error : ParseError} (located : error.Located whole) {f : β → Parser α} :
    Yields whole good (Parser.fail error >>= f) :=
  have dead : Yields whole (fun _ => False) (Parser.fail error : Parser β) := .fail located
  dead.bind fun _ bad => bad.elim

theorem YieldsFrom.checked {kind : TokenKind} {yes no : Parser α}
    (here : stream.current.kind = kind → YieldsFrom whole stream good yes)
    (away : YieldsFrom whole stream good no) :
    YieldsFrom whole stream good
      (Parser.check kind >>= fun found => if found = true then yes else no) := by
  have step : (Parser.check kind >>= fun found => if found = true then yes else no) stream
      = (if decide (stream.current.kind = kind) = true then yes else no) stream := rfl
  intro real
  rw [step]
  split
  · next same => exact here (of_decide_eq_true same) real
  · exact away real

theorem Yields.checked {kind : TokenKind} {yes no : Parser α} (here : Yields whole good yes)
    (away : Yields whole good no) :
    Yields whole good (Parser.check kind >>= fun found => if found = true then yes else no) :=
  fun stream => .checked (fun _ => here stream) (away stream)

theorem Yields.eaten {kind : TokenKind} {yes no : Parser α} (here : Yields whole good yes)
    (away : Yields whole good no) :
    Yields whole good (Parser.eat kind >>= fun found => if found = true then yes else no) := by
  refine (Yields.eat kind).bind fun found _ => ?_
  split
  · exact here
  · exact away

theorem Yields.skips {q : Token → Bool} {f : Unit → Parser α} (next : Yields whole good (f ())) :
    Yields whole good ((modify (·.dropWhile q) : Parser Unit) >>= f) :=
  (Yields.skip q).bind fun _ _ => next

theorem YieldsFrom.advance (shown : stream.current.kind ≠ .endOfInput) :
    YieldsFrom whole stream (fun token => StartsToken whole token.pos) Parser.advance := by
  refine fun real => ⟨fun token after done => ?_, fun error bad => nomatch bad⟩
  cases done
  exact ⟨real.current.starts shown, real.tail⟩

theorem YieldsFrom.advanced {f : Token → Parser α} (shown : stream.current.kind ≠ .endOfInput)
    (next : ∀ token, StartsToken whole token.pos → Yields whole good (f token)) :
    YieldsFrom whole stream good (Parser.advance >>= f) := (YieldsFrom.advance shown).bind next

theorem Yields.advances {f : Token → Parser α} (next : ∀ token, Yields whole good (f token)) :
    Yields whole good (Parser.advance >>= f) := Yields.advance.bind fun token _ => next token

theorem Yields.expect {kind : TokenKind} :
    Yields whole (fun token => token.Nested whole ∧ token.kind = kind) (Parser.expect kind) := by
  refine fun stream => .checked (fun here real => ?_) (Yields.unexpected _ _)
  refine ⟨fun token after done => ?_, fun error bad => nomatch bad⟩
  cases done
  exact ⟨⟨real.current, here⟩, real.tail⟩

theorem Yields.expects {kind : TokenKind} {f : Token → Parser α}
    (next : ∀ token, Yields whole good (f token)) :
    Yields whole good (Parser.expect kind >>= f) := Yields.expect.bind fun token _ => next token

theorem Yields.identifier : Yields whole (fun _ => True) Parser.identifier :=
  .checked (Yields.advance.bind fun _ _ => .result trivial) (.unexpected _)

theorem Yields.memberName : Yields whole (fun _ => True) Parser.memberName := by
  refine Yields.current.bind fun token _ => ?_
  split
  · exact Yields.advance.bind fun _ _ => .result trivial
  · exact .unexpected _

namespace Parser.Round

/-- What a round decides: the state it goes on with, or the result. -/
def All {β γ : Type} (again : β → Prop) (done : γ → Prop) : Round β γ → Prop
  | .again state => again state
  | .done result => done result

end Parser.Round

theorem Yields.loop {round : β → Parser (Parser.Round β γ)} {holds : β → Prop} {done : γ → Prop}
    (step : ∀ state, holds state → Yields whole (Parser.Round.All holds done) (round state))
    {state : β} (start : holds state) : Yields whole done (Parser.loop round state) := by
  have rounds : ∀ bound state, holds state → Yields whole done (Parser.iterate round bound state) := by
    intro bound
    induction bound with
    | zero => exact fun _ _ => .exhausted
    | succ bound ih =>
        intro state here
        refine (step state here).bind fun next after => ?_
        cases next with
        | again state' => exact ih state' after
        | done result => exact .result after
  exact fun stream => rounds _ state start stream

theorem Yields.gathers (good : α → Prop) (done : γ → Prop)
    {round : List α → Parser (Parser.Round (List α) γ)} {before : List α} {f : γ → Parser β}
    (start : ∀ x ∈ before, good x)
    (step : ∀ before, (∀ x ∈ before, good x) →
      Yields whole (Parser.Round.All (fun found => ∀ x ∈ found, good x) done) (round before))
    (next : ∀ found, done found → Yields whole rest (f found)) :
    Yields whole rest (Parser.loop round before >>= f) := (Yields.loop step start).bind next

theorem forall_mem_reverse {items : List α} (all : ∀ x ∈ items, good x) :
    ∀ x ∈ items.reverse, good x := fun x member => all x (List.mem_reverse.mp member)

theorem Yields.listed {close : Mark} {item : Parser α} (yields : Yields whole good item) :
    Yields whole (fun found => ∀ x ∈ found, good x) (Parser.listed close item) := by
  have nothing : ∀ x ∈ ([] : List α), good x := fun _ bad => nomatch bad
  refine .loop (fun before (all : ∀ x ∈ before, good x) => ?_) nothing
  refine .skips (.eaten (.result (forall_mem_reverse all)) (yields.bind fun x here => ?_))
  have more := List.forall_mem_cons.mpr ⟨here, all⟩
  exact .skips (.eaten (.result more)
    (.skips (.expects fun _ => .result (forall_mem_reverse more))))

theorem Yields.belated {kind : TokenKind} {f : Token → Parser α} {other : Parser α}
    (shown : kind ≠ .endOfInput)
    (yes : ∀ token, StartsToken whole token.pos → Yields whole good (f token))
    (no : Yields whole good other) :
    Yields whole good (Parser.pastNewlines >>= fun token =>
      if token.kind = kind then Parser.skipNewlines >>= fun _ => Parser.advance >>= f
      else other) := by
  intro stream real
  show (∀ ⦃x after⦄, (if stream.pastNewlines.kind = kind then
      Parser.skipNewlines >>= fun _ => Parser.advance >>= f else other) stream = .ok (x, after) → _)
    ∧ ∀ ⦃error⦄, (if stream.pastNewlines.kind = kind then
      Parser.skipNewlines >>= fun _ => Parser.advance >>= f else other) stream = .error (.error error)
      → _
  split
  · next here =>
    have past : (stream.dropWhile (·.kind = .newline)).current.kind ≠ .endOfInput := here ▸ shown
    exact YieldsFrom.advanced past yes (real.dropWhile _)
  · exact no stream real

end Rules

end Rill

import Rill.Proofs.Enduring
import Rill.Proofs.Legible.Numerals
import Rill.Proofs.Pointing
import Rill.Proofs.Written

/-!
# What can be written

Trees without a guard, and the judgement that productions make trees that can be written, as far as
these have no guard. A production reads genuine tokens, whose texts are those of words.
-/

set_option autoImplicit false

namespace Rill

/-! ## Trees without a guard -/

mutual

/-- No arm in the expression has a guard. -/
inductive Expr.Unguarded : Expr → Prop
  | literal {pos : Position} {value : Literal} : Expr.Unguarded (.literal pos value)
  | template {pos : Position} {parts : List TemplatePart}
      (all : ∀ part ∈ parts, part.Unguarded) : Expr.Unguarded (.template pos parts)
  | ident {pos : Position} {name : String} : Expr.Unguarded (.ident pos name)
  | array {pos : Position} {items : List Expr} (all : ∀ item ∈ items, item.Unguarded) :
      Expr.Unguarded (.array pos items)
  | record {pos : Position} {entries : List Entry} (all : ∀ entry ∈ entries, entry.Unguarded) :
      Expr.Unguarded (.record pos entries)
  | binary {pos : Position} {op : BinaryOp} {left right : Expr} (first : left.Unguarded)
      (second : right.Unguarded) : Expr.Unguarded (.binary pos op left right)
  | unary {pos : Position} {op : UnaryOp} {operand : Expr} (inner : operand.Unguarded) :
      Expr.Unguarded (.unary pos op operand)
  | ternary {pos : Position} {cond yes no : Expr} (test : cond.Unguarded) (here : yes.Unguarded)
      (there : no.Unguarded) : Expr.Unguarded (.ternary pos cond yes no)
  | call {pos : Position} {callee : Expr} {args : List Expr} (first : callee.Unguarded)
      (all : ∀ arg ∈ args, arg.Unguarded) : Expr.Unguarded (.call pos callee args)
  | member {pos : Position} {object : Expr} {name : String} {optional : Bool}
      (first : object.Unguarded) : Expr.Unguarded (.member pos object name optional)
  | index {pos : Position} {object index : Expr} (first : object.Unguarded)
      (second : index.Unguarded) : Expr.Unguarded (.index pos object index)
  | function {pos : Position} {fn : Function} (inner : fn.Unguarded) :
      Expr.Unguarded (.function pos fn)
  | spread {pos : Position} {inner : Expr} (source : inner.Unguarded) :
      Expr.Unguarded (.spread pos inner)
  | match_ {pos : Position} {subject : Expr} {arms : List Arm} (first : subject.Unguarded)
      (all : ∀ arm ∈ arms, arm.Unguarded) : Expr.Unguarded (.match_ pos subject arms)
  | arrayOf {pos : Position} {element : Expr} {clauses : List Clause} (first : element.Unguarded)
      (all : ∀ clause ∈ clauses, clause.Unguarded) : Expr.Unguarded (.arrayOf pos element clauses)
  | recordOf {pos : Position} {key value : Expr} {clauses : List Clause} (first : key.Unguarded)
      (second : value.Unguarded) (all : ∀ clause ∈ clauses, clause.Unguarded) :
      Expr.Unguarded (.recordOf pos key value clauses)
  | super_ {pos : Position} {name : Option String} : Expr.Unguarded (.super_ pos name)

inductive TemplatePart.Unguarded : TemplatePart → Prop
  | text {value : String} : TemplatePart.Unguarded (.text value)
  | hole {expr : Expr} (inner : expr.Unguarded) : TemplatePart.Unguarded (.hole expr)

inductive Entry.Unguarded : Entry → Prop
  | named {key : String} {value : Expr} (inner : value.Unguarded) :
      Entry.Unguarded (.field (.name key) value)
  | computed {key value : Expr} (first : key.Unguarded) (second : value.Unguarded) :
      Entry.Unguarded (.field (.computed key) value)
  | spread {source : Expr} (inner : source.Unguarded) : Entry.Unguarded (.spread source)

/-- The arm has no guard, and no arm in its body has one. -/
inductive Arm.Unguarded : Arm → Prop
  | mk {pattern : Pattern} {body : Expr} (inner : body.Unguarded) :
      Arm.Unguarded ⟨pattern, none, body⟩

inductive Clause.Unguarded : Clause → Prop
  | each {name : String} {source : Expr} (inner : source.Unguarded) :
      Clause.Unguarded (.each name source)
  | only {cond : Expr} (inner : cond.Unguarded) : Clause.Unguarded (.only cond)

inductive Binding.Unguarded : Binding → Prop
  | mk {name : String} {value : Option Expr} (all : ∀ expr ∈ value, expr.Unguarded) :
      Binding.Unguarded ⟨name, value⟩

inductive Function.Unguarded : Function → Prop
  | block {name : Option String} {params : List Binding} {block : Block} {pos : Position}
      (all : ∀ param ∈ params, param.Unguarded) (inner : block.Unguarded) :
      Function.Unguarded ⟨name, params, .block block, pos⟩
  | value {name : Option String} {params : List Binding} {expr : Expr} {pos : Position}
      (all : ∀ param ∈ params, param.Unguarded) (inner : expr.Unguarded) :
      Function.Unguarded ⟨name, params, .value expr, pos⟩

inductive Block.Unguarded : Block → Prop
  | mk {stmts : List Stmt} {pos : Position} (all : ∀ stmt ∈ stmts, stmt.Unguarded) :
      Block.Unguarded ⟨stmts, pos⟩

/-- No arm in the statement has a guard. -/
inductive Stmt.Unguarded : Stmt → Prop
  | expr {pos : Position} {expr : Expr} (inner : expr.Unguarded) : Stmt.Unguarded (.expr pos expr)
  | declare {pos : Position} {constant : Bool} {bindings : List Binding}
      (all : ∀ binding ∈ bindings, binding.Unguarded) :
      Stmt.Unguarded (.declare pos constant bindings)
  | destructure {pos : Position} {constant : Bool} {names : Destructure} {value : Expr}
      (inner : value.Unguarded) : Stmt.Unguarded (.destructure pos constant names value)
  | assign {pos : Position} {target value : Expr} {op : AssignOp} (first : target.Unguarded)
      (second : value.Unguarded) : Stmt.Unguarded (.assign pos target op value)
  | function {pos : Position} {fn : Function} (inner : fn.Unguarded) :
      Stmt.Unguarded (.function pos fn)
  | class_ {pos pos' : Position} {name : String} {parent : Option String} {fields : List Binding}
      {methods : List Function} (valued : ∀ field ∈ fields, field.Unguarded)
      (called : ∀ fn ∈ methods, fn.Unguarded) :
      Stmt.Unguarded (.class_ pos ⟨name, parent, fields, methods, pos'⟩)
  | if_ {pos : Position} {cond : Expr} {yes : Block} {no : Option Stmt} (test : cond.Unguarded)
      (here : yes.Unguarded) (there : ∀ stmt ∈ no, stmt.Unguarded) :
      Stmt.Unguarded (.if_ pos cond yes no)
  | while_ {pos : Position} {cond : Expr} {body : Block} (test : cond.Unguarded)
      (inner : body.Unguarded) : Stmt.Unguarded (.while_ pos cond body)
  | for_ {pos : Position} {init post : Option Stmt} {cond : Option Expr} {body : Block}
      (first : ∀ stmt ∈ init, stmt.Unguarded) (test : ∀ expr ∈ cond, expr.Unguarded)
      (last : ∀ stmt ∈ post, stmt.Unguarded) (inner : body.Unguarded) :
      Stmt.Unguarded (.for_ pos init cond post body)
  | forIn {pos : Position} {name : String} {source : Expr} {body : Block}
      (first : source.Unguarded) (inner : body.Unguarded) :
      Stmt.Unguarded (.forIn pos name source body)
  | block {pos : Position} {block : Block} (inner : block.Unguarded) :
      Stmt.Unguarded (.block pos block)
  | return_ {pos : Position} {value : Option Expr} (all : ∀ expr ∈ value, expr.Unguarded) :
      Stmt.Unguarded (.return_ pos value)
  | break_ {pos : Position} : Stmt.Unguarded (.break_ pos)
  | continue_ {pos : Position} : Stmt.Unguarded (.continue_ pos)
  | try_ {pos : Position} {body : Block} {handler : Option Handler} {cleanup : Option Block}
      (inner : body.Unguarded) (caught : ∀ found ∈ handler, found.body.Unguarded)
      (last : ∀ block ∈ cleanup, block.Unguarded) :
      Stmt.Unguarded (.try_ pos body handler cleanup)
  | throw_ {pos : Position} {value : Expr} (inner : value.Unguarded) :
      Stmt.Unguarded (.throw_ pos value)
  | import_ {pos : Position} {path : String} {name : Option String} :
      Stmt.Unguarded (.import_ pos path name)

end

def Program.Unguarded (program : Program) : Prop := ∀ stmt ∈ program.body, stmt.Unguarded

/-! ## Trees that can be written -/

abbrev Expr.Writable (expr : Expr) : Prop := expr.Unguarded → ∃ words, expr.Form words

abbrev Pattern.Writable (pattern : Pattern) : Prop := ∃ words, pattern.Written false words

abbrev TemplatePart.Writable (part : TemplatePart) : Prop :=
  part.Unguarded → ∃ piece, part.Written piece

abbrev Entry.Writable (entry : Entry) : Prop := entry.Unguarded → ∃ words, entry.Written words

abbrev Arm.Writable (arm : Arm) : Prop := arm.Unguarded → ∃ words, arm.Written words

abbrev Clause.Writable (clause : Clause) : Prop := clause.Unguarded → ∃ words, clause.Written words

abbrev Binding.Writable (binding : Binding) : Prop :=
  binding.Unguarded → ∃ words, binding.Written words

abbrev Block.Writable (block : Block) : Prop := block.Unguarded → ∃ words, block.Written words

abbrev Stmt.Writable (stmt : Stmt) : Prop := stmt.Unguarded → ∃ words, stmt.Written words

theorem rows_of {α β : Type} {written : α → β → Prop} {items : List α}
    (all : ∀ item ∈ items, ∃ words, written item words) :
    ∃ rows : List (α × β), rows.map Prod.fst = items ∧ ∀ row ∈ rows, written row.1 row.2 := by
  induction items with
  | nil => exact ⟨[], rfl, nofun⟩
  | cons item items ih =>
      obtain ⟨⟨words, here⟩, later⟩ := List.forall_mem_cons.mp all
      obtain ⟨rows, rfl, below⟩ := ih later
      exact ⟨(item, words) :: rows, rfl, List.forall_mem_cons.mpr ⟨here, below⟩⟩

theorem rows_of_writable {α β : Type} {unguarded : α → Prop} {written : α → β → Prop} {items : List α}
    (writable : ∀ item ∈ items, unguarded item → ∃ words, written item words)
    (all : ∀ item ∈ items, unguarded item) :
    ∃ rows : List (α × β), rows.map Prod.fst = items ∧ ∀ row ∈ rows, written row.1 row.2 :=
  rows_of fun item inside => writable item inside (all item inside)

theorem row_of_writable {α β : Type} {unguarded : α → Prop} {written : α → β → Prop} {item : Option α}
    (writable : ∀ found ∈ item, unguarded found → ∃ words, written found words)
    (all : ∀ found ∈ item, unguarded found) :
    ∃ row : Option (α × β), row.map Prod.fst = item ∧ ∀ found ∈ row, written found.1 found.2 := by
  cases item with
  | none => exact ⟨none, rfl, nofun⟩
  | some found =>
      obtain ⟨words, here⟩ := writable found rfl (all found rfl)
      refine ⟨some (found, words), rfl, ?_⟩
      rintro _ ⟨⟩
      exact here

theorem Expr.Form.written {expr : Expr} (form : ∃ words, expr.Form words) :
    ∃ words, expr.Written words := by
  obtain ⟨words, form⟩ := form
  exact ⟨_, .group form⟩

theorem Pattern.Written.mono {pattern : Pattern} {words : List Token}
    (written : pattern.Written false words) : pattern.Written true words := by
  cases written with
  | wildcard => exact .wildcard
  | binding named bound => exact .binding named bound
  | number numeral => exact .number (numeral.mono true)
  | negative numeral => exact .negative numeral
  | text => exact .text
  | true_ => exact .true_
  | false_ => exact .false_
  | nil => exact .nil
  | array all => exact .array all
  | arrayRest all named => exact .arrayRest all named
  | record all => exact .record all

/-! ## Productions -/

/-- From this stream of genuine tokens, the production gives what is `good` and leaves genuine
tokens, if it gives anything. -/
def MakesFrom {α : Type} (stream : Stream) (good : α → Prop) (p : Parser α) : Prop :=
  stream.Sound → ∀ ⦃x after⦄, p stream = .ok (x, after) → good x ∧ after.Sound

def Makes {α : Type} (good : α → Prop) (p : Parser α) : Prop := ∀ stream, MakesFrom stream good p

namespace Stream.Sound

variable {stream : Stream}

theorem tail (sound : stream.Sound) : stream.tail.Sound :=
  ⟨fun token member => sound.genuine token (List.mem_of_mem_tail member), sound.kind, sound.text⟩

theorem dropWhile (sound : stream.Sound) (p : Token → Bool) : (stream.dropWhile p).Sound :=
  ⟨fun token member => sound.genuine token ((List.dropWhile_suffix p).subset member), sound.kind,
    sound.text⟩

/-- The token ahead is genuine, unless it marks the end. -/
theorem current (sound : stream.Sound) (shown : stream.current.kind ≠ .endOfInput) :
    stream.current.Genuine := by
  cases front : stream.ahead with
  | nil =>
      rw [Stream.current, front] at shown
      exact absurd sound.kind shown
  | cons token rest =>
      rw [Stream.current_of_front front]
      exact sound.genuine token (front ▸ List.mem_cons_self)

end Stream.Sound

/-- A token that is genuine, unless it marks the end. -/
def Token.Shown (token : Token) : Prop := token.kind ≠ .endOfInput → token.Genuine

section Rules

variable {α β γ : Type} {stream : Stream} {good good' : α → Prop} {p : Parser α} {f : α → Parser β}
  {rest : β → Prop}

theorem MakesFrom.bind (first : MakesFrom stream good p) (next : ∀ x, good x → Makes rest (f x)) :
    MakesFrom stream rest (p >>= f) := by
  intro sound y finish run
  have step : (p >>= f) stream = p stream >>= fun found => f found.1 found.2 := rfl
  rw [step] at run
  cases taken : p stream with
  | error failure =>
      rw [taken] at run
      exact nomatch run
  | ok found =>
      rw [taken] at run
      obtain ⟨value, left⟩ := first sound taken
      exact next found.1 value found.2 left run

theorem MakesFrom.mono (makes : MakesFrom stream good p) (weaker : ∀ x, good x → good' x) :
    MakesFrom stream good' p := fun sound _ _ run => (makes sound run).imp_left (weaker _)

theorem MakesFrom.checked {kind : TokenKind} {yes no : Parser α}
    (here : stream.current.kind = kind → MakesFrom stream good yes)
    (away : MakesFrom stream good no) :
    MakesFrom stream good (Parser.check kind >>= fun found => if found = true then yes else no) := by
  have step : (Parser.check kind >>= fun found => if found = true then yes else no) stream
      = (if decide (stream.current.kind = kind) = true then yes else no) stream := rfl
  intro sound x after run
  rw [step] at run
  split at run
  · next same => exact here (of_decide_eq_true same) sound run
  · exact away sound run

theorem MakesFrom.eaten {kind : TokenKind} {yes no : Parser α} (here : stream.current.kind = kind)
    (next : MakesFrom stream.tail good yes) :
    MakesFrom stream good (Parser.eat kind >>= fun found => if found = true then yes else no) := by
  intro sound x after run
  have step : (Parser.eat kind >>= fun found => if found = true then yes else no) stream
      = yes stream.tail := by
    rw [Parser.eat_bind]
    show (if stream.current.kind = kind then _ else _ : Parser α) stream = _
    rw [if_pos here]
    rfl
  rw [step] at run
  exact next sound.tail run

theorem MakesFrom.skips {q : Token → Bool} {f : Unit → Parser α}
    (next : MakesFrom (stream.dropWhile q) good (f ())) :
    MakesFrom stream good ((modify (·.dropWhile q) : Parser Unit) >>= f) :=
  fun sound _ _ run => next (sound.dropWhile q) run

theorem MakesFrom.pastNewlines {f : Token → Parser α}
    (next : MakesFrom stream good (f (stream.dropWhile (·.kind = .newline)).current)) :
    MakesFrom stream good (Parser.pastNewlines >>= f) := next

theorem Stream.dropWhile_newlines {kind : TokenKind} (shown : stream.current.kind = kind)
    (ink : kind ≠ .newline) : (stream.dropWhile (·.kind = .newline)).current.kind = kind := by
  show ((stream.ahead.dropWhile (·.kind = .newline)).head?.getD stream.finish).kind = kind
  rw [Stream.current] at shown
  cases front : stream.ahead with
  | nil => rwa [front] at shown
  | cons token rest =>
      rw [front] at shown
      have here : token.kind = kind := shown
      rwa [List.dropWhile_cons_of_neg (by simp [here, ink])]

namespace Makes

theorem bind (first : Makes good p) (next : ∀ x, good x → Makes rest (f x)) : Makes rest (p >>= f) :=
  fun stream => (first stream).bind next

theorem mono (makes : Makes good p) (weaker : ∀ x, good x → good' x) : Makes good' p :=
  fun stream => (makes stream).mono weaker

theorem result {x : α} (value : good x) : Makes good (pure x : Parser α) := by
  intro stream sound y after run
  cases run
  exact ⟨value, sound⟩

theorem exhausted : Makes good (Parser.exhausted : Parser α) := fun _ _ _ _ run => nomatch run

theorem fail {error : ParseError} : Makes good (Parser.fail error : Parser α) :=
  fun _ _ _ _ run => nomatch run

theorem fails {error : ParseError} {f : β → Parser α} : Makes good (Parser.fail error >>= f) :=
  fun _ _ _ _ run => nomatch run

theorem unexpected {wanted : Wanted} : Makes good (Parser.unexpected wanted : Parser α) :=
  fun _ _ _ _ run => nomatch run

theorem unexpecteds {wanted : Wanted} {f : β → Parser α} :
    Makes good (Parser.unexpected wanted >>= f) := fun _ _ _ _ run => nomatch run

/-! ### The token ahead -/

section Steps

variable {kind : TokenKind} {yes no : Parser α} {g : Token → Parser α}

theorem current : Makes Token.Shown Parser.current := by
  intro stream sound token after run
  cases run
  exact ⟨sound.current, sound⟩

theorem advance : Makes Token.Shown Parser.advance := by
  intro stream sound token after run
  cases run
  exact ⟨sound.current, sound.tail⟩

theorem advances (next : ∀ token, Makes good (g token)) : Makes good (Parser.advance >>= g) :=
  advance.bind fun token _ => next token

theorem skips {q : Token → Bool} {f : Unit → Parser α} (next : Makes good (f ())) :
    Makes good ((modify (·.dropWhile q) : Parser Unit) >>= f) :=
  fun stream sound _ _ run => next (stream.dropWhile q) (sound.dropWhile q) run

theorem checked (here : Makes good yes) (away : Makes good no) :
    Makes good (Parser.check kind >>= fun found => if found = true then yes else no) :=
  fun stream => .checked (fun _ => here stream) (away stream)

theorem asks {h : Bool → Parser α} (next : ∀ found, Makes good (h found)) :
    Makes good (Parser.check kind >>= h) := fun stream sound _ _ run => next _ stream sound run

theorem peeks (next : ∀ token, Makes good (g token)) : Makes good (Parser.peek >>= g) :=
  fun stream sound _ _ run => next _ stream sound run

theorem seconds (here : ∀ token : Token, token.Shown → token.kind = kind → Makes good (g token))
    (away : Makes good no) :
    Makes good (Parser.peek >>= fun next => if next.kind = kind then
      Parser.advance >>= fun _ => Parser.advance >>= g else no) := by
  intro stream sound x after run
  have step : (Parser.peek >>= fun next => if next.kind = kind then
      Parser.advance >>= fun _ => Parser.advance >>= g else no) stream
      = (if stream.tail.current.kind = kind then
        Parser.advance >>= fun _ => Parser.advance >>= g else no) stream := rfl
  rw [step] at run
  split at run
  · next same => exact here _ sound.tail.current same _ sound.tail.tail run
  · exact away _ sound run

theorem pastNewlines (next : ∀ token, Makes good (g token)) :
    Makes good (Parser.pastNewlines >>= g) := fun stream sound _ _ run => next _ stream sound run

theorem expect : Makes (fun token => token.Shown ∧ token.kind = kind) (Parser.expect kind) := by
  refine fun stream => .checked (fun here sound token after run => ?_) (unexpected stream)
  cases run
  exact ⟨⟨sound.current, here⟩, sound.tail⟩

theorem expects (next : ∀ token, Makes good (g token)) : Makes good (Parser.expect kind >>= g) :=
  expect.bind fun token _ => next token

theorem eat : Makes (fun _ => True) (Parser.eat kind) :=
  checked (advances fun _ => .result trivial) (.result trivial)

theorem eaten (here : Makes good yes) (away : Makes good no) :
    Makes good (Parser.eat kind >>= fun found => if found = true then yes else no) := by
  refine eat.bind fun found _ => ?_
  split
  · exact here
  · exact away

end Steps

theorem identifier : Makes Identifier Parser.identifier := by
  refine fun stream => .checked (fun here sound name after run => ?_) (unexpected stream)
  cases run
  exact ⟨(sound.current (here ▸ nofun)).identifier here, sound.tail⟩

theorem memberName : Makes Nameable Parser.memberName := by
  refine fun stream sound name after run => ?_
  have step : Parser.memberName stream = (if Parser.isMemberName stream.current = true then
      Parser.advance >>= fun token => pure token.text
      else Parser.unexpected .propertyName : Parser String) stream := rfl
  rw [step] at run
  split at run
  · next member =>
    cases run
    -- the end of input has no text, so that it names nothing
    have shown : stream.current.kind ≠ .endOfInput := by
      intro ends
      cases front : stream.ahead with
      | nil =>
          rw [Stream.current, front, Parser.isMemberName] at member
          simp [sound.kind, sound.text] at member
      | cons token rest =>
          rw [Stream.current_of_front front] at ends
          exact (sound.genuine token (front ▸ List.mem_cons_self)).kind_ne_end ends
    exact ⟨((sound.current shown).nameable member).1, sound.tail⟩
  · cases run

/-! ### Loops -/

end Makes

theorem MakesFrom.loop (holds : β → Prop) {round : β → Parser (Parser.Round β γ)}
    {done : γ → Prop} {state : β}
    (first : MakesFrom stream (Parser.Round.All holds done) (round state))
    (step : ∀ state, holds state → Makes (Parser.Round.All holds done) (round state)) :
    MakesFrom stream done (Parser.loop round state) := by
  have later : ∀ bound state, holds state → Makes done (Parser.iterate round bound state) := by
    intro bound
    induction bound with
    | zero => exact fun _ _ => .exhausted
    | succ bound ih =>
        refine fun state here => (step state here).bind fun decided after => ?_
        cases decided with
        | again next => exact ih next after
        | done found => exact .result after
  refine first.bind fun decided after => ?_
  cases decided with
  | again next => exact later _ next after
  | done found => exact .result after

namespace Makes

theorem loop (holds : β → Prop) {round : β → Parser (Parser.Round β γ)} {done : γ → Prop}
    (step : ∀ state, holds state → Makes (Parser.Round.All holds done) (round state)) {state : β}
    (start : holds state) : Makes done (Parser.loop round state) :=
  fun stream => .loop holds (step state start stream) step

theorem gathers (good : α → Prop) (done : γ → Prop)
    {round : List α → Parser (Parser.Round (List α) γ)} {before : List α} {f : γ → Parser β}
    (start : ∀ x ∈ before, good x)
    (step : ∀ before, (∀ x ∈ before, good x) →
      Makes (Parser.Round.All (fun found => ∀ x ∈ found, good x) done) (round before))
    (next : ∀ found, done found → Makes rest (f found)) :
    Makes rest (Parser.loop round before >>= f) := (loop _ step start).bind next

theorem listed {close : Mark} {item : Parser α} (makes : Makes good item) :
    Makes (fun found => ∀ x ∈ found, good x) (Parser.listed close item) := by
  have nothing : ∀ x ∈ ([] : List α), good x := fun _ bad => nomatch bad
  refine loop (fun before => ∀ x ∈ before, good x) (fun before all => ?_) nothing
  refine skips (eaten (result (forall_mem_reverse all)) (makes.bind fun x here => ?_))
  have more := List.forall_mem_cons.mpr ⟨here, all⟩
  exact skips (eaten (result more) (skips (expects fun _ => result (forall_mem_reverse more))))

theorem belated {kind : TokenKind} {f : Token → Parser α} {other : Parser α}
    (yes : ∀ token, Makes good (f token)) (no : Makes good other) :
    Makes good (Parser.pastNewlines >>= fun token =>
      if token.kind = kind then Parser.skipNewlines >>= fun _ => Parser.advance >>= f
      else other) := by
  refine pastNewlines fun token => ?_
  split
  · exact skips (advances yes)
  · exact no

end Makes

end Rules

end Rill

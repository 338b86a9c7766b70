import Mathlib
import Rill.Proofs.Enduring.Statement

/-!
# Precedence

Operands and binary operators between them can be grouped in many ways. In one grouping alone every
left part binds at least as tightly as the operator after it and every right part more tightly than
the operator before it, and this is the grouping that the climb over the operators builds.
-/

set_option autoImplicit false

namespace Rill

/-! ## Groupings -/

/-- A way to group operands that binary operators join. -/
inductive Grouping where
  | operand (expr : Expr)
  | node (op : BinaryOp) (left right : Grouping)

namespace Grouping

def expr : Grouping → Expr
  | operand expr => expr
  | node op left right => .binary left.expr.pos op left.expr right.expr

def root? : Grouping → Option BinaryOp
  | operand _ => none
  | node op _ _ => some op

def first : Grouping → Expr
  | operand expr => expr
  | node _ left _ => left.first

/-- The operators from left to right, each with the operand behind it. -/
def terms : Grouping → List (BinaryOp × Expr)
  | operand _ => []
  | node op left right => left.terms ++ (op, right.first) :: right.terms

/-- At each node the left part binds at least as tightly as the operator and the right part more
tightly. -/
def Tight : Grouping → Prop
  | operand _ => True
  | node op left right => left.Tight ∧ right.Tight
      ∧ (∀ inner ∈ left.root?, op.power ≤ inner.power)
      ∧ ∀ inner ∈ right.root?, op.power < inner.power

variable {grouping other : Grouping}

theorem Tight.le_power (tight : grouping.Tight) {bound : Nat}
    (root : ∀ op ∈ grouping.root?, bound ≤ op.power) :
    ∀ term ∈ grouping.terms, bound ≤ term.1.power := by
  induction grouping with
  | operand expr => exact fun _ member => nomatch member
  | node op left right ihLeft ihRight =>
      obtain ⟨tightLeft, tightRight, leftRoot, rightRoot⟩ := tight
      have here : bound ≤ op.power := root op rfl
      intro term member
      rcases List.mem_append.mp member with member | member
      · exact ihLeft tightLeft (fun inner same => Nat.le_trans here (leftRoot inner same)) term member
      rcases List.mem_cons.mp member with rfl | member
      · exact here
      · exact ihRight tightRight
          (fun inner same => Nat.le_trans here (Nat.le_of_lt (rightRoot inner same))) term member

/-- The root of a tight grouping stands no further right than that of another one: it would bind
at least as tightly as the other root, being on its left, and less tightly, not being on its right. -/
theorem Tight.no_later {op op' : BinaryOp} {left right left' right' : Grouping}
    (tight : (node op left right).Tight) (tight' : (node op' left' right').Tight)
    {between : List (BinaryOp × Expr)}
    (before : left'.terms = left.terms ++ (op, right.first) :: between)
    (behind : right.terms = between ++ (op', right'.first) :: right'.terms) : False := by
  obtain ⟨-, tightRight, -, rightRoot⟩ := tight
  obtain ⟨tightLeft', -, leftRoot', -⟩ := tight'
  have weak : op'.power ≤ op.power := tightLeft'.le_power leftRoot' (op, right.first)
    (before ▸ List.mem_append_right _ List.mem_cons_self)
  have strong : op.power < op'.power := tightRight.le_power rightRoot (op', right'.first)
    (behind ▸ List.mem_append_right _ List.mem_cons_self)
  omega

theorem Tight.unique (tight : grouping.Tight) (tight' : other.Tight)
    (first : grouping.first = other.first) (terms : grouping.terms = other.terms) :
    grouping = other := by
  induction grouping generalizing other with
  | operand expr =>
      cases other with
      | operand expr' => exact congrArg operand first
      | node op left right => exact absurd terms.symm (List.append_ne_nil_of_right_ne_nil _ nofun)
  | node op left right ihLeft ihRight =>
      cases other with
      | operand expr => exact absurd terms (List.append_ne_nil_of_right_ne_nil _ nofun)
      | node op' left' right' =>
          have roots : left.terms = left'.terms
              ∧ (op, right.first) :: right.terms = (op', right'.first) :: right'.terms := by
            rcases List.append_eq_append_iff.mp terms with ⟨between, before, behind⟩ |
              ⟨between, before, behind⟩
            · cases between with
              | nil => exact ⟨(List.append_nil left.terms) ▸ before.symm, behind⟩
              | cons term between =>
                  obtain ⟨rfl, later⟩ := List.cons.inj behind
                  exact (tight.no_later tight' before later).elim
            · cases between with
              | nil => exact ⟨(List.append_nil left'.terms) ▸ before, behind.symm⟩
              | cons term between =>
                  obtain ⟨rfl, later⟩ := List.cons.inj behind
                  exact (tight'.no_later tight before later).elim
          obtain ⟨termsLeft, same⟩ := roots
          obtain ⟨same, termsRight⟩ := List.cons.inj same
          obtain ⟨rfl, firstRight⟩ := Prod.mk.inj same
          rw [ihLeft tight.1 tight'.1 first termsLeft,
            ihRight tight.2.1 tight'.2.1 firstRight termsRight]

end Grouping

/-! ## Operands -/

/-- A kind by which an operand starts that ends at a token of its own. -/
def TokenKind.enclosed : TokenKind → Bool
  | number | text | template _ | keyword .true_ | keyword .false_ | keyword .nil_ | keyword .func_
  | keyword .match_ | mark .openBracket | mark .openBrace => true
  | _ => false

def Joined (rest : List Token) : Prop :=
  ∀ token ∈ rest.head?, ∃ op, BinaryOp.ofKind? token.kind = some op

theorem Joined.current {stream : Stream} {rest : List Token} (joined : Joined rest)
    (shows_ : stream.Shows rest) :
    stream.current.kind = .endOfInput ∨ ∃ op, BinaryOp.ofKind? stream.current.kind = some op := by
  cases rest with
  | nil =>
      rw [Stream.current, shows_.ahead]
      exact .inl shows_.kind
  | cons token rest =>
      rw [Stream.current_of_front shows_.ahead]
      exact .inr (joined token rfl)

namespace Grammar

open Rill.Stream (Longer Aside Leaves Shows)

/-- Tokens that make up an operand, and the expression they stand for: a name, a literal, a group
that is no list of parameters, or one of these behind operators of its own. -/
inductive Operand (depth : Nat) : List Token → Expr → Prop
  | name {token : Token} (kind : token.kind = .ident) :
      Operand depth [token] (.ident token.pos token.text)
  | literal {first : Token} {rest : List Token} {expr : Expr} (kind : first.kind.enclosed)
      (reads : Reads (primary (reach depth)) (first :: rest) expr []) :
      Operand depth (first :: rest) expr
  | group {first : Token} {rest : List Token} {expr : Expr} (kind : first.kind = .mark .openParen)
      (group_ : arrowAfterClose 0 (first :: rest) = false)
      (reads : Reads (primary (reach depth)) (first :: rest) expr []) :
      Operand depth (first :: rest) expr
  | prefixed {sign : Token} {op : UnaryOp} {tokens : List Token} {expr : Expr}
      (kind : UnaryOp.ofKind? sign.kind = some op) (operand : Operand depth tokens expr) :
      Operand depth (sign :: tokens) (.unary sign.pos op expr)

variable {depth depth' : Nat} {stream : Stream} {tokens rest : List Token} {first : Token}
  {expr : Expr}

theorem loop_link_of_joined (reach : Reach) (object : Expr) (joined : Joined rest)
    (shows_ : stream.Shows rest) : Parser.loop (link reach) object stream = .ok (object, stream) := by
  have last : link reach object stream = .ok (.done object, stream) := by
    refine Parser.bind_eq_ok.mpr ⟨_, _, rfl, ?_⟩
    rcases joined.current shows_ with kind | ⟨op, found⟩
    · simp only [kind]
      rfl
    · cases kind : stream.current.kind with
      | mark m =>
          rw [kind] at found
          cases m <;> first | rfl | exact nomatch found
      | _ =>
          rw [kind] at found
          exact nomatch found
  exact Parser.bind_eq_ok.mpr ⟨_, _, last, rfl⟩

/-- Before anything but an operator of its own, an operand is a chain. -/
theorem operand_eq_chain (reach : Reach) (spread : stream.current.kind ≠ .mark .ellipsis)
    (unary : UnaryOp.ofKind? stream.current.kind = none) :
    operand reach stream = chain reach stream := by
  show (if stream.current.kind = .mark .ellipsis then _ else _ : Parser Expr) stream = _
  rw [if_neg spread, unary]

theorem chain_of_joined {reach : Reach} {after : Stream} (joined : Joined rest)
    (run : primary reach stream = .ok (expr, after)) (shows_ : after.Shows rest) :
    chain reach stream = .ok (expr, after) :=
  Parser.bind_eq_ok.mpr ⟨expr, after, run, loop_link_of_joined reach expr joined shows_⟩

/-- An enclosed operand is read the same whatever comes after it. -/
theorem primary_firm {reach : Reach} (enduring : Enduring reach) {near : Stream}
    (front : near.ahead = first :: rest) (enclosed : first.kind.enclosed) :
    EnduresFrom near (fun _ => False) (primary reach) := by
  refine .current front ?_
  obtain ⟨kind, text, pos⟩ := first
  cases kind with
  | text => exact .advance front .result
  | number => exact .advance front (.then (numberValue_firm _) fun _ => .result)
  | template pieces =>
      exact .advance front (.then (templateParts_firm reach pieces) fun _ => .result)
  | keyword word =>
      cases word with
      | true_ | false_ | nil_ => exact .advance front .result
      | func_ => exact .advance front (functionLiteral_firm enduring pos)
      | match_ => exact .advance front (matching_firm enduring pos)
      | _ => exact nomatch enclosed
  | mark m =>
      cases m with
      | openBracket => exact .advance front (array_firm enduring pos)
      | openBrace => exact .advance front (record_firm enduring pos)
      | _ => exact nomatch enclosed
  | _ => exact nomatch enclosed

theorem primary_of_group {reach : Reach} (kind : stream.current.kind = .mark .openParen)
    (noArrow : arrowAfterClose 0 stream.ahead = false) :
    primary reach stream = (Parser.advance >>= fun _ => group reach) stream := by
  have choice : primary reach stream = parenthesised reach stream.current.pos stream := by
    simp only [primary, bind, StateT.bind, Parser.current, Except.bind, kind]
  rw [choice, parenthesised_eq]
  show (if arrowAfterClose 0 stream.ahead = true then _ else _ : Parser Expr) stream = _
  rw [noArrow, if_neg Bool.false_ne_true]

theorem aside_of_joined {sign : Token} {more : List Token} (joined : Joined (sign :: more)) :
    Aside (sign :: more) := by
  refine ⟨sign, more, rfl, ?_⟩
  obtain ⟨op, found⟩ := joined sign rfl
  cases kind : sign.kind with
  | mark m =>
      rw [kind] at found
      cases m <;> first | rfl | exact nomatch found
  | _ =>
      rw [kind] at found
      exact nomatch found

theorem primary_before (start : first.kind.enclosed
      ∨ first.kind = .mark .openParen ∧ arrowAfterClose 0 (first :: tokens) = false)
    (reads : Reads (primary (reach depth)) (first :: tokens) expr []) (joined : Joined rest)
    (shows_ : stream.Shows (first :: tokens ++ rest)) :
    ∃ after, primary (reach depth) stream = .ok (expr, after) ∧ after.Shows rest := by
  have enduring := reach_enduring depth
  cases rest with
  | nil =>
      rw [List.append_nil] at shows_
      exact reads_in (primary_follows enduring.toFollower) reads shows_
  | cons sign more =>
      obtain ⟨pos, after, run, left⟩ := reads
      have near := shows_.ofList pos
      have longer := shows_.longer ⟨.endOfInput, "", pos⟩
      have aside := aside_of_joined joined
      have ends {after' : Stream} (leaves : Leaves stream after')
          (longer' : Longer (sign :: more) after after') : after'.Shows (sign :: more) :=
        ⟨leaves.sound shows_.toSound, by rw [longer'.ahead, left, List.nil_append]⟩
      have primaries := (primary_loose enduring stream shows_.toSound)
      rcases start with enclosed | ⟨kind, noArrow⟩
      · obtain ⟨-, endures⟩ := primary_firm enduring rfl enclosed near run
        obtain ⟨bad, -⟩ | ⟨after', run', longer'⟩ := endures aside longer
        · exact bad.elim
        · exact ⟨after', run', ends (primaries run').1 longer'⟩
      · have opens : (Stream.ofList (first :: tokens) ⟨.endOfInput, "", pos⟩).current.kind
            = .mark .openParen := kind
        rw [primary_of_group opens noArrow] at run
        have step : EnduresFrom (Stream.ofList (first :: tokens) ⟨.endOfInput, "", pos⟩)
            (fun _ => False) (Parser.advance >>= fun _ => group (reach depth)) :=
          .advance rfl (group_firm enduring)
        obtain ⟨-, endures⟩ := step near run
        obtain ⟨bad, -⟩ | ⟨after', run', longer'⟩ := endures aside longer
        · exact bad.elim
        have noArrow' : arrowAfterClose 0 stream.ahead = false := by
          rw [shows_.ahead, Bool.eq_false_iff]
          intro arrow
          obtain ⟨-, -, head⟩ := arrow_of_group enduring.toFollower near rfl kind noArrow run arrow
          obtain ⟨op, found⟩ := joined sign rfl
          rw [List.head?_cons, Option.map_some, Option.some.injEq] at head
          rw [head] at found
          exact nomatch found
        have here : stream.current.kind = .mark .openParen := by
          rw [Stream.current_of_front shows_.ahead, kind]
        rw [← primary_of_group here noArrow'] at run'
        exact ⟨after', run', ends (primaries run').1 longer'⟩

theorem primary_deeper (reads : Reads (primary (reach depth)) tokens expr [])
    (genuine : ∀ token ∈ tokens, token.Genuine) (le : depth ≤ depth') :
    Reads (primary (reach depth')) tokens expr [] := by
  have stream : (Stream.ofList tokens ⟨.endOfInput, "", .start⟩).Shows tokens :=
    ⟨⟨genuine, rfl, rfl⟩, rfl⟩
  obtain ⟨after, run, ends⟩ := reads_in (primary_follows (reach_follows 0 le)) reads stream
  exact ⟨.start, after, run, ends.ahead⟩

theorem Operand.length_pos (operand_ : Operand depth tokens expr) : 0 < tokens.length := by
  cases operand_ <;> exact Nat.succ_pos _

theorem primary_of_name (reach : Reach) {token : Token} (kind : token.kind = .ident)
    (joined : Joined rest) (shows_ : stream.Shows (token :: rest)) :
    primary reach stream = .ok (.ident token.pos token.text, stream.tail) := by
  have here := Stream.current_of_front shows_.ahead
  have choice : primary reach stream = named reach token stream := by
    simp only [primary, bind, StateT.bind, Parser.current, Except.bind, here, kind]
  have noArrow : ¬ stream.tail.current.kind = .mark .fatArrow := by
    intro arrow
    rcases joined.current shows_.tail with ends | ⟨op, found⟩
    · rw [arrow] at ends
      exact nomatch ends
    · rw [arrow] at found
      exact nomatch found
  rw [choice]
  refine Parser.bind_eq_ok.mpr ⟨_, stream.tail, rfl, ?_⟩
  rw [Parser.eat_bind]
  refine Parser.bind_eq_ok.mpr ⟨_, stream.tail, rfl, ?_⟩
  rw [if_neg noArrow]
  rfl

theorem operand_before (start : first.kind.enclosed
      ∨ first.kind = .mark .openParen ∧ arrowAfterClose 0 (first :: tokens) = false)
    (reads : Reads (primary (reach depth)) (first :: tokens) expr []) (joined : Joined rest)
    (le : depth ≤ depth') (shows_ : stream.Shows (first :: tokens ++ rest)) :
    ∃ after, operand (reach depth') stream = .ok (expr, after) ∧ after.Shows rest := by
  have here := Stream.current_of_front shows_.ahead
  have genuine (token : Token) (member : token ∈ first :: tokens) : token.Genuine :=
    shows_.genuine token (shows_.ahead ▸ List.mem_append_left _ member)
  obtain ⟨after, run, left⟩ :=
    primary_before start (primary_deeper reads genuine le) joined shows_
  refine ⟨after, ?_, left⟩
  rw [operand_eq_chain, chain_of_joined joined run left]
  · rw [here]
    rintro bad
    rcases start with start | ⟨start, -⟩ <;> (rw [bad] at start; exact nomatch start)
  · rw [here]
    rcases start with start | ⟨start, -⟩
    · cases kind : first.kind with
      | mark m =>
          rw [kind] at start
          cases m <;> first | rfl | exact nomatch start
      | _ => rfl
    · rw [start]
      rfl

theorem Operand.reads (operand_ : Operand depth tokens expr) (joined : Joined rest)
    (enough : depth + tokens.length ≤ depth' + 1) (shows_ : stream.Shows (tokens ++ rest)) :
    ∃ after, operand (reach depth') stream = .ok (expr, after) ∧ after.Shows rest := by
  induction operand_ generalizing stream depth' with
  | @name token kind =>
      have here := Stream.current_of_front shows_.ahead
      refine ⟨stream.tail, ?_, shows_.tail⟩
      rw [operand_eq_chain, chain_of_joined joined (primary_of_name _ kind joined shows_) shows_.tail]
      · rw [here, kind]
        exact nofun
      · rw [here, kind]
        rfl
  | literal kind reads =>
      rw [List.length_cons] at enough
      exact operand_before (.inl kind) reads joined (by omega) shows_
  | group kind noArrow reads =>
      rw [List.length_cons] at enough
      exact operand_before (.inr ⟨kind, noArrow⟩) reads joined (by omega) shows_
  | @prefixed sign op tokens expr kind inner ih =>
      have here := Stream.current_of_front shows_.ahead
      have positive := inner.length_pos
      rw [List.length_cons] at enough
      obtain ⟨depth', rfl⟩ : ∃ n, depth' = n + 1 := ⟨depth' - 1, by omega⟩
      have shorter : depth + tokens.length ≤ depth' + 1 := by omega
      obtain ⟨after, run, left⟩ := ih shorter shows_.tail
      refine ⟨after, Parser.bind_eq_ok.mpr ⟨stream.current, stream, rfl, ?_⟩, left⟩
      have spread : sign.kind ≠ .mark .ellipsis := by
        intro bad
        rw [bad] at kind
        exact nomatch kind
      rw [here, if_neg spread, kind]
      exact Parser.bind_eq_ok.mpr ⟨_, stream.tail, rfl, Parser.bind_eq_ok.mpr ⟨expr, after, run, rfl⟩⟩

/-! ## Terms -/

/-- A binary operator, the line feeds after it and the operand behind it. -/
structure Term where
  sign : Token
  op : BinaryOp
  feeds : List Token
  tokens : List Token
  operand : Expr

namespace Term

def written (term : Term) : List Token := term.sign :: (term.feeds ++ term.tokens)

def pair (term : Term) : BinaryOp × Expr := (term.op, term.operand)

structure Fits (depth : Nat) (term : Term) : Prop where
  sign : BinaryOp.ofKind? term.sign.kind = some term.op
  feeds : ∀ token ∈ term.feeds, token.kind = .newline
  operand : Operand depth term.tokens term.operand

end Term

theorem joined_written {terms : List Term} (fits : ∀ term ∈ terms, term.Fits depth) :
    Joined (terms.flatMap Term.written) := by
  intro token first
  cases terms with
  | nil => exact nomatch first
  | cons term rest =>
      cases first
      exact ⟨term.op, (fits term List.mem_cons_self).sign⟩

/-- From one grouping to another that has taken in all terms up to the first whose operator does not
bind more tightly than `power`. -/
structure Climbed (power : Nat) (start : Grouping) (terms : List Term) (grouping : Grouping)
    (left : List Term) : Prop where
  tight : grouping.Tight
  first : grouping.first = start.first
  taken : ∃ taken, terms = taken ++ left ∧ grouping.terms = start.terms ++ taken.map Term.pair
  root : ∀ op ∈ grouping.root?, power < op.power
  stops : ∀ term ∈ left.head?, term.op.power ≤ power

theorem Climbed.refl {power : Nat} {start : Grouping} {terms : List Term} (tight : start.Tight)
    (root : ∀ op ∈ start.root?, power < op.power)
    (stops : ∀ term ∈ terms.head?, term.op.power ≤ power) :
    Climbed power start terms start terms :=
  ⟨tight, rfl, ⟨[], rfl, (List.append_nil _).symm⟩, root, stops⟩

theorem Climbed.step {power : Nat} {start right grouping : Grouping} {term : Term}
    {rest left left' : List Term}
    (operand : Climbed term.op.power (.operand term.operand) rest right left)
    (later : Climbed power (.node term.op start right) left grouping left') :
    Climbed power start (term :: rest) grouping left' := by
  obtain ⟨taken, split, terms⟩ := operand.taken
  obtain ⟨taken', split', terms'⟩ := later.taken
  refine ⟨later.tight, later.first, ⟨term :: (taken ++ taken'), ?_, ?_⟩, later.root, later.stops⟩
  · rw [split, split', List.cons_append, List.append_assoc]
  · have first : right.first = term.operand := operand.first
    rw [terms', Grouping.terms, terms, first]
    simp [Grouping.terms, Term.pair]

namespace Climbed

variable {power : Nat} {start grouping : Grouping} {terms left : List Term}

theorem subset (climbed : Climbed power start terms grouping left) : left ⊆ terms := by
  obtain ⟨taken, split, -⟩ := climbed.taken
  exact split ▸ List.subset_append_right taken left

theorem length_le (climbed : Climbed power start terms grouping left) :
    left.length ≤ terms.length := by
  obtain ⟨taken, split, -⟩ := climbed.taken
  rw [split, List.length_append]
  exact Nat.le_add_left _ _

theorem written_le (climbed : Climbed power start terms grouping left) :
    (left.flatMap Term.written).length ≤ (terms.flatMap Term.written).length := by
  obtain ⟨taken, split, -⟩ := climbed.taken
  rw [split, List.flatMap_append, List.length_append]
  exact Nat.le_add_left _ _

end Climbed

theorem climb_done (reach : Reach) {power : Nat} (left : Expr) {terms : List Term}
    (fits : ∀ term ∈ terms, term.Fits depth) (shows_ : stream.Shows (terms.flatMap Term.written))
    (weak : ∀ term ∈ terms.head?, term.op.power ≤ power) :
    climb reach power left stream = .ok (.done left, stream) := by
  refine Parser.bind_eq_ok.mpr ⟨stream.current, stream, rfl, ?_⟩
  cases terms with
  | nil =>
      have ends : stream.current.kind = .endOfInput := by
        rw [Stream.current, shows_.ahead]
        exact shows_.kind
      simp only [ends, BinaryOp.ofKind?]
      rfl
  | cons term rest =>
      have here : stream.current = term.sign := Stream.current_of_front shows_.ahead
      simp only [here, (fits term List.mem_cons_self).sign, if_pos (weak term rfl)]
      rfl

theorem climb_again {reach : Reach} {power : Nat} (left : Expr) {term : Term} (fits : term.Fits depth)
    (shows_ : stream.Shows (term.written ++ rest)) (strong : power < term.op.power) {right : Expr}
    {after : Stream}
    (run : reach (.operation term.op.power) (stream.tail.dropWhile (·.kind = .newline))
      = .ok (right, after)) :
    climb reach power left stream = .ok (.again (.binary left.pos term.op left right), after) := by
  have here : stream.current = term.sign := Stream.current_of_front shows_.ahead
  refine Parser.bind_eq_ok.mpr ⟨stream.current, stream, rfl, ?_⟩
  simp only [here, fits.sign, if_neg (Nat.not_le.mpr strong)]
  refine Parser.bind_eq_ok.mpr ⟨stream.current, stream.tail, rfl, ?_⟩
  refine Parser.bind_eq_ok.mpr ⟨(), stream.tail.dropWhile (·.kind = .newline), rfl, ?_⟩
  exact Parser.bind_eq_ok.mpr ⟨right, after, run, rfl⟩

theorem Operand.head_ne (operand_ : Operand depth tokens expr) :
    ∀ token ∈ (tokens ++ rest).head?, token.kind ≠ .newline := by
  rintro token first feed
  cases operand_ with
  | name kind | literal kind _ | group kind _ _ | prefixed kind _ =>
      cases first
      rw [feed] at kind
      exact nomatch kind

/-- The rounds of a climb take in terms as long as their operators bind more tightly. -/
theorem climb_rounds (count : Nat) {power bound : Nat} {start : Grouping} {terms : List Term}
    (few : terms.length < count) (fits : ∀ term ∈ terms, term.Fits depth)
    (enough : depth + (terms.flatMap Term.written).length ≤ depth')
    (shows_ : stream.Shows (terms.flatMap Term.written)) (bounded : stream.ahead.length < bound)
    (tight : start.Tight) (above : ∀ op ∈ start.root?, power < op.power)
    (root : ∀ op ∈ start.root?, ∀ term ∈ terms.head?, term.op.power ≤ op.power) :
    ∃ grouping left after, Climbed power start terms grouping left
      ∧ Parser.iterate (climb (reach depth') power) bound start.expr stream
        = .ok (grouping.expr, after)
      ∧ after.Shows (left.flatMap Term.written) := by
  induction count generalizing power bound start terms stream depth' with
  | zero => exact nomatch few
  | succ count ih =>
      obtain ⟨bound, rfl⟩ : ∃ n, bound = n + 1 := ⟨bound - 1, by omega⟩
      by_cases weak : ∀ term ∈ terms.head?, term.op.power ≤ power
      · refine ⟨start, terms, stream, .refl tight above weak, ?_, shows_⟩
        exact Parser.bind_eq_ok.mpr ⟨_, stream, climb_done _ _ fits shows_ weak, rfl⟩
      cases terms with
      | nil => exact (weak fun _ bad => nomatch bad).elim
      | cons term rest =>
          have strong : power < term.op.power := by
            refine Nat.not_le.mp fun le => weak ?_
            rintro _ ⟨⟩
            exact le
          have fits₁ := fits term List.mem_cons_self
          have fits₂ (next : Term) (member : next ∈ rest) := fits next (List.mem_cons_of_mem _ member)
          have shows_ : stream.Shows (term.written ++ rest.flatMap Term.written) := shows_
          have length : stream.ahead.length = 1 + (term.feeds.length + (term.tokens.length
              + (rest.flatMap Term.written).length)) := by
            rw [shows_.ahead]
            simp [Term.written]
            omega
          have deep : depth + stream.ahead.length ≤ depth' := shows_.ahead ▸ enough
          obtain ⟨depth', rfl⟩ : ∃ n, depth' = n + 1 := ⟨depth' - 1, by omega⟩
          -- the right operand is read by a climb of its own, one level further down
          have shows₁ : stream.tail.Shows
              (term.feeds ++ (term.tokens ++ rest.flatMap Term.written)) := by
            rw [← List.append_assoc]
            exact shows_.tail
          have shows₂ := shows₁.pastFeeds fits₁.feeds fits₁.operand.head_ne
          have shallow : depth + term.tokens.length ≤ depth' + 1 := by omega
          obtain ⟨stream₃, run₃, shows₃⟩ :=
            fits₁.operand.reads (joined_written fits₂) shallow shows₂
          have few₁ : rest.length < count := Nat.lt_of_succ_lt_succ few
          have enough₁ : depth + (rest.flatMap Term.written).length ≤ depth' := by omega
          have tight₁ : (Grouping.operand term.operand).Tight := trivial
          have above₁ : ∀ op ∈ (Grouping.operand term.operand).root?, term.op.power < op.power := nofun
          obtain ⟨right, left₁, stream₄, climbed₁, run₄, shows₄⟩ := ih few₁ fits₂ enough₁ shows₃
            (Nat.lt_succ_of_le stream₃.length_le) tight₁ above₁ nofun
          have operand_ : reach (depth' + 1) (.operation term.op.power)
              (stream.tail.dropWhile (·.kind = .newline)) = .ok (right.expr, stream₄) :=
            Parser.bind_eq_ok.mpr ⟨_, stream₃, run₃, run₄⟩
          -- with it the grouping so far becomes a node, and the climb goes on from there
          have round := climb_again start.expr fits₁ shows_ strong operand_
          have tight₂ : (Grouping.node term.op start right).Tight :=
            ⟨tight, climbed₁.tight, fun inner same => root inner same term rfl, climbed₁.root⟩
          have above₂ : ∀ op ∈ (Grouping.node term.op start right).root?, power < op.power := by
            rintro _ ⟨⟩
            exact strong
          have root₂ : ∀ op ∈ (Grouping.node term.op start right).root?, ∀ next ∈ left₁.head?,
              next.op.power ≤ op.power := by
            rintro _ ⟨⟩
            exact climbed₁.stops
          have shorter := climbed₁.written_le
          have bounded₂ : stream₄.ahead.length < bound := by
            rw [shows₄.ahead]
            omega
          have fits₃ (next : Term) (member : next ∈ left₁) : next.Fits depth :=
            fits₂ next (climbed₁.subset member)
          have few₂ : left₁.length < count := Nat.lt_of_le_of_lt climbed₁.length_le few₁
          have enough₂ : depth + (left₁.flatMap Term.written).length ≤ depth' + 1 := by omega
          obtain ⟨grouping, left, after, climbed₂, run₂, shows₅⟩ :=
            ih few₂ fits₃ enough₂ shows₄ bounded₂ tight₂ above₂ root₂
          exact ⟨grouping, left, after, climbed₁.step climbed₂,
            Parser.bind_eq_ok.mpr ⟨_, stream₄, round, run₂⟩, shows₅⟩

/-- Operands that binary operators join are read as a whole, and come out in the only tight grouping
of them. -/
theorem operation_tight {terms : List Term} (operand_ : Operand depth tokens expr)
    (fits : ∀ term ∈ terms, term.Fits depth)
    (enough : depth + (tokens ++ terms.flatMap Term.written).length ≤ depth')
    (shows_ : stream.Shows (tokens ++ terms.flatMap Term.written)) :
    ∃ grouping : Grouping, grouping.Tight ∧ grouping.first = expr
      ∧ grouping.terms = terms.map Term.pair
      ∧ (∀ other : Grouping, other.Tight → other.first = expr → other.terms = terms.map Term.pair →
        other = grouping)
      ∧ ∃ after, operation (reach depth') 0 stream = .ok (grouping.expr, after)
        ∧ after.ahead = [] := by
  rw [List.length_append] at enough
  obtain ⟨stream₁, run₁, shows₁⟩ :=
    operand_.reads (joined_written fits) (by omega : depth + tokens.length ≤ depth' + 1) shows_
  have tight : (Grouping.operand expr).Tight := trivial
  have above : ∀ op ∈ (Grouping.operand expr).root?, 0 < op.power := nofun
  obtain ⟨grouping, left, after, climbed, run, shows₂⟩ :=
    climb_rounds (terms.length + 1) (Nat.lt_succ_self _) fits (by omega : depth + _ ≤ depth') shows₁
      (Nat.lt_succ_of_le stream₁.length_le) tight above nofun
  obtain ⟨taken, split, same⟩ := climbed.taken
  have exhausted : left = [] := by
    cases left with
    | nil => rfl
    | cons term rest => exact absurd (climbed.stops term rfl) (by cases term.op <;> decide)
  subst exhausted
  rw [List.append_nil] at split
  subst split
  refine ⟨grouping, climbed.tight, climbed.first, same, fun other tight' first terms => ?_, after, ?_,
    shows₂.ahead⟩
  · exact tight'.unique climbed.tight (first.trans climbed.first.symm) (terms.trans same.symm)
  · exact Parser.bind_eq_ok.mpr ⟨expr, stream₁, run₁, run⟩

theorem operation_tight_group :
    ∃ after, operation (reach 10) 0 (Stream.ofTokens [⟨.ident, "a", ⟨1, 1⟩⟩, ⟨.mark .minus, "-", ⟨1, 3⟩⟩,
      ⟨.mark .minus, "-", ⟨1, 5⟩⟩, ⟨.ident, "b", ⟨1, 6⟩⟩, ⟨.mark .star, "*", ⟨1, 8⟩⟩,
      ⟨.newline, "\n", ⟨1, 9⟩⟩, ⟨.mark .openParen, "(", ⟨2, 1⟩⟩, ⟨.ident, "c", ⟨2, 2⟩⟩,
      ⟨.mark .closeParen, ")", ⟨2, 3⟩⟩, ⟨.endOfInput, "", ⟨2, 4⟩⟩])
      = .ok (.binary ⟨1, 1⟩ .sub (.ident ⟨1, 1⟩ "a")
          (.binary ⟨1, 5⟩ .mul (.unary ⟨1, 5⟩ .neg (.ident ⟨1, 6⟩ "b")) (.ident ⟨2, 2⟩ "c")), after)
      ∧ after.ahead = [] := by
  generalize here : Stream.ofTokens _ = stream
  have lexed : tokenize "a - -b *\n(c)" = .ok [⟨.ident, "a", ⟨1, 1⟩⟩, ⟨.mark .minus, "-", ⟨1, 3⟩⟩,
      ⟨.mark .minus, "-", ⟨1, 5⟩⟩, ⟨.ident, "b", ⟨1, 6⟩⟩, ⟨.mark .star, "*", ⟨1, 8⟩⟩,
      ⟨.newline, "\n", ⟨1, 9⟩⟩, ⟨.mark .openParen, "(", ⟨2, 1⟩⟩, ⟨.ident, "c", ⟨2, 2⟩⟩,
      ⟨.mark .closeParen, ")", ⟨2, 3⟩⟩, ⟨.endOfInput, "", ⟨2, 4⟩⟩] := by cbv
  obtain ⟨front, finish, same, genuine⟩ :=
    (Scans.tokenizeAt_eq_ok.mp lexed).genuine (Position.clamp_placed _)
  have dropped := congrArg List.dropLast same
  rw [List.dropLast_concat] at dropped
  subst dropped
  let terms : List Term := [⟨⟨.mark .minus, "-", ⟨1, 3⟩⟩, .sub, [],
      [⟨.mark .minus, "-", ⟨1, 5⟩⟩, ⟨.ident, "b", ⟨1, 6⟩⟩], .unary ⟨1, 5⟩ .neg (.ident ⟨1, 6⟩ "b")⟩,
    ⟨⟨.mark .star, "*", ⟨1, 8⟩⟩, .mul, [⟨.newline, "\n", ⟨1, 9⟩⟩],
      [⟨.mark .openParen, "(", ⟨2, 1⟩⟩, ⟨.ident, "c", ⟨2, 2⟩⟩, ⟨.mark .closeParen, ")", ⟨2, 3⟩⟩],
      .ident ⟨2, 2⟩ "c"⟩]
  have first : Operand 1 [⟨.ident, "a", ⟨1, 1⟩⟩] (.ident ⟨1, 1⟩ "a") := .name rfl
  have fits : ∀ term ∈ terms, term.Fits 1 := by
    intro term member
    rcases List.mem_cons.mp member with rfl | member
    · exact ⟨rfl, List.forall_mem_nil _, .prefixed rfl (.name rfl)⟩
    · obtain rfl := List.mem_singleton.mp member
      exact ⟨rfl, by simp, .group rfl rfl ⟨.start, _, rfl, rfl⟩⟩
  have shows_ : stream.Shows ([⟨.ident, "a", ⟨1, 1⟩⟩] ++ terms.flatMap Term.written) :=
    here ▸ ⟨⟨genuine, rfl, rfl⟩, rfl⟩
  obtain ⟨grouping, -, -, -, unique, after, run, ends⟩ :=
    operation_tight first fits (Nat.le_refl 10) shows_
  refine ⟨after, ?_, ends⟩
  rw [run, ← unique (.node .sub (.operand (.ident ⟨1, 1⟩ "a")) (.node .mul
    (.operand (.unary ⟨1, 5⟩ .neg (.ident ⟨1, 6⟩ "b"))) (.operand (.ident ⟨2, 2⟩ "c"))))
    (by simp [Grouping.Tight, Grouping.root?, BinaryOp.power]) rfl rfl]
  rfl

end Grammar

end Rill

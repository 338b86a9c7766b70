import Rill.Proofs.Enduring.Statement

/-!
# Expressions before other tokens

An expression is read before a token that does not go on with it as it is read on its own. An arrow
goes on with an expression whose last operand is a name or a group: right behind one it makes it the
parameters of a function.
-/

set_option autoImplicit false

namespace Rill

namespace TokenKind

def awaits : TokenKind → Bool
  | newline => true
  | mark .dot | mark .questionDot | mark .closeParen | mark .closeBracket | mark .closeBrace => false
  | mark _ => true
  | _ => false

/-- A kind that no expression goes on with, unless it is an arrow. A line feed may have a dot behind
it that does. -/
def afterExpression : TokenKind → Bool
  | newline | keyword .in_ | mark .question | mark .questionDot | mark .dot | mark .openParen
  | mark .openBracket => false
  | kind => (BinaryOp.ofKind? kind).isNone

theorem aside_of_afterExpression {kind : TokenKind} (stops : kind.afterExpression = true) :
    kind.aside = true := by
  cases kind with
  | keyword word => cases word <;> first | rfl | exact nomatch stops
  | mark m => cases m <;> first | rfl | exact nomatch stops
  | _ => rfl

end TokenKind

namespace Grammar

open Rill.Stream (Longer Aside Leaves)

/-- Whether the tokens end with an operand that is a name alone or a group. At their start an operand
may stand or not. -/
def exposed (start : Bool) : List Token → Bool
  | [] => false
  | token :: rest =>
      start && (token.kind = .ident && rest.isEmpty
          || token.kind = .mark .openParen && closesAtEnd 1 rest)
        || exposed token.kind.awaits rest

theorem exposed_tail {start : Bool} {token : Token} {rest : List Token}
    (hidden : exposed start (token :: rest) = false) : exposed token.kind.awaits rest = false :=
  (Bool.or_eq_false_iff.mp hidden).2

theorem exposed_false {start : Bool} {tokens : List Token} (hidden : exposed start tokens = false) :
    exposed false tokens = false := by
  cases tokens with
  | nil => rfl
  | cons token rest => rw [exposed, Bool.false_and, Bool.false_or, exposed_tail hidden]

theorem exposed_suffix {start : Bool} {tokens left : List Token} (suffix : left <:+ tokens)
    (hidden : exposed start tokens = false) : exposed false left = false := by
  induction tokens generalizing start with
  | nil => rw [List.suffix_nil.mp suffix]; rfl
  | cons token rest ih =>
      rcases List.suffix_cons_iff.mp suffix with rfl | shorter
      · exact exposed_false hidden
      · exact ih shorter (exposed_tail hidden)

theorem exposed_dropWhile {tokens : List Token} (hidden : exposed true tokens = false) :
    exposed true (tokens.dropWhile (·.kind = .newline)) = false := by
  induction tokens with
  | nil => rfl
  | cons token rest ih =>
      rw [List.dropWhile_cons]
      split
      · next feed =>
        refine ih ?_
        have next := exposed_tail hidden
        rwa [of_decide_eq_true feed] at next
      · exact hidden

/-- The token is of a kind that stops a reading, and if it is an arrow the tokens before it do not
end with an operand that it would take for parameters. -/
structure Apart (stop : TokenKind → Bool) (start : Bool) (tokens : List Token) (token : Token) :
    Prop where
  stops : stop token.kind
  aside : token.kind.aside
  hidden : token.kind = .mark .fatArrow → exposed start tokens = false

namespace Apart

variable {stop stop' : TokenKind → Bool} {start : Bool} {token next : Token}
  {tokens rest : List Token}

theorem tail (apart : Apart stop start (token :: rest) next) :
    Apart stop token.kind.awaits rest next :=
  { apart with hidden := fun arrow => exposed_tail (apart.hidden arrow) }

theorem suffix (apart : Apart stop start tokens next) (suffix : rest <:+ tokens) :
    Apart stop false rest next :=
  { apart with hidden := fun arrow => exposed_suffix suffix (apart.hidden arrow) }

theorem dropWhile (apart : Apart stop true tokens next) :
    Apart stop true (tokens.dropWhile (·.kind = .newline)) next :=
  { apart with hidden := fun arrow => exposed_dropWhile (apart.hidden arrow) }

theorem mono (apart : Apart stop' start tokens next)
    (weaker : ∀ kind, stop' kind = true → stop kind = true) : Apart stop start tokens next :=
  { apart with stops := weaker _ apart.stops }

end Apart

end Grammar

section Judgement

variable {α β γ : Type}

open Rill.Stream (Longer Aside Leaves)
open Rill.Grammar (Apart)

/-- What `p` reads from the near stream it reads as well with a token right behind it that stops the
reading. At the start of the stream an operand may stand or not. -/
def ShieldedFrom (stop : TokenKind → Bool) (near : Stream) (start : Bool) (p : Parser α) : Prop :=
  near.Sound → ∀ ⦃x after⦄, p near = .ok (x, after) →
    Leaves near after
    ∧ ∀ ⦃token more far⦄, Apart stop start near.ahead token → Longer (token :: more) near far →
        ∃ after', p far = .ok (x, after') ∧ Longer (token :: more) after after'

def Shielded (stop : TokenKind → Bool) (start : Bool) (p : Parser α) : Prop :=
  ∀ near, ShieldedFrom stop near start p

variable {stop stop' : TokenKind → Bool} {near : Stream} {start : Bool} {p p' : Parser α}
  {kind : TokenKind}

theorem ShieldedFrom.bind {f : α → Parser β} (first : ShieldedFrom stop near start p)
    (next : ∀ x, Shielded stop false (f x)) : ShieldedFrom stop near start (p >>= f) := by
  intro sound y after done
  obtain ⟨x, middle, run, later⟩ := Parser.bind_eq_ok.mp done
  obtain ⟨leaves, shielded⟩ := first sound run
  obtain ⟨leaves', shielded'⟩ := next x middle (leaves.sound sound) later
  refine ⟨leaves.trans leaves', fun token more far apart longer => ?_⟩
  obtain ⟨far', run', longer'⟩ := shielded apart longer
  obtain ⟨far'', run'', longer''⟩ := shielded' (apart.suffix leaves.suffix) longer'
  exact ⟨far'', Parser.bind_eq_ok.mpr ⟨x, far', run', run''⟩, longer''⟩

namespace Shielded

theorem bind {f : α → Parser β} (first : Shielded stop start p)
    (next : ∀ x, Shielded stop false (f x)) : Shielded stop start (p >>= f) :=
  fun near => (first near).bind next

theorem mono (shielded : Shielded stop start p)
    (weaker : ∀ kind, stop' kind = true → stop kind = true) : Shielded stop' start p :=
  fun near sound _ _ done => ⟨(shielded near sound done).1, fun _ _ _ apart longer =>
    (shielded near sound done).2 (apart.mono weaker) longer⟩

theorem of_firm (firm : Firm p) : Shielded stop start p := by
  intro near sound x after done
  obtain ⟨leaves, endures⟩ := firm near sound done
  refine ⟨leaves, fun token more far apart longer => ?_⟩
  exact (endures ⟨token, more, rfl, apart.aside⟩ longer).resolve_left fun bad => bad.1

theorem onward {f : α → Parser β} (first : Loose p) (next : ∀ x, Shielded stop false (f x))
    (dead : ∀ x, Dead (f x)) : Shielded stop start (p >>= f) := by
  intro near sound y after done
  obtain ⟨x, middle, run, later⟩ := Parser.bind_eq_ok.mp done
  obtain ⟨leaves, endures⟩ := first near sound run
  obtain ⟨leaves', shielded'⟩ := next x middle (leaves.sound sound) later
  refine ⟨leaves.trans leaves', fun token more far apart longer => ?_⟩
  rcases endures ⟨token, more, rfl, apart.aside⟩ longer with ⟨-, spent⟩ | ⟨far', run', longer'⟩
  · exact (dead x spent later).1.elim
  · obtain ⟨far'', run'', longer''⟩ := shielded' (apart.suffix leaves.suffix) longer'
    exact ⟨far'', Parser.bind_eq_ok.mpr ⟨x, far', run', run''⟩, longer''⟩

theorem result {x : α} : Shielded stop start (pure x : Parser α) := .of_firm .result

theorem fail (error : ParseError) : Shielded stop start (Parser.fail error : Parser α) :=
  fun _ _ _ _ done => nomatch done

end Shielded

theorem ShieldedFrom.current {token : Token} {rest : List Token}
    (front : near.ahead = token :: rest) {f : Token → Parser α}
    (next : ShieldedFrom stop near start (f token)) :
    ShieldedFrom stop near start (Parser.current >>= f) := by
  intro sound x after done
  have run : f near.current near = .ok (x, after) := done
  rw [Stream.current_of_front front] at run
  obtain ⟨leaves, shielded⟩ := next sound run
  refine ⟨leaves, fun _ more far apart longer => ?_⟩
  obtain ⟨far', run', longer'⟩ := shielded apart longer
  refine ⟨far', ?_, longer'⟩
  show f far.current far = _
  rwa [longer.current front]

theorem ShieldedFrom.advance {token : Token} {rest : List Token}
    (front : near.ahead = token :: rest) {f : Token → Parser α}
    (next : ShieldedFrom stop near.tail token.kind.awaits (f token)) :
    ShieldedFrom stop near start (Parser.advance >>= f) := by
  intro sound x after done
  have run : f near.current near.tail = .ok (x, after) := done
  rw [Stream.current_of_front front] at run
  have tail : near.tail.ahead = rest := by
    show near.ahead.tail = rest
    rw [front, List.tail_cons]
  obtain ⟨leaves, shielded⟩ := next ((Leaves.tail near).sound sound) run
  refine ⟨(Leaves.tail near).trans leaves, fun _ more far apart longer => ?_⟩
  rw [front] at apart
  obtain ⟨far', run', longer'⟩ := shielded (tail ▸ apart.tail) (longer.tail front)
  refine ⟨far', ?_, longer'⟩
  show f far.current far.tail = _
  rwa [longer.current front]

/-- A choice by the token after the next one, without which the production fails. -/
theorem ShieldedFrom.peeks {first : Token} {rest : List Token} (front : near.ahead = first :: rest)
    {f : Token → Parser α}
    (lone : near.Sound → rest = [] → near.peek.kind = .endOfInput →
      ∀ found, f near.peek near ≠ .ok found)
    (next : ShieldedFrom stop near start (f near.peek)) :
    ShieldedFrom stop near start (Parser.peek >>= f) := by
  intro sound x after done
  have run : f near.peek near = .ok (x, after) := done
  cases rest with
  | nil =>
      have kind : near.peek.kind = .endOfInput := by
        rw [Stream.peek, front]
        exact sound.kind
      exact absurd run (lone sound rfl kind _)
  | cons second rest =>
      obtain ⟨leaves, shielded⟩ := next sound run
      refine ⟨leaves, fun _ more far apart longer => ?_⟩
      obtain ⟨far', run', longer'⟩ := shielded apart longer
      refine ⟨far', ?_, longer'⟩
      show f far.peek far = _
      rwa [longer.peek_of_cons front]

/-- A choice by the token ahead, without which the production fails. -/
theorem Shielded.currents {f : Token → Parser α} (dead : Dead (Parser.current >>= f))
    (next : ∀ near token rest, near.ahead = token :: rest →
      ShieldedFrom stop near start (f token)) :
    Shielded stop start (Parser.current >>= f) := by
  intro near sound x after done
  cases front : near.ahead with
  | nil => exact (dead (Stream.spent_of_nil sound front) done).1.elim
  | cons token rest =>
      rw [← front]
      exact ShieldedFrom.current front (next near token rest front) sound done

theorem Stream.Longer.current_of_nil {token : Token} {more : List Token} {far : Stream}
    (longer : Longer (token :: more) near far) (empty : near.ahead = []) : far.current = token := by
  rw [Stream.current, longer.ahead, empty]
  rfl

theorem Shielded.glimpse {f : Token → Parser α}
    (ends : ∀ token next : Token, token.kind = .endOfInput → stop next.kind = true →
      f next = f token)
    (idle : ∀ token : Token, token.kind = .endOfInput → Shielded stop start (f token))
    (next : ∀ near token rest, near.ahead = token :: rest →
      ShieldedFrom stop near start (f token)) :
    Shielded stop start (Parser.current >>= f) := by
  intro near sound x after done
  cases front : near.ahead with
  | cons token rest =>
      rw [← front]
      exact ShieldedFrom.current front (next near token rest front) sound done
  | nil =>
      have kind : near.current.kind = .endOfInput := by
        rw [Stream.current, front]
        exact sound.kind
      obtain ⟨leaves, shielded⟩ := idle near.current kind near sound done
      rw [← front]
      refine ⟨leaves, fun token more far apart longer => ?_⟩
      obtain ⟨far', run', longer'⟩ := shielded apart longer
      refine ⟨far', ?_, longer'⟩
      show f far.current far = _
      rwa [longer.current_of_nil front, ends near.current token kind apart.stops]

theorem Shielded.choose (plain : kind.plain) (other : stop kind = false)
    (yes : ∀ near token rest, near.ahead = token :: rest → token.kind = kind →
      ShieldedFrom stop near start p)
    (no : Shielded stop start p') :
    Shielded stop start (Parser.current >>= fun token => if token.kind = kind then p else p') := by
  have absent {token : Token} (ends : token.kind = .endOfInput) : token.kind ≠ kind := by
    rintro rfl
    rw [ends] at plain
    exact nomatch plain
  refine .glimpse (fun token next ends stops => ?_) (fun token ends => ?_)
    fun near token rest front => ?_
  · rw [if_neg (absent ends), if_neg (by rintro rfl; exact nomatch other.symm.trans stops)]
  · rw [if_neg (absent ends)]
    exact no
  · split
    · next same => exact yes near token rest front same
    · exact no near

theorem Shielded.check (plain : kind.plain) (other : stop kind = false)
    (yes : Shielded stop start p) (no : Shielded stop start p') :
    Shielded stop start (Parser.check kind >>= fun found => if found = true then p else p') := by
  rw [Parser.check_bind]
  exact .choose plain other (fun near _ _ _ _ => yes near) no

/-- A choice by the kind of the token ahead, where no token is taken without one. -/
theorem Shielded.checkAhead (plain : kind.plain) (yes : Shielded stop start p)
    (no : Shielded stop start p') (dead : Dead p') :
    Shielded stop start (Parser.check kind >>= fun found => if found = true then p else p') := by
  have ends := Stops.checks (p := p) plain dead
  rw [Parser.check_bind] at ends ⊢
  refine .currents ends fun near token rest front => ?_
  split
  · exact yes near
  · exact no near

theorem Shielded.eat (plain : kind.plain) (other : stop kind = false)
    (yes : Shielded stop kind.awaits p) (no : Shielded stop start p') :
    Shielded stop start (Parser.eat kind >>= fun found => if found = true then p else p') := by
  rw [Parser.eat_bind]
  exact .choose plain other (fun near token rest front here => .advance front (here ▸ yes _)) no

theorem Shielded.expects (plain : kind.plain) {f : Token → Parser α}
    (next : ∀ token, Shielded stop kind.awaits (f token)) :
    Shielded stop start (Parser.expect kind >>= f) := by
  intro near sound x after done
  obtain ⟨token, middle, run, later⟩ := Parser.bind_eq_ok.mp done
  have run' : (if decide (near.current.kind = kind) = true then Parser.advance
    else Parser.unexpected (.token kind) : Parser Token) near = .ok (token, middle) := run
  split at run'
  · next here =>
    have here := of_decide_eq_true here
    cases run'
    obtain ⟨rest, front⟩ := Stream.front_of_current sound (by
      rintro bad
      rw [← here, bad] at plain
      exact nomatch plain)
    have step : ShieldedFrom stop near start (Parser.advance >>= f) :=
      .advance front (here ▸ next near.current near.tail)
    obtain ⟨leaves, shielded⟩ := step sound later
    refine ⟨leaves, fun _ more far apart longer => ?_⟩
    obtain ⟨far', run'', longer'⟩ := shielded apart longer
    refine ⟨far', ?_, longer'⟩
    have there : far.current.kind = kind := by rw [longer.current front, here]
    refine Parser.bind_eq_ok.mpr ⟨far.current, far.tail, ?_, run''⟩
    show (if decide (far.current.kind = kind) = true then Parser.advance
      else Parser.unexpected (.token kind) : Parser Token) far = _
    rw [decide_eq_true there, if_pos rfl]
    rfl
  · exact nomatch run'

/-! ## Line feeds -/

theorem Stream.dropWhile_longer {token : Token} {more : List Token} {far : Stream}
    (kind : token.kind ≠ .newline) (longer : Longer (token :: more) near far) :
    Longer (token :: more) (near.dropWhile (·.kind = .newline))
      (far.dropWhile (·.kind = .newline)) := by
  by_cases left : near.ahead.dropWhile (·.kind = .newline) = []
  · refine ⟨?_, longer.size⟩
    show far.ahead.dropWhile (·.kind = .newline) = near.ahead.dropWhile (·.kind = .newline) ++ _
    rw [longer.ahead, List.dropWhile_append, left]
    simp [kind]
  · exact longer.dropWhile left

theorem Grammar.Apart.kind_ne {tokens : List Token} {next : Token}
    (apart : Apart stop start tokens next) (other : stop kind = false) : next.kind ≠ kind := by
  rintro rfl
  exact nomatch other.symm.trans apart.stops

theorem Shielded.skipNewlines (other : stop .newline = false) :
    Shielded stop start Parser.skipNewlines := by
  intro near sound x after done
  cases done
  exact ⟨.dropWhile _ near, fun _ more far apart longer =>
    ⟨far.dropWhile (·.kind = .newline), rfl, Stream.dropWhile_longer (apart.kind_ne other) longer⟩⟩

theorem Shielded.pastFeeds (other : stop .newline = false) {f : Unit → Parser α}
    (next : Shielded stop true (f ())) : Shielded stop true (Parser.skipNewlines >>= f) := by
  intro near sound x after done
  have step := Leaves.dropWhile (·.kind = .newline) near
  obtain ⟨leaves, shielded⟩ := next _ (step.sound sound) done
  exact ⟨step.trans leaves, fun _ more far apart longer =>
    shielded apart.dropWhile (Stream.dropWhile_longer (apart.kind_ne other) longer)⟩

/-- A choice by the first token that is no line feed, to which a stop is the same as the end of
input. -/
theorem Shielded.pastNewlines {P : TokenKind → Prop} [DecidablePred P] (notEnd : ¬ P .endOfInput)
    (notStop : ∀ kind, stop kind = true → kind ≠ .newline ∧ ¬ P kind)
    (yes : Shielded stop start p) (no : Shielded stop start p') :
    Shielded stop start
      (Parser.pastNewlines >>= fun token => if P token.kind then p else p') := by
  intro near sound x after done
  have branch : Shielded stop start (if P near.pastNewlines.kind then p else p') := by
    split
    · exact yes
    · exact no
  obtain ⟨leaves, shielded⟩ := branch near sound done
  refine ⟨leaves, fun token more far apart longer => ?_⟩
  obtain ⟨far', run', longer'⟩ := shielded apart longer
  refine ⟨far', ?_, longer'⟩
  show (if P far.pastNewlines.kind then p else p') far = _
  by_cases left : near.ahead.dropWhile (·.kind = .newline) = []
  · have near_end : near.pastNewlines.kind = .endOfInput := by
      rw [Stream.pastNewlines, left]
      exact sound.kind
    have far_stop : far.pastNewlines = token := by
      rw [Stream.pastNewlines, longer.ahead, List.dropWhile_append, left]
      simp [(notStop _ apart.stops).1]
    rw [near_end, if_neg notEnd] at run'
    rwa [far_stop, if_neg (notStop _ apart.stops).2]
  · rwa [longer.pastNewlines left]

/-! ## Repetition -/

theorem Shielded.iterate {round : γ → Parser (Parser.Round γ α)}
    (steps : ∀ state, Shielded stop false (round state)) {bound bound' : Nat} (le : bound ≤ bound')
    (state : γ) {near : Stream} (far : Stream) (sound : near.Sound) {x : α} {after : Stream}
    (run : Parser.iterate round bound state near = .ok (x, after)) :
    Leaves near after
    ∧ ∀ ⦃token more⦄, Apart stop false near.ahead token → Longer (token :: more) near far →
        ∃ after', Parser.iterate round bound' state far = .ok (x, after')
          ∧ Longer (token :: more) after after' := by
  induction bound generalizing state bound' near far with
  | zero => exact nomatch run
  | succ bound ih =>
      obtain ⟨bound', rfl⟩ : ∃ n, bound' = n + 1 := ⟨bound' - 1, by omega⟩
      obtain ⟨found, middle, first, later⟩ := Parser.bind_eq_ok.mp run
      obtain ⟨leaves, shielded⟩ := steps state near sound first
      cases found with
      | done result =>
          cases later
          refine ⟨leaves, fun _ more apart longer => ?_⟩
          obtain ⟨far', first', longer'⟩ := shielded apart longer
          exact ⟨far', Parser.bind_eq_ok.mpr ⟨_, _, first', rfl⟩, longer'⟩
      | again next =>
          have le' := Nat.le_of_succ_le_succ le
          refine ⟨leaves.trans (ih le' next far (leaves.sound sound) later).1,
            fun _ more apart longer => ?_⟩
          obtain ⟨far', first', longer'⟩ := shielded apart longer
          obtain ⟨far'', later', longer''⟩ := (ih le' next far' (leaves.sound sound) later).2
            (apart.suffix leaves.suffix) longer'
          exact ⟨far'', Parser.bind_eq_ok.mpr ⟨_, _, first', later'⟩, longer''⟩

theorem Shielded.loop {round : γ → Parser (Parser.Round γ α)}
    (steps : ∀ state, Shielded stop false (round state)) (state : γ) :
    Shielded stop false (Parser.loop round state) := by
  intro near sound x after done
  have go (far : Stream) (le : near.size + 1 ≤ far.size + 1) :=
    Shielded.iterate steps le state far sound done
  exact ⟨(go near (Nat.le_refl _)).1, fun token more far apart longer =>
    (go far (Nat.succ_le_succ longer.size)).2 apart longer⟩

end Judgement

/-! ## Expressions and their parts -/

open TokenKind (afterExpression)

/-- A way to reach expressions and their parts that does not mind what stands behind them, if they
do not go on with it. -/
structure Shielding (reach : Reach) : Prop extends Enduring reach where
  expression' : Shielded afterExpression true (reach .expression)
  operation' : ∀ power, Shielded afterExpression true (reach (.operation power))
  operand' : Shielded afterExpression true (reach .operand)

namespace Grammar

open Rill.Stream (Longer Aside Leaves)

variable {reach : Reach}

theorem arrowBody_shielded (shielding : Shielding reach) (params : List Binding)
    (pos : Position) : Shielded afterExpression true (arrowBody reach params pos) := by
  refine .pastFeeds rfl (.checkAhead rfl ?_ ?_ (shielding.dead .expression).bind)
  · exact .bind (.of_firm (block_firm shielding.toEnduring)) fun _ => .result
  · exact shielding.expression'.bind fun _ => .result

theorem named_shielded (shielding : Shielding reach) {near : Stream} {token : Token}
    {rest : List Token} (front : near.ahead = token :: rest) (name : token.kind = .ident) :
    ShieldedFrom afterExpression near true (named reach token) := by
  have choice {far : Stream} : named reach token far
      = (if far.tail.current.kind = .mark .fatArrow then
          Parser.advance >>= fun _ => arrowBody reach [⟨token.text, none⟩] token.pos
        else pure (.ident token.pos token.text) : Parser Expr) far.tail := by
    unfold named
    rw [Parser.eat_bind]
    rfl
  cases rest with
  | nil =>
      intro sound x after done
      have empty : near.tail.ahead = [] := by
        show near.ahead.tail = _
        rw [front, List.tail_cons]
      have spent := Stream.spent_of_nil ((Leaves.tail near).sound sound) empty
      rw [choice, if_neg (spent.current_ne rfl)] at done
      cases done
      refine ⟨Leaves.tail near, fun next more far apart longer => ⟨far.tail, ?_, longer.tail front⟩⟩
      -- A name that is all there is would become a parameter.
      have other : next.kind ≠ .mark .fatArrow := fun arrow => by
        have hidden := apart.hidden arrow
        rw [front, exposed, name] at hidden
        exact nomatch hidden
      rw [choice, (longer.tail front).current_of_nil empty, if_neg other]
      rfl
  | cons second rest =>
      have front' : near.tail.ahead = second :: rest := by
        show near.ahead.tail = _
        rw [front, List.tail_cons]
      refine .advance front ?_
      rw [Parser.eat_bind]
      refine .current front' ?_
      split
      · next here =>
        refine .advance front' ?_
        rw [here]
        exact arrowBody_shielded shielding _ _ near.tail.tail
      · exact Shielded.result near.tail

theorem arrowFunction_shielded (shielding : Shielding reach) {start : Bool} (pos : Position) :
    Shielded afterExpression start (arrowFunction reach pos) :=
  .bind (.of_firm (params_firm shielding.toEnduring)) fun params => .expects rfl fun _ =>
    arrowBody_shielded shielding params pos

theorem parenthesised_shielded (shielding : Shielding reach) {near : Stream} {token : Token}
    {rest : List Token} (front : near.ahead = token :: rest) (kind : token.kind = .mark .openParen)
    (pos : Position) : ShieldedFrom afterExpression near true (parenthesised reach pos) := by
  rw [parenthesised_eq]
  intro sound x after done
  have run : (if arrowAfterClose 0 near.ahead = true then arrowFunction reach pos
    else Parser.advance >>= fun _ => group reach) near = .ok (x, after) := done
  have go {far : Stream} {read : Parser Expr} (choice : (if arrowAfterClose 0 far.ahead = true
      then arrowFunction reach pos else Parser.advance >>= fun _ => group reach) = read) :
      (arrowAhead >>= fun found => if found = true then arrowFunction reach pos
        else Parser.advance >>= fun _ => group reach) far = read far := congrFun choice far
  have function : Shielded afterExpression true (arrowFunction reach pos) :=
    arrowFunction_shielded shielding pos
  by_cases found : arrowAfterClose 0 near.ahead = true
  · rw [if_pos found] at run
    obtain ⟨leaves, shielded⟩ := function near sound run
    refine ⟨leaves, fun _ more far apart longer => ?_⟩
    obtain ⟨far', run', longer'⟩ := shielded apart longer
    have found' : arrowAfterClose 0 far.ahead = true :=
      longer.ahead ▸ arrowAfterClose_of_true found _
    exact ⟨far', (go (if_pos found')).trans run', longer'⟩
  · rw [if_neg found] at run
    have step : ShieldedFrom afterExpression near true (Parser.advance >>= fun _ => group reach) :=
      .advance front (Shielded.of_firm (group_firm shielding.toEnduring) near.tail)
    obtain ⟨leaves, shielded⟩ := step sound run
    refine ⟨leaves, fun _ more far apart longer => ?_⟩
    have found' : ¬ arrowAfterClose 0 far.ahead = true := by
      intro bad
      rw [longer.ahead] at bad
      obtain ⟨last, -, arrow⟩ := arrow_of_group shielding.toFollower sound front kind
        (Bool.eq_false_iff.mpr found) run bad
      have hidden := apart.hidden (Option.some.inj arrow)
      rw [front, exposed, kind, last] at hidden
      simp at hidden
    obtain ⟨far', run', longer'⟩ := shielded apart longer
    exact ⟨far', (go (if_neg found')).trans run', longer'⟩

theorem superReference_shielded (pos : Position) :
    Shielded afterExpression false (superReference pos) :=
  .eat rfl rfl (.bind (.of_firm .memberName) fun _ => .result) .result

theorem primary_shielded (shielding : Shielding reach) :
    Shielded afterExpression true (primary reach) := by
  have enduring := shielding.toEnduring
  refine .currents (primary_dead reach) fun near token rest front => ?_
  obtain ⟨kind, text, pos⟩ := token
  have firm {start : Bool} {p : Parser Expr} (firm : Firm p) :
      ShieldedFrom afterExpression near.tail start p := Shielded.of_firm firm near.tail
  cases kind with
  | ident => exact named_shielded shielding front rfl
  | text => exact .advance front (firm .result)
  | number => exact .advance front (firm (.then (numberValue_firm _) fun _ => .result))
  | template pieces =>
      exact .advance front (firm (.then (templateParts_firm reach pieces) fun _ => .result))
  | keyword word =>
      cases word with
      | true_ | false_ | nil_ => exact .advance front (firm .result)
      | func_ => exact .advance front (firm (functionLiteral_firm enduring pos))
      | match_ => exact .advance front (firm (matching_firm enduring pos))
      | super_ => exact .advance front (superReference_shielded pos near.tail)
      | _ => exact Shielded.fail _ near
  | mark m =>
      cases m with
      | openParen => exact parenthesised_shielded shielding front rfl pos
      | openBracket => exact .advance front (firm (array_firm enduring pos))
      | openBrace => exact .advance front (firm (record_firm enduring pos))
      | _ => exact Shielded.fail _ near
  | _ => exact Shielded.fail _ near

theorem link_shielded (shielding : Shielding reach) (object : Expr) :
    Shielded afterExpression false (link reach object) := by
  have enduring := shielding.toEnduring
  refine .glimpse (fun token next ends stops => ?_) (fun token kind => ?_)
    fun near token rest front => ?_
  · obtain ⟨kind, text, pos⟩ := next
    simp only [ends]
    cases kind with
    | newline => exact nomatch stops
    | mark m => cases m <;> first | rfl | exact nomatch stops
    | _ => rfl
  · simp only [kind]
    exact .result
  obtain ⟨kind, text, pos⟩ := token
  cases kind with
  | newline =>
      refine Shielded.pastNewlines (P := fun kind => kind = .mark .dot ∨ kind = .mark .questionDot)
        (by decide) (fun kind stops => ⟨?_, ?_⟩) (.bind (.skipNewlines rfl) fun _ => .result) .result
        near
      · rintro rfl
        exact nomatch stops
      · rintro (rfl | rfl) <;> exact nomatch stops
  | mark m =>
      cases m with
      | dot | questionDot =>
          exact .bind (.advance front (Shielded.of_firm (.then .memberName fun _ => .result) _))
            fun _ => .result
      | openParen =>
          exact .advance front (Shielded.of_firm (.then
            (.listed enduring.expression (enduring.dead _)) fun _ => .result) near.tail)
      | openBracket =>
          exact .advance front (Shielded.of_firm (index_firm enduring fun index =>
            Parser.Round.again (Expr.index pos object index)) near.tail)
      | _ => exact Shielded.result near
  | _ => exact Shielded.result near

theorem chain_shielded (shielding : Shielding reach) :
    Shielded afterExpression true (chain reach) :=
  (primary_shielded shielding).bind fun object => .loop (link_shielded shielding) object

theorem operand_shielded (shielding : Shielding reach) :
    Shielded afterExpression true (operand reach) := by
  refine .currents (operand_dead reach) fun near token rest front => ?_
  obtain ⟨kind, text, pos⟩ := token
  cases kind with
  | mark m =>
      cases m with
      | ellipsis | minus | plus | bang | tilde =>
          exact .advance front (shielding.operand'.bind (fun _ => .result) near.tail)
      | _ => exact chain_shielded shielding near
  | _ => exact chain_shielded shielding near

theorem awaits_of_operator {kind : TokenKind} {op : BinaryOp}
    (found : BinaryOp.ofKind? kind = some op) : kind.awaits = true := by
  cases kind with
  | mark m => cases m <;> first | rfl | exact nomatch found
  | _ => exact nomatch found

theorem operator_of_afterExpression {kind : TokenKind} (stops : afterExpression kind = true) :
    BinaryOp.ofKind? kind = none := by
  cases kind with
  | mark m => cases m <;> first | rfl | exact nomatch stops
  | _ => rfl

theorem climb_shielded (shielding : Shielding reach) (power : Nat) (left : Expr) :
    Shielded afterExpression false (climb reach power left) := by
  refine .glimpse (fun token next ends stops => ?_) (fun token kind => ?_)
    fun near token rest front => ?_
  · rw [operator_of_afterExpression stops, ends]
    rfl
  · rw [kind]
    exact .result
  cases found : BinaryOp.ofKind? token.kind with
  | none => exact Shielded.result near
  | some op =>
      dsimp only
      split
      · exact Shielded.result near
      · refine .advance front ?_
        rw [awaits_of_operator found]
        exact Shielded.pastFeeds rfl ((shielding.operation' op.power).bind fun _ => .result)
          near.tail

theorem operation_shielded (shielding : Shielding reach) (power : Nat) :
    Shielded afterExpression true (operation reach power) :=
  (operand_shielded shielding).bind fun left => .loop (climb_shielded shielding power) left

theorem expression_shielded (shielding : Shielding reach) :
    Shielded afterExpression true (expression reach) := by
  refine (operation_shielded shielding 0).bind fun cond => .eat rfl rfl ?_ .result
  refine .pastFeeds rfl (shielding.expression'.bind fun yes => .bind (.skipNewlines rfl) fun _ => ?_)
  exact .expects rfl fun _ => .pastFeeds rfl (shielding.expression'.bind fun no => .result)

theorem reach_shielding (depth : Nat) : Shielding fun goal => Grammar.reach depth goal := by
  induction depth with
  | zero =>
      exact ⟨reach_enduring 0, fun _ _ _ _ done => (nomatch done),
        fun _ _ _ _ _ done => (nomatch done), fun _ _ _ _ done => (nomatch done)⟩
  | succ depth ih =>
      exact ⟨reach_enduring (depth + 1), expression_shielded ih, operation_shielded ih,
        operand_shielded ih⟩

/-! ## Readings -/

section Readings

variable {depth : Nat} {stream : Stream} {tokens rest : List Token}

theorem read_before {α : Type} {stop : TokenKind → Bool} {p : Parser α}
    (shielded : Shielded stop true p) {x : α} (reads : Reads p tokens x []) {token : Token}
    (apart : Apart stop true tokens token) (shows_ : stream.Shows (tokens ++ token :: rest)) :
    ∃ after, p stream = .ok (x, after) ∧ after.Shows (token :: rest) := by
  obtain ⟨pos, after, run, left⟩ := reads
  obtain ⟨-, stands⟩ := shielded _ (shows_.ofList pos) run
  obtain ⟨after', run', longer⟩ := stands apart (shows_.longer _)
  refine ⟨after', run', (shielded _ shows_.toSound run').1.sound shows_.toSound, ?_⟩
  rw [longer.ahead, left, List.nil_append]

end Readings

end Grammar

end Rill

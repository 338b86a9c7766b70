import Rill.Proofs.Following.Statement

/-!
# Productions with more tokens after them

A production reads the same from a stream and from one that goes on where the first one ends, as
long as it does not come to that end. Most productions that come there have nothing but line feeds
left; a production that ends with a closing bracket does not look at what is behind the bracket.
-/

set_option autoImplicit false

namespace Rill

namespace TokenKind

/-- A kind that decides nothing behind a token at which a reading could end. -/
def aside : TokenKind → Bool
  | keyword .in_ | mark .openParen => false
  | _ => true

end TokenKind

namespace Stream

/-- The far stream has the tokens of the near one and more after them. -/
structure Longer (more : List Token) (near far : Stream) : Prop where
  ahead : far.ahead = near.ahead ++ more
  size : near.size ≤ far.size

/-- Some tokens, and the first decides nothing when it stands behind another. -/
def Aside (more : List Token) : Prop :=
  ∃ token rest, more = token :: rest ∧ token.kind.aside

/-- What a production leaves: the end of what it was given. -/
structure Leaves (near after : Stream) : Prop where
  suffix : after.ahead <:+ near.ahead
  finish : after.finish = near.finish

variable {more : List Token} {near far : Stream}

namespace Leaves

theorem refl (stream : Stream) : Leaves stream stream := ⟨List.suffix_refl _, rfl⟩

theorem trans {first second third : Stream} (front : Leaves first second)
    (back : Leaves second third) : Leaves first third :=
  ⟨back.suffix.trans front.suffix, back.finish.trans front.finish⟩

theorem sound (leaves : Leaves near far) (sound : near.Sound) : far.Sound where
  genuine token member := sound.genuine token (leaves.suffix.subset member)
  kind := leaves.finish ▸ sound.kind
  text := leaves.finish ▸ sound.text

theorem spent (leaves : Leaves near far) (spent : near.Spent) : far.Spent where
  toSound := leaves.sound spent.toSound
  feeds token member := spent.feeds token (leaves.suffix.subset member)

theorem tail (near : Stream) : Leaves near near.tail := ⟨List.tail_suffix near.ahead, rfl⟩

theorem dropWhile (skipped : Token → Bool) (near : Stream) :
    Leaves near (near.dropWhile skipped) := ⟨List.dropWhile_suffix skipped, rfl⟩

end Leaves

theorem spent_of_nil (sound : near.Sound) (empty : near.ahead = []) : near.Spent :=
  ⟨sound, fun _ member => nomatch empty ▸ member⟩

namespace Longer

theorem current (longer : Longer more near far) {token : Token} {rest : List Token}
    (front : near.ahead = token :: rest) : far.current = token := by
  rw [Stream.current, longer.ahead, front]
  rfl

theorem tail (longer : Longer more near far) {token : Token} {rest : List Token}
    (front : near.ahead = token :: rest) : Longer more near.tail far.tail where
  ahead := by
    show far.ahead.tail = near.ahead.tail ++ more
    rw [longer.ahead, front]
    rfl
  size := longer.size

theorem dropWhile (longer : Longer more near far) {skipped : Token → Bool}
    (left : near.ahead.dropWhile skipped ≠ []) :
    Longer more (near.dropWhile skipped) (far.dropWhile skipped) where
  ahead := by
    show far.ahead.dropWhile skipped = near.ahead.dropWhile skipped ++ more
    rw [longer.ahead, List.dropWhile_append, if_neg (by simpa using left)]
  size := longer.size

theorem peek_of_cons (longer : Longer more near far) {first second : Token} {rest : List Token}
    (front : near.ahead = first :: second :: rest) : far.peek = near.peek := by
  rw [Stream.peek, Stream.peek, longer.ahead, front]
  rfl

theorem peek (longer : Longer more near far) (aside : Aside more) (sound : near.Sound)
    {first : Token} {rest : List Token} (front : near.ahead = first :: rest) :
    far.peek = near.peek ∨ (near.peek.kind = .endOfInput ∧ far.peek.kind.aside = true) := by
  cases rest with
  | cons second rest => exact .inl (longer.peek_of_cons front)
  | nil =>
      obtain ⟨token, rest, rfl, shown⟩ := aside
      right
      rw [Stream.peek, Stream.peek, longer.ahead, front]
      exact ⟨sound.kind, shown⟩

theorem pastNewlines (longer : Longer more near far)
    (left : near.ahead.dropWhile (·.kind = .newline) ≠ []) :
    far.pastNewlines = near.pastNewlines := by
  obtain ⟨token, rest, front⟩ := List.exists_cons_of_ne_nil left
  have ahead : far.ahead.dropWhile (·.kind = .newline)
      = near.ahead.dropWhile (·.kind = .newline) ++ more := (longer.dropWhile left).ahead
  rw [Stream.pastNewlines, Stream.pastNewlines, ahead, front]
  rfl

end Longer

end Stream

theorem Parser.check_bind {α : Type} (kind : TokenKind) (p p' : Parser α) :
    (Parser.check kind >>= fun found => if found = true then p else p')
      = Parser.current >>= fun token => if token.kind = kind then p else p' := by
  simp only [Parser.check, bind_assoc, pure_bind, decide_eq_true_eq]

theorem Parser.eat_bind {α : Type} (kind : TokenKind) (p p' : Parser α) :
    (Parser.eat kind >>= fun found => if found = true then p else p')
      = Parser.current >>= fun token =>
          if token.kind = kind then Parser.advance >>= fun _ => p else p' := by
  rw [← Parser.check_bind]
  simp only [Parser.eat, bind_assoc]
  congr 1
  funext found
  cases found <;> simp

theorem Parser.eat_here {kind : TokenKind} {stream : Stream} (here : stream.current.kind = kind) :
    Parser.eat kind stream = .ok (true, stream.tail) := by
  show (if decide (stream.current.kind = kind) = true then
    (Parser.advance >>= fun _ => pure true : Parser Bool) else pure false) stream = _
  rw [decide_eq_true here, if_pos rfl]
  rfl

theorem Parser.eat_other {kind : TokenKind} {stream : Stream} (other : stream.current.kind ≠ kind) :
    Parser.eat kind stream = .ok (false, stream) := by
  show (if decide (stream.current.kind = kind) = true then
    (Parser.advance >>= fun _ => pure true : Parser Bool) else pure false) stream = _
  rw [decide_eq_false other, if_neg Bool.false_ne_true]
  rfl

theorem Parser.check_other {kind : TokenKind} {stream : Stream}
    (other : stream.current.kind ≠ kind) : Parser.check kind stream = .ok (false, stream) :=
  congrArg (fun found => Except.ok (found, stream)) (decide_eq_false other)

section Judgement

variable {α β γ : Type}

open Rill.Stream (Longer Aside Leaves)

/-- What `p` reads from the near stream it reads from each longer one. Only with a spare result may
nothing but line feeds be left of the near stream instead. -/
def EnduresFrom (near : Stream) (spare : α → Prop) (p : Parser α) : Prop :=
  near.Sound → ∀ ⦃x after⦄, p near = .ok (x, after) →
    Leaves near after
    ∧ ∀ ⦃more far⦄, Aside more → Longer more near far →
      (spare x ∧ after.Spent) ∨ ∃ after', p far = .ok (x, after') ∧ Longer more after after'

def Endures (spare : α → Prop) (p : Parser α) : Prop := ∀ near, EnduresFrom near spare p

/-- Whatever comes after it, the production reads the same. -/
abbrev Firm (p : Parser α) : Prop := Endures (fun _ => False) p

/-- Whatever comes after it, the production reads the same if it does not read to the end. -/
abbrev Loose (p : Parser α) : Prop := Endures (fun _ => True) p

variable {near : Stream} {spare : α → Prop} {p p' : Parser α} {kind : TokenKind}

theorem EnduresFrom.bind {f : α → Parser β} {rest : β → Prop} (first : EnduresFrom near spare p)
    (next : ∀ x, Endures rest (f x)) (stops : ∀ x, spare x → Stops rest (f x)) :
    EnduresFrom near rest (p >>= f) := by
  intro sound y after done
  obtain ⟨x, middle, run, later⟩ := Parser.bind_eq_ok.mp done
  obtain ⟨leaves, endures⟩ := first sound run
  obtain ⟨leaves', endures'⟩ := next x middle (leaves.sound sound) later
  refine ⟨leaves.trans leaves', fun more far aside longer => ?_⟩
  rcases endures aside longer with ⟨good, spent⟩ | ⟨far', run', longer'⟩
  · exact .inl (stops x good spent later)
  · refine (endures' aside longer').imp_right ?_
    rintro ⟨far'', run'', longer''⟩
    exact ⟨far'', Parser.bind_eq_ok.mpr ⟨x, far', run', run''⟩, longer''⟩

namespace Endures

theorem bind {f : α → Parser β} {rest : β → Prop} (first : Endures spare p)
    (next : ∀ x, Endures rest (f x)) (stops : ∀ x, spare x → Stops rest (f x)) :
    Endures rest (p >>= f) :=
  fun near => (first near).bind next stops

theorem of_firm (firm : Firm p) : Endures spare p := fun near sound _ _ done =>
  ⟨(firm near sound done).1, fun _ _ aside longer =>
    ((firm near sound done).2 aside longer).imp_left fun bad => bad.1.elim⟩

theorem «then» {f : α → Parser β} {rest : β → Prop} (first : Firm p)
    (next : ∀ x, Endures rest (f x)) : Endures rest (p >>= f) :=
  first.bind next fun _ bad => bad.elim

/-- With nothing but line feeds ahead, no production leaves anything else. -/
theorem stops (endures : Endures spare p) : Stops (fun _ => True) p :=
  fun near spent _ _ done => ⟨trivial, (endures near spent.toSound done).1.spent spent⟩

theorem chain {f : α → Parser β} (first : Endures spare p) (next : ∀ x, Loose (f x)) :
    Loose (p >>= f) :=
  first.bind next fun x _ => (next x).stops

theorem result {x : α} : Endures spare (pure x : Parser α) := by
  intro near sound x' after done
  cases done
  exact ⟨.refl near, fun more far aside longer => .inr ⟨far, rfl, longer⟩⟩

theorem fail (error : ParseError) : Endures spare (Parser.fail error : Parser α) :=
  fun _ _ _ _ done => nomatch done

theorem failed (error : ParseError) {f : γ → Parser α} :
    Endures spare (Parser.fail error >>= f) :=
  fun _ _ _ _ done => nomatch done

theorem unexpected (wanted : Wanted) : Endures spare (Parser.unexpected wanted : Parser α) :=
  fun _ _ _ _ done => nomatch done

end Endures

/-! ## Single tokens -/

theorem EnduresFrom.current {token : Token} {rest : List Token}
    (front : near.ahead = token :: rest) {f : Token → Parser α}
    (next : EnduresFrom near spare (f token)) :
    EnduresFrom near spare (Parser.current >>= f) := by
  intro sound x after done
  have run : f near.current near = .ok (x, after) := done
  rw [Stream.current_of_front front] at run
  obtain ⟨leaves, endures⟩ := next sound run
  refine ⟨leaves, fun more far aside longer => (endures aside longer).imp_right ?_⟩
  rintro ⟨far', run', longer'⟩
  refine ⟨far', ?_, longer'⟩
  show f far.current far = _
  rwa [longer.current front]

theorem EnduresFrom.advanceOn {token : Token} {rest : List Token}
    (front : near.ahead = token :: rest) {f : Token → Parser α}
    (next : EnduresFrom near.tail spare (f token)) :
    EnduresFrom near spare (Parser.advance >>= f) := by
  intro sound x after done
  have run : f near.current near.tail = .ok (x, after) := done
  rw [Stream.current_of_front front] at run
  have step := Leaves.tail near
  obtain ⟨leaves, endures⟩ := next (step.sound sound) run
  refine ⟨step.trans leaves, fun more far aside longer =>
    (endures aside (longer.tail front)).imp_right ?_⟩
  rintro ⟨far', run', longer'⟩
  refine ⟨far', ?_, longer'⟩
  show f far.current far.tail = _
  rwa [longer.current front]

theorem EnduresFrom.advance {token : Token} {rest : List Token}
    (front : near.ahead = token :: rest) {f : Token → Parser α} (next : Endures spare (f token)) :
    EnduresFrom near spare (Parser.advance >>= f) :=
  .advanceOn front (next near.tail)

/-- A choice by the token ahead, without which the production fails. -/
theorem Endures.currents {f : Token → Parser α} (dead : Dead (Parser.current >>= f))
    (next : ∀ near token rest, near.ahead = token :: rest → EnduresFrom near spare (f token)) :
    Endures spare (Parser.current >>= f) := by
  intro near sound x after done
  cases front : near.ahead with
  | nil => exact (dead (Stream.spent_of_nil sound front) done).1.elim
  | cons token rest => exact EnduresFrom.current front (next near token rest front) sound done

theorem Endures.glimpse {f : Token → Parser α} (next : ∀ token, Endures spare (f token))
    (stops : Stops spare (Parser.current >>= f)) : Endures spare (Parser.current >>= f) := by
  intro near sound x after done
  cases front : near.ahead with
  | nil => exact ⟨(next near.current near sound done).1, fun _ _ _ _ =>
      .inl (stops (Stream.spent_of_nil sound front) done)⟩
  | cons token rest => exact EnduresFrom.current front (next token near) sound done

theorem Endures.glimpseLoosely {f : Token → Parser α} (next : ∀ token, Loose (f token)) :
    Loose (Parser.current >>= f) :=
  .glimpse next (.currents fun token _ => (next token).stops)

theorem Endures.advance : Loose Parser.advance := by
  intro near sound x after done
  cases done
  refine ⟨Leaves.tail near, fun more far aside longer => ?_⟩
  cases front : near.ahead with
  | nil => exact .inl ⟨trivial, (Stream.spent_of_nil sound front).tail⟩
  | cons token rest =>
      refine .inr ⟨far.tail, ?_, longer.tail front⟩
      show Except.ok (far.current, far.tail) = _
      rw [longer.current front, Stream.current_of_front front]

theorem EnduresFrom.check (plain : kind.plain)
    (yes : ∀ token rest, near.ahead = token :: rest → token.kind = kind →
      EnduresFrom near spare p)
    (no : EnduresFrom near spare p') (stops : Stops spare p') :
    EnduresFrom near spare (Parser.check kind >>= fun found => if found = true then p else p') := by
  intro sound x after done
  have run : (if decide (near.current.kind = kind) = true then p else p') near = .ok (x, after) :=
    done
  have go {far : Stream} : (Parser.check kind >>= fun found => if found = true then p else p') far
    = (if decide (far.current.kind = kind) = true then p else p') far := rfl
  cases front : near.ahead with
  | nil =>
      have absent := (Stream.spent_of_nil sound front).current_ne plain
      rw [decide_eq_false absent, if_neg Bool.false_ne_true] at run
      exact ⟨(no sound run).1, fun _ _ _ _ => .inl (stops (Stream.spent_of_nil sound front) run)⟩
  | cons token rest =>
      rw [Stream.current_of_front front] at run
      have branch : EnduresFrom near spare (if decide (token.kind = kind) = true then p else p') := by
        split
        · next here => exact yes token rest front (of_decide_eq_true here)
        · exact no
      obtain ⟨leaves, endures⟩ := branch sound run
      refine ⟨leaves, fun more far aside longer => (endures aside longer).imp_right ?_⟩
      rintro ⟨far', run', longer'⟩
      exact ⟨far', by rwa [go, longer.current front], longer'⟩

theorem Endures.check (plain : kind.plain)
    (yes : ∀ near token rest, near.ahead = token :: rest → token.kind = kind →
      EnduresFrom near spare p)
    (no : Endures spare p') (stops : Stops spare p') :
    Endures spare (Parser.check kind >>= fun found => if found = true then p else p') :=
  fun near => .check plain (yes near) (no near) stops

theorem Endures.checkLoosely (plain : kind.plain) (yes : Loose p) (no : Loose p') :
    Loose (Parser.check kind >>= fun found => if found = true then p else p') :=
  .check plain (fun near _ _ _ _ => yes near) no no.stops

theorem Endures.checked (plain : kind.plain) {f : Bool → Parser α}
    (yes : ∀ near token rest, near.ahead = token :: rest → token.kind = kind →
      EnduresFrom near spare (f true))
    (no : Endures spare (f false)) (stops : Stops spare (f false)) :
    Endures spare (Parser.check kind >>= f) := by
  have same : (Parser.check kind >>= f)
      = (Parser.check kind >>= fun found => if found = true then f true else f false) := by
    congr 1
    funext found
    cases found <;> rfl
  rw [same]
  exact .check plain yes no stops

theorem Endures.eaten (plain : kind.plain) {f : Bool → Parser α} (yes : Endures spare (f true))
    (no : Endures spare (f false)) (stops : Stops spare (f false)) :
    Endures spare (Parser.eat kind >>= f) := by
  have same : (Parser.eat kind >>= f) = (Parser.check kind >>= fun found =>
      if found = true then Parser.advance >>= fun _ => f true else f false) := by
    simp only [Parser.eat, bind_assoc]
    congr 1
    funext found
    cases found <;> simp
  rw [same]
  exact .check plain (fun near token rest front _ => .advance front yes) no stops

theorem Endures.eat (plain : kind.plain) (yes : Endures spare p) (no : Endures spare p')
    (stops : Stops spare p') :
    Endures spare (Parser.eat kind >>= fun found => if found = true then p else p') :=
  .eaten plain yes no stops

theorem Endures.eatLoosely (plain : kind.plain) (yes : Loose p) (no : Loose p') :
    Loose (Parser.eat kind >>= fun found => if found = true then p else p') :=
  .eat plain yes no no.stops

theorem Endures.expect (plain : kind.plain) : Firm (Parser.expect kind) := by
  have step : Firm (Parser.check kind >>= fun found =>
      if found = true then Parser.advance >>= pure else Parser.unexpected (.token kind)) :=
    .check plain (fun _ _ _ front _ => .advance front .result) (.unexpected _)
      fun _ _ _ _ done => nomatch done
  rwa [bind_pure] at step

theorem Endures.expects (plain : kind.plain) {f : Token → Parser α}
    (next : ∀ token, Endures spare (f token)) : Endures spare (Parser.expect kind >>= f) :=
  .then (.expect plain) next

theorem Endures.identifier : Firm Parser.identifier :=
  .check rfl (fun _ _ _ front _ => .advance front .result) (.unexpected _)
    fun _ _ _ _ done => nomatch done

theorem Endures.memberName : Firm Parser.memberName := by
  refine .currents Stops.memberName fun near token rest front => ?_
  split
  · exact .advance front .result
  · exact Endures.unexpected _ near

/-! ## Further ahead -/

/-- A choice by the token after the next one, without which the production fails. -/
theorem EnduresFrom.peeks {first : Token} {rest : List Token} (front : near.ahead = first :: rest)
    {f : Token → Parser α}
    (lone : near.Sound → rest = [] → near.peek.kind = .endOfInput →
      ∀ found, f near.peek near ≠ .ok found)
    (next : EnduresFrom near spare (f near.peek)) :
    EnduresFrom near spare (Parser.peek >>= f) := by
  intro sound x after done
  have run : f near.peek near = .ok (x, after) := done
  cases rest with
  | nil =>
      have kind : near.peek.kind = .endOfInput := by
        rw [Stream.peek, front]
        exact sound.kind
      exact absurd run (lone sound rfl kind _)
  | cons second rest =>
      obtain ⟨leaves, endures⟩ := next sound run
      refine ⟨leaves, fun more far aside longer => (endures aside longer).imp_right ?_⟩
      rintro ⟨far', run', longer'⟩
      refine ⟨far', ?_, longer'⟩
      show f far.peek far = _
      rwa [longer.peek_of_cons front]

theorem EnduresFrom.peek (plain : kind.plain) (hidden : kind.aside = false) {first : Token}
    {rest : List Token} (front : near.ahead = first :: rest)
    (yes : near.peek.kind = kind → EnduresFrom near spare p) (no : EnduresFrom near spare p') :
    EnduresFrom near spare (Parser.peek >>= fun token => if token.kind = kind then p else p') := by
  intro sound x after done
  have run : (if near.peek.kind = kind then p else p') near = .ok (x, after) := done
  have branch : EnduresFrom near spare (if near.peek.kind = kind then p else p') := by
    split
    · next here => exact yes here
    · exact no
  obtain ⟨leaves, endures⟩ := branch sound run
  refine ⟨leaves, fun more far aside longer => (endures aside longer).imp_right ?_⟩
  rintro ⟨far', run', longer'⟩
  refine ⟨far', ?_, longer'⟩
  show (if far.peek.kind = kind then p else p') far = _
  rcases longer.peek aside sound front with same | ⟨ends, shown⟩
  · rwa [same]
  · have other : near.peek.kind ≠ kind := by
      rintro same
      rw [← same, ends] at plain
      exact nomatch plain
    have other' : far.peek.kind ≠ kind := by
      rintro same
      rw [same, hidden] at shown
      exact nomatch shown
    rw [if_neg other] at run'
    rwa [if_neg other']

theorem Endures.pastNewlines {P : TokenKind → Prop} [DecidablePred P] (notEnd : ¬ P .endOfInput)
    (yes : Endures spare p) (no : Endures spare p') (stops : Stops spare p') :
    Endures spare (Parser.pastNewlines >>= fun token => if P token.kind then p else p') := by
  intro near sound x after done
  have run : (if P near.pastNewlines.kind then p else p') near = .ok (x, after) := done
  by_cases left : near.ahead.dropWhile (·.kind = .newline) = []
  · have ends : near.pastNewlines.kind = .endOfInput := by
      rw [Stream.pastNewlines, left]
      exact sound.kind
    rw [ends, if_neg notEnd] at run
    exact ⟨(no near sound run).1, fun _ _ _ _ =>
      .inl (stops (Stream.spent_of_dropWhile sound left) run)⟩
  · have branch : Endures spare (if P near.pastNewlines.kind then p else p') := by
      split
      · exact yes
      · exact no
    obtain ⟨leaves, endures⟩ := branch near sound run
    refine ⟨leaves, fun more far aside longer => (endures aside longer).imp_right ?_⟩
    rintro ⟨far', run', longer'⟩
    refine ⟨far', ?_, longer'⟩
    show (if P far.pastNewlines.kind then p else p') far = _
    rwa [longer.pastNewlines left]

theorem Stops.pastNewlines {P : TokenKind → Prop} [DecidablePred P] (yes : Stops spare p)
    (no : Stops spare p') :
    Stops spare (Parser.pastNewlines >>= fun token => if P token.kind then p else p') := by
  intro near spent x after done
  have run : (if P near.pastNewlines.kind then p else p') near = .ok (x, after) := done
  split at run
  · exact yes spent run
  · exact no spent run

theorem Endures.skips {skipped : Token → Bool} {f : Unit → Parser α} (next : Endures spare (f ()))
    (stops : Stops spare (f ())) :
    Endures spare ((modify (·.dropWhile skipped) : Parser Unit) >>= f) := by
  intro near sound x after done
  have run : f () (near.dropWhile skipped) = .ok (x, after) := done
  have step := Leaves.dropWhile skipped near
  obtain ⟨leaves, endures⟩ := next _ (step.sound sound) run
  refine ⟨step.trans leaves, fun more far aside longer => ?_⟩
  by_cases left : near.ahead.dropWhile skipped = []
  · exact .inl (stops (Stream.spent_of_nil (step.sound sound) left) run)
  · refine (endures aside (longer.dropWhile left)).imp_right ?_
    rintro ⟨far', run', longer'⟩
    exact ⟨far', run', longer'⟩

theorem Endures.skipLoosely {skipped : Token → Bool} {f : Unit → Parser α} (next : Loose (f ())) :
    Loose ((modify (·.dropWhile skipped) : Parser Unit) >>= f) :=
  .skips next next.stops

theorem Endures.inside {wanted : Wanted} {f : Unit → Parser α} (next : Endures spare (f ())) :
    Endures spare (Parser.check .endOfInput >>= fun found =>
      if found = true then Parser.unexpected wanted >>= f else f ()) := by
  intro near sound x after done
  have run : (if decide (near.current.kind = .endOfInput) = true then
    Parser.unexpected wanted >>= f else f ()) near = .ok (x, after) := done
  by_cases here : near.current.kind = .endOfInput
  · rw [decide_eq_true here, if_pos rfl] at run
    exact nomatch run
  · rw [decide_eq_false here, if_neg Bool.false_ne_true] at run
    obtain ⟨rest, front⟩ := Stream.front_of_current sound here
    obtain ⟨leaves, endures⟩ := next near sound run
    refine ⟨leaves, fun more far aside longer => (endures aside longer).imp_right ?_⟩
    rintro ⟨far', run', longer'⟩
    refine ⟨far', ?_, longer'⟩
    show (if decide (far.current.kind = .endOfInput) = true then
      Parser.unexpected wanted >>= f else f ()) far = _
    rwa [longer.current front, decide_eq_false here, if_neg Bool.false_ne_true]

/-! ## Repetition -/

theorem Endures.iterate {round : γ → Parser (Parser.Round γ α)} {last : Parser.Round γ α → Prop}
    (steps : ∀ state, Endures last (round state))
    (again : ∀ state, last (.again state) → ∀ bound, Stops spare (Parser.iterate round bound state))
    (done : ∀ result, last (.done result) → spare result) {bound bound' : Nat}
    (le : bound ≤ bound') (state : γ) {near : Stream} (far : Stream) (sound : near.Sound) {x : α}
    {after : Stream} (run : Parser.iterate round bound state near = .ok (x, after)) :
    Leaves near after ∧ ∀ ⦃more⦄, Aside more → Longer more near far →
      (spare x ∧ after.Spent)
      ∨ ∃ after', Parser.iterate round bound' state far = .ok (x, after')
        ∧ Longer more after after' := by
  induction bound generalizing state bound' near far with
  | zero => exact nomatch run
  | succ bound ih =>
      obtain ⟨bound', rfl⟩ : ∃ n, bound' = n + 1 := ⟨bound' - 1, by omega⟩
      obtain ⟨found, middle, first, later⟩ := Parser.bind_eq_ok.mp run
      obtain ⟨leaves, endures⟩ := steps state near sound first
      cases found with
      | done result =>
          cases later
          refine ⟨leaves, fun more aside longer => ?_⟩
          rcases endures aside longer with ⟨good, spent⟩ | ⟨far', first', longer'⟩
          · exact .inl ⟨done x good, spent⟩
          · exact .inr ⟨far', Parser.bind_eq_ok.mpr ⟨_, _, first', rfl⟩, longer'⟩
      | again next =>
          have le' := Nat.le_of_succ_le_succ le
          refine ⟨leaves.trans (ih le' next far (leaves.sound sound) later).1,
            fun more aside longer => ?_⟩
          rcases endures aside longer with ⟨good, spent⟩ | ⟨far', first', longer'⟩
          · exact .inl (again next good bound spent later)
          · refine ((ih le' next far' (leaves.sound sound) later).2 aside longer').imp_right ?_
            rintro ⟨far'', later', longer''⟩
            exact ⟨far'', Parser.bind_eq_ok.mpr ⟨_, _, first', later'⟩, longer''⟩

theorem Endures.loop {round : γ → Parser (Parser.Round γ α)}
    (steps : ∀ state, Endures (Parser.Round.spare spare) (round state))
    (stops : ∀ state, Stops (Parser.Round.spare spare) (round state)) (state : γ) :
    Endures spare (Parser.loop round state) := by
  intro near sound x after done
  have go (far : Stream) (le : near.size + 1 ≤ far.size + 1) :=
    Endures.iterate steps (fun state _ bound => Stops.iterate stops bound state)
      (fun _ good => good) le state far sound done
  exact ⟨(go near (Nat.le_refl _)).1, fun more far aside longer =>
    (go far (Nat.succ_le_succ longer.size)).2 aside longer⟩

theorem Stops.iterateLoosely {round : γ → Parser (Parser.Round γ α)}
    (steps : ∀ state, Stops (fun _ => True) (round state)) (bound : Nat) (state : γ) :
    Stops (fun _ => True) (Parser.iterate round bound state) :=
  .iterate (fun state => (steps state).mono fun found _ => by cases found <;> trivial) bound state

theorem Endures.loopLoosely {round : γ → Parser (Parser.Round γ α)}
    (steps : ∀ state, Loose (round state)) (state : γ) : Loose (Parser.loop round state) := by
  intro near sound x after done
  have go (far : Stream) (le : near.size + 1 ≤ far.size + 1) :=
    Endures.iterate steps
      (fun state _ bound => Stops.iterateLoosely (fun state => (steps state).stops) bound state)
      (fun _ _ => trivial) le state far sound done
  exact ⟨(go near (Nat.le_refl _)).1, fun more far aside longer =>
    (go far (Nat.succ_le_succ longer.size)).2 aside longer⟩

theorem Endures.skipLoop {skipped : Token → Bool} {f : γ → Unit → Parser (Parser.Round γ α)}
    (steps : ∀ state, Endures (Parser.Round.spare spare) (f state ()))
    (stops : ∀ state, Stops (Parser.Round.spare spare) (f state ())) (state : γ) :
    Endures spare
      (Parser.loop (fun state => (modify (·.dropWhile skipped) : Parser Unit) >>= f state) state) :=
  .loop (fun state => .skips (steps state) (stops state)) (fun state => .skips (stops state)) state

theorem Endures.listed {close : Mark} {item : Parser α} (loose : Loose item) (dead : Dead item) :
    Firm (Parser.listed close item) := by
  refine .skipLoop (fun done => ?_) (fun done => .eats rfl dead.bind) []
  refine .eat rfl .result (loose.bind (fun next => ?_) fun next _ => ?_) dead.bind
  · refine .skips (.eat rfl .result (.skips (.expects rfl fun _ => .result) (.expects rfl)) ?_) ?_
    · exact .skips (.expects rfl)
    · exact .eats rfl (.skips (.expects rfl))
  · exact .skips (.eats rfl (.skips (.expects rfl)))

end Judgement

/-! ## Readings -/

/-- From these tokens alone the production reads `x` and leaves the rest. -/
def Reads {α : Type} (p : Parser α) (tokens : List Token) (x : α) (rest : List Token) : Prop :=
  ∃ pos after, p (Stream.ofList tokens ⟨.endOfInput, "", pos⟩) = .ok (x, after)
    ∧ after.ahead = rest

namespace Stream

/-- These tokens are ahead, and all of them are read from a text. -/
structure Shows (stream : Stream) (tokens : List Token) : Prop extends Sound stream where
  ahead : stream.ahead = tokens

namespace Shows

variable {stream : Stream} {token : Token} {tokens rest : List Token}

theorem tail (shows_ : stream.Shows (token :: rest)) : stream.tail.Shows rest where
  toSound := (Leaves.tail stream).sound shows_.toSound
  ahead := by
    show stream.ahead.tail = rest
    rw [shows_.ahead, List.tail_cons]

theorem ofList (shows_ : stream.Shows (tokens ++ rest)) (pos : Position) :
    (Stream.ofList tokens ⟨.endOfInput, "", pos⟩).Sound where
  genuine token member := shows_.genuine token (shows_.ahead ▸ List.mem_append_left _ member)
  kind := rfl
  text := rfl

theorem longer (shows_ : stream.Shows (tokens ++ rest)) (finish : Token) :
    Longer rest (Stream.ofList tokens finish) stream where
  ahead := shows_.ahead
  size := by
    have bound := stream.length_le
    rw [shows_.ahead, List.length_append] at bound
    exact Nat.le_trans (Nat.le_add_right _ _) bound

theorem expect (shows_ : stream.Shows (token :: rest)) :
    Parser.expect token.kind stream = .ok (token, stream.tail) := by
  have here := Stream.current_of_front shows_.ahead
  show (if decide (stream.current.kind = token.kind) = true then Parser.advance
    else Parser.unexpected (.token token.kind) : Parser Token) stream = _
  rw [here, decide_eq_true rfl, if_pos rfl]
  exact congrArg (fun token => Except.ok (token, stream.tail)) here

theorem eat (shows_ : stream.Shows (token :: rest)) :
    Parser.eat token.kind stream = .ok (true, stream.tail) :=
  Parser.eat_here (congrArg Token.kind (Stream.current_of_front shows_.ahead))

theorem dropWhile {p : Token → Bool} (shows_ : stream.Shows (token :: rest))
    (other : p token = false) : (stream.dropWhile p).Shows (token :: rest) where
  toSound := (Leaves.dropWhile p stream).sound shows_.toSound
  ahead := by
    show stream.ahead.dropWhile p = token :: rest
    rw [shows_.ahead, List.dropWhile_cons, if_neg (Bool.eq_false_iff.mp other)]

theorem pastFeeds {feeds : List Token} (shows_ : stream.Shows (feeds ++ rest))
    (blank : ∀ token ∈ feeds, token.kind = .newline)
    (starts : ∀ token ∈ rest.head?, token.kind ≠ .newline) :
    (stream.dropWhile (·.kind = .newline)).Shows rest where
  toSound := (Leaves.dropWhile _ stream).sound shows_.toSound
  ahead := by
    show stream.ahead.dropWhile (·.kind = .newline) = rest
    rw [shows_.ahead, List.dropWhile_append_of_pos fun token member =>
      decide_eq_true (blank token member)]
    cases rest with
    | nil => rfl
    | cons token rest =>
        rw [List.dropWhile_cons, if_neg]
        exact fun feed => starts token rfl (of_decide_eq_true feed)

end Shows

end Stream

end Rill

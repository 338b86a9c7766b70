import Rill.Proofs.Enduring
import Rill.Proofs.Layout

/-!
# Progress

The judgement that a production moves on: it leaves the end of what it was given, its result says
whether it took a token, and no bound on its depth runs out while the tokens ahead have less room
than the bound. A template has the room of its spelling, more than the source of any hole in it; so
the room shrinks into a hole as it does past a token.
-/

set_option autoImplicit false

namespace Rill

theorem TokenKind.shown_of_plain {kind : TokenKind} (plain : kind.plain) : kind ≠ .endOfInput := by
  rintro rfl
  exact nomatch plain

/-! ## Room -/

namespace Token

/-- The room of a token: a template has as much as it has characters, any other token one place. -/
def room (token : Token) : Nat :=
  match token.kind with
  | .template _ => token.text.length
  | _ => 1

theorem room_template {token : Token} {pieces : List TemplatePiece}
    (template : token.kind = .template pieces) : token.room = token.text.length := by
  rw [room, template]

theorem room_le (token : Token) : token.room ≤ token.text.length + 1 := by
  unfold room
  split <;> omega

/-- A token that has some room, and more than the source of each of its holes. -/
structure Roomy (token : Token) : Prop where
  filled : 0 < token.room
  holes : ∀ ⦃pieces⦄, token.kind = .template pieces → ∀ ⦃source pos⦄, .hole source pos ∈ pieces →
    source.length < token.room

end Token

namespace Stretch

variable {stretch : Stretch} {pos : Position} {ahead : List Char}

theorem Faithful.hole_shorter (faithful : stretch.Faithful pos ahead) {pieces : List TemplatePiece}
    (template : stretch.token.kind = .template pieces) {source : String} {at_ : Position}
    (member : .hole source at_ ∈ pieces) : source.length < stretch.spelling.length := by
  obtain ⟨before, after, whole, -⟩ := faithful.holes pieces template source at_ member
  rw [whole, ← String.length_toList, List.length_append, List.length_cons, List.length_cons,
    List.length_append]
  omega

theorem Faithful.template_spelling (faithful : stretch.Faithful pos ahead)
    {pieces : List TemplatePiece} (template : stretch.token.kind = .template pieces) :
    stretch.spelling.length = stretch.token.text.length := by
  generalize spelled : stretch.spelling = spelling
  cases spelled ▸ faithful.spells with
  | quoted _ kind _ =>
      rw [kind] at template
      exact nomatch template
  | verbatim _ => exact String.length_toList

theorem Faithful.room (faithful : stretch.Faithful pos ahead) :
    stretch.token.Roomy ∧ stretch.token.room ≤ stretch.chars.length := by
  have more : 0 < stretch.spelling.length := List.length_pos_iff.mpr faithful.more
  have inside : stretch.spelling.length ≤ stretch.chars.length := by
    rw [Stretch.chars, List.length_append]
    omega
  by_cases template : ∃ pieces, stretch.token.kind = .template pieces
  · obtain ⟨pieces, template⟩ := template
    have room : stretch.token.room = stretch.spelling.length :=
      (Token.room_template template).trans (faithful.template_spelling template).symm
    refine ⟨⟨room ▸ more, fun pieces' template' source at_ member => ?_⟩, room ▸ inside⟩
    exact room ▸ faithful.hole_shorter template' member
  · have room : stretch.token.room = 1 := by
      unfold Token.room
      split
      · next pieces kind => exact absurd ⟨pieces, kind⟩ template
      · rfl
    refine ⟨⟨room ▸ Nat.one_pos, fun pieces template' => absurd ⟨pieces, template'⟩ template⟩, ?_⟩
    rw [room]
    omega

end Stretch

theorem Laid.room {origin : Position} {text : List Char} {tokens : List Token}
    (laid : Laid origin text tokens) :
    ∃ front finish, tokens = front ++ [⟨.endOfInput, "", finish⟩] ∧ (∀ token ∈ front, token.Roomy)
      ∧ (front.map Token.room).sum ≤ text.length := by
  obtain ⟨stretches, last, whole, same, -, faithful⟩ := laid
  refine ⟨stretches.map Stretch.token, _, same, fun token member => ?_, ?_⟩
  · obtain ⟨stretch, inside, rfl⟩ := List.mem_map.mp member
    obtain ⟨before, after, split⟩ := List.append_of_mem inside
    exact (faithful before stretch after split).room.1
  · have small : ∀ stretch ∈ stretches, stretch.token.room ≤ stretch.chars.length := by
      intro stretch member
      obtain ⟨before, after, split⟩ := List.append_of_mem member
      exact (faithful before stretch after split).room.2
    have fits : ((stretches.map Stretch.token).map Token.room).sum
        ≤ (stretches.flatMap Stretch.chars).length := by
      clear whole same faithful
      induction stretches with
      | nil => exact Nat.le_refl _
      | cons stretch rest ih =>
          obtain ⟨here, small⟩ := List.forall_mem_cons.mp small
          rw [List.map_cons, List.map_cons, List.sum_cons, List.flatMap_cons, List.length_append]
          exact Nat.add_le_add here (ih small)
    rw [whole, List.length_append]
    omega

namespace Stream

def room (stream : Stream) : Nat := (stream.ahead.map Token.room).sum

/-- A stream of tokens that the lexer makes. -/
structure Fed (stream : Stream) : Prop extends Sound stream where
  roomy : ∀ token ∈ stream.ahead, token.Roomy

variable {near far : Stream}

theorem Leaves.fed (leaves : Leaves near far) (fed : near.Fed) : far.Fed where
  toSound := leaves.sound fed.toSound
  roomy token member := fed.roomy token (leaves.suffix.subset member)

theorem Leaves.room_le (leaves : Leaves near far) : far.room ≤ near.room := by
  obtain ⟨front, split⟩ := leaves.suffix
  rw [room, room, ← split, List.map_append, List.sum_append]
  omega

theorem Leaves.room_lt (leaves : Leaves near far) (fed : near.Fed)
    (fewer : far.ahead.length < near.ahead.length) : far.room < near.room := by
  obtain ⟨front, split⟩ := leaves.suffix
  cases front with
  | nil => rw [← split, List.nil_append] at fewer; exact absurd fewer (Nat.lt_irrefl _)
  | cons token front =>
      have filled := (fed.roomy token (split ▸ List.mem_cons_self)).filled
      rw [room, room, ← split, List.cons_append, List.map_cons, List.sum_cons, List.map_append,
        List.sum_append]
      omega

theorem Fed.tail_shorter (fed : near.Fed) (shown : near.current.kind ≠ .endOfInput) :
    near.tail.ahead.length < near.ahead.length := by
  obtain ⟨rest, front⟩ := front_of_current fed.toSound shown
  show near.ahead.tail.length < _
  rw [front]
  exact Nat.lt_succ_self _

theorem Fed.shown (fed : near.Fed) (spelled : near.current.text ≠ "") :
    near.current.kind ≠ .endOfInput := by
  cases front : near.ahead with
  | nil =>
      rw [current, front] at spelled
      exact absurd fed.text spelled
  | cons token rest =>
      rw [current_of_front front]
      exact (fed.genuine token (front ▸ List.mem_cons_self)).kind_ne_end

theorem Fed.hole_lt (fed : near.Fed) {pieces : List TemplatePiece}
    (template : near.current.kind = .template pieces) {source : String} {pos : Position}
    (member : .hole source pos ∈ pieces) : source.length < near.room := by
  obtain ⟨rest, front⟩ := front_of_current fed.toSound (template ▸ nofun)
  have fits := (fed.roomy near.current (by rw [front]; exact List.mem_cons_self)).holes template
    member
  rw [room, front, List.map_cons, List.sum_cons]
  omega

/-- The stream of a token list that was cut short, if it was, has the tokens before the cut and an
end behind them. -/
theorem ofTokens_take {front : List Token} (shown : ∀ token ∈ front, token.kind ≠ .endOfInput)
    (finish : Position) (cut : Nat) :
    ∃ pos, ofTokens (List.take cut (front ++ [⟨.endOfInput, "", finish⟩]))
      = ofList (front.take cut) ⟨.endOfInput, "", pos⟩ := by
  by_cases whole : cut ≤ front.length
  · rw [List.take_append_of_le_length whole, ofTokens]
    cases ends : (front.take cut).getLast? with
    | none => exact ⟨.unknown, by rw [List.getLast?_eq_none_iff.mp ends]⟩
    | some last =>
        have inside := List.mem_of_mem_take (List.mem_of_getLast? ends)
        exact ⟨last.pos, if_neg (shown last inside)⟩
  · refine ⟨finish, ?_⟩
    rw [List.take_of_length_le (by rw [List.length_append, List.length_singleton]; omega),
      List.take_of_length_le (by omega), Grammar.ofTokens_append front rfl]

theorem fed_ofTokens {text : String} {start : Position} {tokens : List Token}
    (read : tokenizeAt text start = .ok tokens) (cut : Nat) :
    (ofTokens (tokens.take cut)).Fed ∧ (ofTokens (tokens.take cut)).room ≤ text.length
      ∧ (ofTokens (tokens.take cut)).ahead <+: tokens.take cut := by
  have scans := Scans.tokenizeAt_eq_ok.mp read
  obtain ⟨front, finish, same, genuine⟩ := scans.genuine (Position.clamp_placed start)
  obtain ⟨front', finish', same', roomy, room⟩ := scans.laid.room
  obtain ⟨rfl, -⟩ := List.append_inj' (same.symm.trans same') rfl
  obtain ⟨pos, stream⟩ := ofTokens_take (fun token member => (genuine token member).kind_ne_end)
    finish cut
  have inside {token : Token} (member : token ∈ front.take cut) : token ∈ front :=
    List.mem_of_mem_take member
  rw [same, stream]
  refine ⟨⟨⟨fun token member => genuine token (inside member), rfl, rfl⟩,
    fun token member => roomy token (inside member)⟩, ?_, ?_⟩
  · have split := congrArg (fun tokens => (tokens.map Token.room).sum) (List.take_append_drop cut front)
    rw [List.map_append, List.sum_append] at split
    show ((front.take cut).map Token.room).sum ≤ text.length
    rw [← String.length_toList]
    have short : _ ≤ text.toList.length := room
    omega
  · exact (List.prefix_append front _).take cut

end Stream

/-! ## Productions that move on -/

/-- From this stream, when it is one that the lexer makes, the production leaves the end of it, with
fewer tokens if its result says so, and it does not run out if the stream has less room than
`bound`. -/
def ProceedsFrom {α : Type} (bound : Nat) (takes : α → Prop) (stream : Stream) (p : Parser α) :
    Prop :=
  stream.Fed →
    (∀ ⦃x after⦄, p stream = .ok (x, after) →
      stream.Leaves after ∧ (takes x → after.ahead.length < stream.ahead.length))
    ∧ (stream.room < bound → p stream ≠ .error .exhausted)

def Proceeds {α : Type} (bound : Nat) (takes : α → Prop) (p : Parser α) : Prop :=
  ∀ stream, ProceedsFrom bound takes stream p

abbrev Lasts {α : Type} (bound : Nat) (p : Parser α) : Prop := Proceeds bound (fun _ => False) p

abbrev Takes {α : Type} (bound : Nat) (p : Parser α) : Prop := Proceeds bound (fun _ => True) p

namespace Parser.Round

def GoesOn {β γ : Type} : Round β γ → Prop
  | .again _ => True
  | .done _ => False

end Parser.Round

section Rules

variable {α β γ : Type} {bound : Nat} {stream : Stream} {takes takes' : α → Prop} {rest : β → Prop}
  {p : Parser α} {f : α → Parser β}

theorem ProceedsFrom.weaken (proceeds : ProceedsFrom bound takes stream p)
    (weaker : ∀ x, takes' x → takes x) : ProceedsFrom bound takes' stream p := fun fed =>
  ⟨fun _ _ done => ((proceeds fed).1 done).imp_right fun shorter say => shorter (weaker _ say),
    (proceeds fed).2⟩

theorem ProceedsFrom.sooner {bound' : Nat} (proceeds : ProceedsFrom bound takes stream p)
    (le : bound' ≤ bound) : ProceedsFrom bound' takes stream p := fun fed =>
  ⟨(proceeds fed).1, fun small => (proceeds fed).2 (Nat.lt_of_lt_of_le small le)⟩

theorem Proceeds.lasts (proceeds : Proceeds bound takes p) : Lasts bound p :=
  fun stream => (proceeds stream).weaken fun _ => False.elim

theorem Proceeds.sooner (proceeds : Proceeds (bound + 1) takes p) : Proceeds bound takes p :=
  fun stream => (proceeds stream).sooner (Nat.le_succ bound)

/-- One production after another. What is left to the second is still within the first's bound, or
one less where the first takes a token; and a token is taken if either takes one. -/
theorem ProceedsFrom.both (later : α → Nat) (more : α → β → Prop)
    (first : ProceedsFrom bound takes stream p)
    (next : ∀ x middle, p stream = .ok (x, middle) → ProceedsFrom (later x) (more x) middle (f x))
    (enough : ∀ x, bound ≤ later x ∨ takes x ∧ bound ≤ later x + 1)
    (either : ∀ x y, rest y → takes x ∨ more x y) : ProceedsFrom bound rest stream (p >>= f) := by
  intro fed
  obtain ⟨leaves, lasts⟩ := first fed
  have step : (p >>= f) stream = p stream >>= fun found => f found.1 found.2 := rfl
  cases run : p stream with
  | error failure =>
      rw [run] at step lasts
      refine ⟨fun y after done => ?_, fun small out => ?_⟩
      · rw [step] at done
        exact nomatch done
      · rw [step] at out
        cases out
        exact lasts small rfl
  | ok found =>
      obtain ⟨x, middle⟩ := found
      obtain ⟨front, fewer⟩ := leaves run
      obtain ⟨leaves', lasts'⟩ := next x middle run (front.fed fed)
      rw [run] at step
      refine ⟨fun y after done => ?_, fun small out => ?_⟩
      · rw [step] at done
        obtain ⟨back, fewer'⟩ := leaves' done
        have shrinks := back.suffix.length_le
        have shrunk := front.suffix.length_le
        refine ⟨front.trans back, fun said => ?_⟩
        rcases either x y said with taken | taken
        · exact Nat.lt_of_le_of_lt shrinks (fewer taken)
        · exact Nat.lt_of_lt_of_le (fewer' taken) shrunk
      · rw [step] at out
        refine lasts' ?_ out
        rcases enough x with more | ⟨taken, more⟩
        · have room := front.room_le
          omega
        · have room := front.room_lt fed (fewer taken)
          omega

theorem ProceedsFrom.bind (first : ProceedsFrom bound (fun _ => False) stream p)
    (next : ∀ x, Proceeds bound rest (f x)) : ProceedsFrom bound rest stream (p >>= f) :=
  first.both (fun _ => bound) (fun _ => rest) (fun x middle _ => next x middle)
    (fun _ => .inl (Nat.le_refl bound)) fun _ _ => .inr

theorem Proceeds.bind (first : Lasts bound p) (next : ∀ x, Proceeds bound rest (f x)) :
    Proceeds bound rest (p >>= f) := fun stream => (first stream).bind next

theorem ProceedsFrom.after (first : ProceedsFrom bound (fun _ => True) stream p)
    (next : ∀ x, Lasts bound (f x)) : ProceedsFrom bound rest stream (p >>= f) :=
  first.both (fun _ => bound) (fun _ _ => False) (fun x middle _ => next x middle)
    (fun _ => .inl (Nat.le_refl bound)) fun _ _ _ => .inl trivial

theorem Proceeds.after (first : Takes bound p) (next : ∀ x, Lasts bound (f x)) :
    Proceeds bound rest (p >>= f) := fun stream => (first stream).after next

theorem ProceedsFrom.took (first : ProceedsFrom (bound + 1) (fun _ => True) stream p)
    (next : ∀ x, Lasts bound (f x)) : ProceedsFrom (bound + 1) rest stream (p >>= f) :=
  first.both (fun _ => bound) (fun _ _ => False) (fun x middle _ => next x middle)
    (fun _ => .inr ⟨trivial, Nat.le_refl _⟩) fun _ _ _ => .inl trivial

theorem Proceeds.took (first : Takes (bound + 1) p) (next : ∀ x, Lasts bound (f x)) :
    Proceeds (bound + 1) rest (p >>= f) := fun stream => (first stream).took next

theorem Proceeds.result {x : α} (free : ¬ takes x) : Proceeds bound takes (pure x : Parser α) := by
  refine fun stream _ => ⟨fun y after done => ?_, fun _ out => nomatch out⟩
  cases done
  exact ⟨.refl stream, fun said => absurd said free⟩

theorem Proceeds.fail (error : ParseError) : Proceeds bound takes (Parser.fail error : Parser α) :=
  fun _ _ => ⟨fun _ _ done => (nomatch done), fun _ out => nomatch out⟩

theorem Proceeds.exhausted : Proceeds 0 takes (Parser.exhausted : Parser α) :=
  fun _ _ => ⟨fun _ _ done => (nomatch done), fun small => absurd small (Nat.not_lt_zero _)⟩

theorem ProceedsFrom.within (leaves : ProceedsFrom 0 takes stream p)
    (next : stream.Fed → stream.room < bound → ProceedsFrom bound takes stream p) :
    ProceedsFrom bound takes stream p := fun fed =>
  ⟨(leaves fed).1, fun small => (next fed small fed).2 small⟩

/-! ### Steps of a stream -/

theorem Lasts.current : Lasts bound Parser.current := by
  refine fun stream _ => ⟨fun token after done => ?_, fun _ out => nomatch out⟩
  cases done
  exact ⟨.refl stream, False.elim⟩

theorem Lasts.peek : Lasts bound Parser.peek := by
  refine fun stream _ => ⟨fun token after done => ?_, fun _ out => nomatch out⟩
  cases done
  exact ⟨.refl stream, False.elim⟩

theorem Lasts.pastNewlines : Lasts bound Parser.pastNewlines := by
  refine fun stream _ => ⟨fun token after done => ?_, fun _ out => nomatch out⟩
  cases done
  exact ⟨.refl stream, False.elim⟩

theorem Lasts.skip (skipped : Token → Bool) :
    Lasts bound (modify (·.dropWhile skipped) : Parser Unit) := by
  refine fun stream _ => ⟨fun _ after done => ?_, fun _ out => nomatch out⟩
  cases done
  exact ⟨.dropWhile skipped stream, False.elim⟩

theorem Lasts.advance : Lasts bound Parser.advance := by
  refine fun stream _ => ⟨fun token after done => ?_, fun _ out => nomatch out⟩
  cases done
  exact ⟨.tail stream, False.elim⟩

/-- A step takes the token ahead, unless that marks the end. -/
theorem ProceedsFrom.advance (shown : stream.current.kind ≠ .endOfInput) :
    ProceedsFrom bound (fun _ => True) stream Parser.advance := by
  refine fun fed => ⟨fun token after done => ?_, fun _ out => nomatch out⟩
  cases done
  exact ⟨.tail stream, fun _ => fed.tail_shorter shown⟩

theorem ProceedsFrom.skipNewlines (feed : stream.current.kind = .newline) :
    ProceedsFrom bound (fun _ => True) stream Parser.skipNewlines := by
  refine fun fed => ⟨fun _ after done => ?_, fun _ out => nomatch out⟩
  cases done
  refine ⟨.dropWhile _ stream, fun _ => ?_⟩
  obtain ⟨tokens, front⟩ := Stream.front_of_current fed.toSound (feed ▸ nofun)
  show (stream.ahead.dropWhile _).length < _
  rw [front, List.dropWhile_cons_of_pos (by simpa using feed)]
  exact Nat.lt_succ_of_le (List.dropWhile_sublist _).length_le

theorem Proceeds.skips {skipped : Token → Bool} {f : Unit → Parser α}
    (next : Proceeds bound takes (f ())) :
    Proceeds bound takes ((modify (·.dropWhile skipped) : Parser Unit) >>= f) :=
  (Lasts.skip skipped).bind fun _ => next

theorem Lasts.advances {f : Token → Parser α} (next : ∀ token, Proceeds bound takes (f token)) :
    Proceeds bound takes (Parser.advance >>= f) := Lasts.advance.bind next

theorem ProceedsFrom.advanced {f : Token → Parser α} (shown : stream.current.kind ≠ .endOfInput)
    (next : ∀ token, Lasts bound (f token)) :
    ProceedsFrom (bound + 1) takes stream (Parser.advance >>= f) :=
  (ProceedsFrom.advance shown).took next

theorem ProceedsFrom.of_current {f : Token → Parser α}
    (next : ProceedsFrom bound takes stream (f stream.current)) :
    ProceedsFrom bound takes stream (Parser.current >>= f) := next

theorem ProceedsFrom.peeked {f : Token → Parser α}
    (next : ∀ token, ProceedsFrom bound takes stream (f token)) :
    ProceedsFrom bound takes stream (Parser.peek >>= f) := next stream.peek

theorem ProceedsFrom.lookedPast {f : Token → Parser α}
    (next : ∀ token, ProceedsFrom bound takes stream (f token)) :
    ProceedsFrom bound takes stream (Parser.pastNewlines >>= f) := next stream.pastNewlines

theorem ProceedsFrom.checked {kind : TokenKind} {yes no : Parser α}
    (here : stream.current.kind = kind → ProceedsFrom bound takes stream yes)
    (away : ProceedsFrom bound takes stream no) :
    ProceedsFrom bound takes stream
      (Parser.check kind >>= fun found => if found = true then yes else no) := by
  have step : (Parser.check kind >>= fun found => if found = true then yes else no) stream
      = (if decide (stream.current.kind = kind) = true then yes else no) stream := rfl
  intro fed
  rw [step]
  split
  · next same => exact here (of_decide_eq_true same) fed
  · exact away fed

theorem Proceeds.checked {kind : TokenKind} {yes no : Parser α} (here : Proceeds bound takes yes)
    (away : Proceeds bound takes no) :
    Proceeds bound takes (Parser.check kind >>= fun found => if found = true then yes else no) :=
  fun stream => .checked (fun _ => here stream) (away stream)

theorem Lasts.check (kind : TokenKind) : Lasts bound (Parser.check kind) :=
  Lasts.current.bind fun _ => .result id

theorem Proceeds.unexpected (wanted : Wanted) :
    Proceeds bound takes (Parser.unexpected wanted : Parser α) :=
  Lasts.current.bind fun _ => .fail _

theorem Proceeds.unexpecteds (wanted : Wanted) {f : γ → Parser α} :
    Proceeds bound takes (Parser.unexpected wanted >>= f) :=
  fun _ _ => ⟨fun _ _ done => (nomatch done), fun _ out => nomatch out⟩

theorem Proceeds.fails (error : ParseError) {f : γ → Parser α} :
    Proceeds bound takes (Parser.fail error >>= f) :=
  fun _ _ => ⟨fun _ _ done => (nomatch done), fun _ out => nomatch out⟩

theorem Proceeds.eat {kind : TokenKind} (plain : kind.plain) :
    Proceeds bound (· = true) (Parser.eat kind) := by
  refine fun stream => .checked (fun here => ?_) (Proceeds.result (by exact nofun) stream)
  exact (ProceedsFrom.advance (here ▸ TokenKind.shown_of_plain plain)).after fun _ => .result id

theorem Proceeds.eaten {kind : TokenKind} (plain : kind.plain) {yes no : Parser α}
    (here : Lasts bound yes) (away : Proceeds bound takes no) :
    Proceeds bound takes (Parser.eat kind >>= fun found => if found = true then yes else no) := by
  refine fun stream => (Proceeds.eat plain stream).both (fun _ => bound)
    (fun found x => found = false ∧ takes x) (fun found middle _ => ?_)
    (fun _ => .inl (Nat.le_refl _)) fun found x said => ?_
  · cases found with
    | true => exact (here middle).weaken fun _ bad => nomatch bad.1
    | false => exact (away middle).weaken fun _ said => said.2
  · cases found with
    | true => exact .inl rfl
    | false => exact .inr ⟨rfl, said⟩

theorem Takes.expect {kind : TokenKind} (plain : kind.plain) :
    Takes bound (Parser.expect kind) :=
  fun stream => .checked (fun here => .advance (here ▸ TokenKind.shown_of_plain plain)) (Proceeds.unexpected _ stream)

theorem Proceeds.expects {kind : TokenKind} (plain : kind.plain) {f : Token → Parser α}
    (next : ∀ token, Lasts bound (f token)) :
    Proceeds bound takes (Parser.expect kind >>= f) := (Takes.expect plain).after next

theorem Takes.identifier : Takes bound Parser.identifier :=
  fun stream => .checked
    (fun here => (ProceedsFrom.advance (here ▸ nofun)).after fun _ => .result id)
    (Proceeds.unexpected _ stream)

theorem Takes.memberName : Takes bound Parser.memberName := by
  refine fun stream => .of_current ?_
  split
  · next member =>
    have spelled : stream.current.text ≠ "" := fun empty => by
      unfold Parser.isMemberName at member
      split at member
      · exact nomatch member
      · exact nomatch member
      · rw [empty] at member
        exact nomatch member
    refine fun fed => (ProceedsFrom.advance (fed.shown spelled)).after (fun _ => .result id) fed
  · exact Proceeds.unexpected _ stream

/-! ### Loops -/

/-- A loop ends: every round but the last takes a token, and there is a round for every token and
one more. -/
theorem Lasts.loop {round : β → Parser (Parser.Round β γ)}
    (step : ∀ state, Proceeds bound Parser.Round.GoesOn (round state)) (state : β) :
    Lasts bound (Parser.loop round state) := by
  have rounds : ∀ count state (stream : Stream), stream.ahead.length < count →
      ProceedsFrom bound (fun _ => False) stream (Parser.iterate round count state) := by
    intro count
    induction count with
    | zero => exact fun _ _ few => absurd few (Nat.not_lt_zero _)
    | succ count ih =>
        intro state stream few fed
        refine ((step state stream).both (fun _ => bound) (fun _ _ => False)
          (fun next middle run => ?_) (fun _ => .inl (Nat.le_refl bound)) fun _ _ => False.elim) fed
        cases next with
        | again state' =>
            have fewer := ((step state stream fed).1 run).2 trivial
            exact ih state' middle (Nat.lt_of_lt_of_le fewer (Nat.le_of_lt_succ few))
        | done result => exact Proceeds.result id middle
  exact fun stream => rounds _ state stream (Nat.lt_succ_of_le stream.length_le)

theorem Lasts.belated {kind : TokenKind} {f : Token → Parser α} {other : Parser α}
    (yes : ∀ token, Lasts bound (f token)) (no : Lasts bound other) :
    Lasts bound (Parser.pastNewlines >>= fun token =>
      if token.kind = kind then Parser.skipNewlines >>= fun _ => Parser.advance >>= f
      else other) := by
  refine Lasts.pastNewlines.bind fun token => ?_
  split
  · exact .skips (Lasts.advances yes)
  · exact no

end Rules

namespace Parser

variable {α : Type}

/-- One item of a list in brackets and the comma after it, or the end of the list. -/
def listedRound (close : Mark) (item : Parser α) (done : List α) :
    Parser (Round (List α) (List α)) := do
  skipNewlines
  if ← eat (.mark close) then return .done done.reverse
  let next ← item
  skipNewlines
  if ← eat (.mark .comma) then return .again (next :: done)
  skipNewlines
  let _ ← expect (.mark close)
  return .done (next :: done).reverse

theorem listed_eq (close : Mark) (item : Parser α) :
    listed close item = loop (listedRound close item) [] := rfl

theorem listedRound_proceeds {bound : Nat} {close : Mark} {item : Parser α}
    (takes : Takes bound item) (done : List α) :
    Proceeds bound Round.GoesOn (listedRound close item done) := by
  refine .skips (.eaten rfl (.result id) (takes.after fun next => .skips ?_))
  exact .eaten rfl (.result id) (.skips (.expects rfl fun _ => .result id))

end Parser

theorem Lasts.listed {α : Type} {bound : Nat} {close : Mark} {item : Parser α}
    (takes : Takes bound item) : Lasts bound (Parser.listed close item) := by
  rw [Parser.listed_eq]
  exact .loop (Parser.listedRound_proceeds takes) []

end Rill

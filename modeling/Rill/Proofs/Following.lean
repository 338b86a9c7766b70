import Rill.Grammar.Program
import Rill.Proofs.Scanning
import Rill.Proofs.Relocated

/-!
# Productions on a longer text

A production reads the same from a stream and from a longer one whose first tokens are the same,
further down in their text. It can tell the two apart only at the end of the shorter one. A
production that comes to that end inside something unfinished fails there, so that nothing needs to
be said of it; one that may end there sees a line feed in the longer stream, which ends it too.
-/

set_option autoImplicit false

namespace Rill

/-! ## Brackets -/

namespace TokenKind

def weight : TokenKind → Int
  | mark .openParen | mark .openBracket | mark .openBrace => 1
  | mark .closeParen | mark .closeBracket | mark .closeBrace => -1
  | _ => 0

/-- A kind that neither a line feed nor the end of input has, and that says nothing of places. -/
def plain : TokenKind → Bool
  | newline | endOfInput | template _ => false
  | _ => true

/-- A kind by which a statement goes on from an earlier line. -/
def continues : TokenKind → Bool
  | mark .dot | mark .questionDot | keyword .else_ | keyword .catch_ | keyword .finally_ => true
  | _ => false

theorem continues_iff {kind : TokenKind} : kind.continues ↔ kind = mark .dot
    ∨ kind = mark .questionDot ∨ kind = keyword .else_ ∨ kind = keyword .catch_
    ∨ kind = keyword .finally_ := by
  cases kind with
  | mark m => cases m <;> simp [continues]
  | keyword word => cases word <;> simp [continues]
  | _ => simp [continues]

theorem continues_below (lines : Nat) (kind : TokenKind) :
    (kind.below lines).continues = kind.continues := by
  cases kind <;> rfl

theorem below_eq_iff (lines : Nat) {kind : TokenKind} (plain : kind.plain) (other : TokenKind) :
    other.below lines = kind ↔ other = kind := by
  cases other with
  | template pieces =>
      constructor
      · rintro rfl
        exact nomatch plain
      · rintro rfl
        exact nomatch plain
  | _ => exact Iff.rfl

@[simp] theorem weight_below (lines : Nat) (kind : TokenKind) :
    (kind.below lines).weight = kind.weight := by
  cases kind <;> rfl

end TokenKind

def netOpen : List Token → Int
  | [] => 0
  | token :: rest => token.kind.weight + netOpen rest

@[simp] theorem netOpen_nil : netOpen [] = 0 := rfl

@[simp] theorem netOpen_cons (token : Token) (tokens : List Token) :
    netOpen (token :: tokens) = token.kind.weight + netOpen tokens := rfl

@[simp] theorem netOpen_append (front back : List Token) :
    netOpen (front ++ back) = netOpen front + netOpen back := by
  induction front with
  | nil => exact (Int.zero_add _).symm
  | cons token rest ih => rw [List.cons_append, netOpen_cons, netOpen_cons, ih, Int.add_assoc]

/-! ## Genuine tokens -/

namespace Token

variable {token : Token}

theorem Genuine.kind_ne_end (genuine : token.Genuine) : token.kind ≠ .endOfInput := by
  obtain ⟨cursor, last, c, rest, lexeme, read, -, rfl⟩ := genuine
  exact cursor.kind_token (Lexeme.read_form read).2

theorem Genuine.feed_text (genuine : token.Genuine) (feed : token.kind = .newline) :
    token.text = "\n" := by
  obtain ⟨cursor, last, c, rest, lexeme, read, -, rfl⟩ := genuine
  cases (Lexeme.read_form read).2 with
  | feed kind text => exact text
  | text kind | template kind _ | number kind _ | mark kind _ =>
      simp [Cursor.token, kind] at feed
  | word starts rest =>
      simp only [Cursor.token, Lexeme.word] at feed
      split at feed <;> simp at feed

theorem Genuine.number_read (genuine : token.Genuine) (kind : token.kind = .number) :
    ∃ number, Number.read token.text = some number := by
  obtain ⟨cursor, last, c, rest, lexeme, read, -, rfl⟩ := genuine
  have plain := cursor.plain_of_kind_token kind
  cases (Lexeme.read_form read).2 with
  | number _ value => exact Option.isSome_iff_exists.mp value
  | feed other _ | text other | template other _ | mark other _ => exact nomatch plain.symm.trans other
  | word starts rest =>
      simp only [Lexeme.word] at plain
      split at plain <;> cases plain

theorem Genuine.hole_placed (genuine : token.Genuine) {pieces : List TemplatePiece}
    (template : token.kind = .template pieces) {source : String} {pos : Position}
    (member : .hole source pos ∈ pieces) : pos.Placed := by
  obtain ⟨cursor, last, c, rest, lexeme, read, placed, rfl⟩ := genuine
  cases (Lexeme.read_form read).2 with
  | feed kind _ | text kind | number kind _ | mark kind _ =>
      simp [Cursor.token, kind] at template
  | word starts rest =>
      simp only [Cursor.token, Lexeme.word] at template
      split at template <;> simp at template
  | template kind _ =>
      simp only [Cursor.token, kind, TokenKind.template.injEq] at template
      subst template
      obtain ⟨piece, -, same⟩ := List.mem_map.mp member
      cases piece with
      | text cooked => simp [Cursor.piece] at same
      | hole source' offset =>
          rw [Cursor.piece, TemplatePiece.hole.injEq] at same
          exact same.2 ▸ placed.advance _

end Token

namespace Stream

/-- A stream of tokens that are read from a text. -/
structure Sound (stream : Stream) : Prop where
  genuine : ∀ token ∈ stream.ahead, token.Genuine
  kind : stream.finish.kind = .endOfInput
  text : stream.finish.text = ""

/-- Nothing but line feeds is left. -/
structure Spent (stream : Stream) : Prop extends Sound stream where
  feeds : ∀ token ∈ stream.ahead, token.kind = .newline

/-- What a production has taken: some tokens at the front, among which so many more brackets open
than close. -/
structure Taken (opens : Int) (before after : Stream) : Prop where
  suffix : after.ahead <:+ before.ahead
  finish : after.finish = before.finish
  size : after.size = before.size
  opens : netOpen before.ahead = netOpen after.ahead + opens

namespace Taken

variable {opens more : Int} {first second third : Stream}

theorem refl (stream : Stream) : Taken 0 stream stream :=
  ⟨List.suffix_refl _, rfl, rfl, (Int.add_zero _).symm⟩

theorem trans (front : Taken opens first second) (back : Taken more second third) :
    Taken (opens + more) first third where
  suffix := back.suffix.trans front.suffix
  finish := back.finish.trans front.finish
  size := back.size.trans front.size
  opens := by rw [front.opens, back.opens]; omega

theorem sound (taken : Taken opens first second) (sound : first.Sound) : second.Sound where
  genuine token member := sound.genuine token (taken.suffix.subset member)
  kind := taken.finish ▸ sound.kind
  text := taken.finish ▸ sound.text

theorem spent (taken : Taken opens first second) (spent : first.Spent) : second.Spent where
  toSound := taken.sound spent.toSound
  feeds token member := spent.feeds token (taken.suffix.subset member)

end Taken

/-- What may come after the end of a program: nothing, or a line feed and then, on later lines,
nothing that goes on with a statement. -/
structure Seam (more : List Token) : Prop where
  feed : ∀ token ∈ more.head?, token.kind = .newline ∧ token.text = "\n"
  fresh : ∀ token ∈ (more.dropWhile (·.kind = .newline)).head?,
    token.kind.continues = false

theorem Seam.nil : Seam [] := ⟨by simp, by simp⟩

/-- The far stream has the tokens of the near one, so many lines further down, and more after
them. -/
structure Mimics (lines : Nat) (more : List Token) (near far : Stream) : Prop where
  ahead : far.ahead = near.ahead.map (Token.below lines) ++ more
  size : near.size ≤ far.size
  kind : far.finish.kind = .endOfInput
  text : far.finish.text = ""

end Stream

theorem Parser.bind_eq_ok {α β : Type} {p : Parser α} {f : α → Parser β} {stream after : Stream}
    {y : β} : (p >>= f) stream = .ok (y, after) ↔
      ∃ x middle, p stream = .ok (x, middle) ∧ f x middle = .ok (y, after) := by
  show (p stream >>= fun found => f found.1 found.2) = _ ↔ _
  cases run : p stream with
  | error failure => exact ⟨nofun, fun ⟨_, _, bad, _⟩ => nomatch bad⟩
  | ok found =>
      constructor
      · exact fun done => ⟨found.1, found.2, rfl, done⟩
      · rintro ⟨x, middle, same, done⟩
        cases same
        exact done

namespace Stream.Mimics

variable {lines : Nat} {more : List Token} {near far : Stream}

theorem current (mimics : Mimics lines more near far) {token : Token} {rest : List Token}
    (front : near.ahead = token :: rest) : far.current = token.below lines := by
  rw [Stream.current, mimics.ahead, front]
  rfl

theorem tail (mimics : Mimics lines more near far) {token : Token} {rest : List Token}
    (front : near.ahead = token :: rest) : Mimics lines more near.tail far.tail where
  ahead := by
    show far.ahead.tail = near.ahead.tail.map (Token.below lines) ++ more
    rw [mimics.ahead, front]
    rfl
  size := mimics.size
  kind := mimics.kind
  text := mimics.text

theorem current_of_nil (mimics : Mimics lines more near far) (seam : Seam more)
    (empty : near.ahead = []) : far.current.kind = .newline ∨ far.current.kind = .endOfInput := by
  rw [Stream.current, mimics.ahead, empty]
  cases more with
  | nil => exact .inr mimics.kind
  | cons feed rest => exact .inl (seam.feed feed rfl).1

theorem dropWhile (mimics : Mimics lines more near far) (p : Token → Bool)
    (alike : ∀ token, p (token.below lines) = p token) (left : near.ahead.dropWhile p ≠ []) :
    Mimics lines more (near.dropWhile p) (far.dropWhile p) where
  ahead := by
    show far.ahead.dropWhile p = (near.ahead.dropWhile p).map (Token.below lines) ++ more
    have kept : (near.ahead.map (Token.below lines)).dropWhile p
        = (near.ahead.dropWhile p).map (Token.below lines) := by
      rw [List.dropWhile_map]
      congr 2
      exact funext alike
    rw [mimics.ahead, List.dropWhile_append, kept]
    simp [left]
  size := mimics.size
  kind := mimics.kind
  text := mimics.text

end Stream.Mimics

namespace Parser.Round

variable {ε ε' ζ ζ' : Type}

def map (again : ε → ε') (done : ζ → ζ') : Round ε ζ → Round ε' ζ'
  | .again state => .again (again state)
  | .done result => .done (done result)

/-- A round that is not the last takes as many closing brackets as opening ones. -/
def opens (last : Int) : Round ε ζ → Int
  | .again _ => 0
  | .done _ => last

/-- After any round but the last the stream may be spent. -/
def spare (last : ζ → Prop) : Round ε ζ → Prop
  | .again _ => True
  | .done result => last result

end Parser.Round

/-! ## Productions at the end of a text -/

section Judgements

variable {α β γ δ : Type}

open Rill.Stream (Taken Seam Mimics)

/-- On a stream that has nothing but line feeds left, the production leaves such a stream and ends
only with results that are `spare`. -/
def Stops (spare : α → Prop) (p : Parser α) : Prop :=
  ∀ ⦃near : Stream⦄, near.Spent → ∀ ⦃x after⦄, p near = .ok (x, after) → spare x ∧ after.Spent

/-- The production fails on a stream that has nothing but line feeds left. -/
abbrev Dead (p : Parser α) : Prop := Stops (fun _ => False) p

/-- What `p` reads from the near stream `q` reads from each stream that mimics it, and what they
leave mimics each other again. Only with a spare result may the near stream be spent instead. -/
def FollowsFrom (lines : Nat) (near : Stream) (opens : α → Int) (spare : α → Prop) (image : α → β)
    (p : Parser α) (q : Parser β) : Prop :=
  near.Sound → ∀ ⦃x after⦄, p near = .ok (x, after) →
    Taken (opens x) near after
    ∧ ∀ ⦃more far⦄, Seam more → Mimics lines more near far →
      (spare x ∧ after.Spent)
      ∨ ∃ after', q far = .ok (image x, after') ∧ Mimics lines more after after'

def FollowsBy (lines : Nat) (opens : α → Int) (spare : α → Prop) (image : α → β) (p : Parser α)
    (q : Parser β) : Prop :=
  ∀ near, FollowsFrom lines near opens spare image p q

/-- What `p` reads `q` reads as well, and as many brackets close in it as open. -/
abbrev FollowsFlat (lines : Nat) (image : α → β) (p : Parser α) (q : Parser β) : Prop :=
  FollowsBy lines (fun _ => 0) (fun _ => False) image p q

namespace Stops

variable {spare spare' : α → Prop} {p : Parser α}

theorem mono (stops : Stops spare p) (weaker : ∀ x, spare x → spare' x) : Stops spare' p :=
  fun _ spent _ _ done => (stops spent done).imp_left (weaker _)

theorem bind {f : α → Parser β} {rest : β → Prop} (first : Stops spare p)
    (next : ∀ x, spare x → Stops rest (f x)) : Stops rest (p >>= f) := by
  intro near spent y after done
  obtain ⟨x, middle, run, later⟩ := Parser.bind_eq_ok.mp done
  obtain ⟨good, left⟩ := first spent run
  exact next x good left later

theorem result {x : α} (good : spare x) : Stops spare (pure x : Parser α) := by
  intro near spent y after done
  cases done
  exact ⟨good, spent⟩

end Stops

theorem Dead.bind {f : α → Parser β} {rest : β → Prop} {p : Parser α} (dead : Dead p) :
    Stops rest (p >>= f) := Stops.bind dead fun _ bad => bad.elim

theorem Dead.fail (error : ParseError) {spare : α → Prop} : Stops spare (Parser.fail error) :=
  fun _ _ _ _ done => nomatch done

namespace FollowsFrom

variable {lines : Nat} {near : Stream} {opens : α → Int} {spare : α → Prop} {image : α → β}
  {p : Parser α} {q : Parser β}

theorem bind {f : α → Parser γ} {f' : β → Parser δ} {image' : γ → δ} {total : γ → Int}
    {rest : γ → Prop} (first : FollowsFrom lines near opens spare image p q)
    (next : ∀ x, FollowsBy lines (fun y => total y - opens x) rest image' (f x) (f' (image x)))
    (stops : ∀ x, spare x → Stops rest (f x)) :
    FollowsFrom lines near total rest image' (p >>= f) (q >>= f') := by
  intro sound y after done
  obtain ⟨x, middle, run, later⟩ := Parser.bind_eq_ok.mp done
  obtain ⟨taken, follow⟩ := first sound run
  obtain ⟨taken', follow'⟩ := next x middle (taken.sound sound) later
  refine ⟨?_, fun more far seam mimics => ?_⟩
  · have both := taken.trans taken'
    rwa [Int.add_comm, Int.sub_add_cancel] at both
  · rcases follow seam mimics with ⟨good, spent⟩ | ⟨far', run', mimics'⟩
    · exact .inl (stops x good spent later)
    · rcases follow' seam mimics' with spent | ⟨far'', run'', mimics''⟩
      · exact .inl spent
      · exact .inr ⟨far'', Parser.bind_eq_ok.mpr ⟨_, far', run', run''⟩, mimics''⟩

end FollowsFrom

namespace FollowsBy

variable {lines : Nat} {opens : α → Int} {spare : α → Prop} {image : α → β} {p : Parser α}
  {q : Parser β}

theorem bind {f : α → Parser γ} {f' : β → Parser δ} {image' : γ → δ} {total : γ → Int}
    {rest : γ → Prop} (first : FollowsBy lines opens spare image p q)
    (next : ∀ x, FollowsBy lines (fun y => total y - opens x) rest image' (f x) (f' (image x)))
    (stops : ∀ x, spare x → Stops rest (f x)) :
    FollowsBy lines total rest image' (p >>= f) (q >>= f') :=
  fun near => (first near).bind next stops

theorem result {x : α} {y : β} (flat : opens x = 0) (same : y = image x) :
    FollowsBy lines opens spare image (pure x) (pure y) := by
  intro near sound x' after done
  cases done
  refine ⟨flat ▸ .refl near, fun more far seam mimics => .inr ⟨far, ?_, mimics⟩⟩
  rw [same]
  rfl

theorem fail (error : ParseError) : FollowsBy lines opens spare image (Parser.fail error) q :=
  fun _ _ _ _ done => nomatch done

theorem failed (error : ParseError) {f : γ → Parser α} :
    FollowsBy lines opens spare image (Parser.fail error >>= f) q :=
  fun _ _ _ _ done => nomatch done

/-- A production that looks at the token ahead. At the end of the near stream the far one shows a
line feed or its own end. -/
theorem of_current {f : Token → Parser α} {f' : Token → Parser β}
    (ends : ∀ near token token', near.ahead = [] → token.kind = .endOfInput →
      token'.kind = .newline ∨ token'.kind = .endOfInput →
      FollowsFrom lines near opens spare image (f token) (f' token'))
    (starts : ∀ near token rest, near.ahead = token :: rest →
      FollowsFrom lines near opens spare image (f token) (f' (token.below lines))) :
    FollowsBy lines opens spare image (Parser.current >>= f) (Parser.current >>= f') := by
  intro near sound x after done
  have run : f near.current near = .ok (x, after) := done
  cases front : near.ahead with
  | nil =>
      have at_ : near.current = near.finish := by rw [Stream.current, front]; rfl
      rw [at_] at run
      have follows {token' : Token} (kind : token'.kind = .newline ∨ token'.kind = .endOfInput) :=
        ends near near.finish token' front sound.kind kind sound run
      exact ⟨(follows (.inr sound.kind)).1, fun more far seam mimics =>
        (follows (mimics.current_of_nil seam front)).2 seam mimics⟩
  | cons token rest =>
      have at_ : near.current = token := by rw [Stream.current, front]; rfl
      rw [at_] at run
      obtain ⟨taken, follow⟩ := starts near token rest front sound run
      refine ⟨taken, fun more far seam mimics => (follow seam mimics).imp_right ?_⟩
      rintro ⟨far', run', mimics'⟩
      refine ⟨far', ?_, mimics'⟩
      show f' far.current far = _
      rw [mimics.current front]
      exact run'

end FollowsBy

/-! ## Tokens one at a time -/

section Steps

variable {lines : Nat} {near : Stream} {opens : α → Int} {spare : α → Prop} {image : α → β}
  {p p' : Parser α} {q q' : Parser β} {kind : TokenKind}

theorem Stream.Spent.current (spent : near.Spent) :
    (near.current.kind = .newline ∧ near.current.text = "\n")
      ∨ (near.current.kind = .endOfInput ∧ near.current.text = "") := by
  rw [Stream.current]
  cases front : near.ahead with
  | nil => exact .inr ⟨spent.kind, spent.text⟩
  | cons token rest =>
      have first : token ∈ near.ahead := front ▸ List.mem_cons_self
      have feed := spent.feeds token first
      exact .inl ⟨feed, (spent.genuine token first).feed_text feed⟩

theorem Stream.Spent.current_ne (spent : near.Spent) (plain : kind.plain) :
    near.current.kind ≠ kind := by
  rintro rfl
  rcases spent.current with ⟨same, -⟩ | ⟨same, -⟩ <;> (rw [same] at plain; exact nomatch plain)

theorem Stream.Spent.tail (spent : near.Spent) : near.tail.Spent where
  genuine token member := spent.genuine token (List.mem_of_mem_tail member)
  kind := spent.kind
  text := spent.text
  feeds token member := spent.feeds token (List.mem_of_mem_tail member)

theorem Stops.check (plain : kind.plain) : Stops (· = false) (Parser.check kind) := by
  intro near spent x after done
  cases done
  exact ⟨decide_eq_false (spent.current_ne plain), spent⟩

theorem Stops.eat (plain : kind.plain) : Stops (· = false) (Parser.eat kind) :=
  (Stops.check plain).bind fun x absent => by rw [absent]; exact Stops.result rfl

theorem Stops.expect (plain : kind.plain) : Dead (Parser.expect kind) :=
  (Stops.check plain).bind fun x absent => by
    rw [absent]
    exact fun _ _ _ _ done => nomatch done

theorem Stops.identifier : Dead Parser.identifier :=
  (Stops.check rfl).bind fun x absent => by
    rw [absent]
    exact fun _ _ _ _ done => nomatch done

theorem Stops.memberName : Dead Parser.memberName := by
  intro near spent x after done
  obtain ⟨token, middle, run, later⟩ := Parser.bind_eq_ok.mp done
  cases run
  have unnamed : Parser.isMemberName near.current = false := by
    rcases spent.current with ⟨kind, text⟩ | ⟨kind, text⟩ <;>
      simp +decide [Parser.isMemberName, kind, text, isNameStart]
  rw [unnamed] at later
  exact nomatch later

theorem Stops.advance : Stops (fun token => token.kind.plain = false) Parser.advance := by
  intro near spent x after done
  cases done
  refine ⟨?_, spent.tail⟩
  rcases spent.current with ⟨kind, -⟩ | ⟨kind, -⟩ <;> rw [kind] <;> rfl

theorem Stops.skip (p : Token → Bool) :
    Stops (fun _ => True) (modify (·.dropWhile p) : Parser Unit) := by
  intro near spent x after done
  cases done
  have fewer : near.ahead.dropWhile p <:+ near.ahead := List.dropWhile_suffix p
  exact ⟨trivial, ⟨fun token member => spent.genuine token (fewer.subset member), spent.kind,
    spent.text⟩, fun token member => spent.feeds token (fewer.subset member)⟩

/-! ### Steps followed -/

theorem Stream.current_of_front {token : Token} {rest : List Token}
    (front : near.ahead = token :: rest) : near.current = token := by
  rw [Stream.current, front]
  rfl

theorem Stream.front_of_current (sound : near.Sound) (here : near.current.kind ≠ .endOfInput) :
    ∃ rest, near.ahead = near.current :: rest := by
  cases front : near.ahead with
  | nil =>
      rw [Stream.current, front] at here
      exact absurd sound.kind here
  | cons token rest => exact ⟨rest, by rw [Stream.current_of_front front]⟩

theorem Stream.Mimics.current_kind {more : List Token} {far : Stream} (seam : Seam more)
    (mimics : Mimics lines more near far) (sound : near.Sound) (plain : kind.plain) :
    far.current.kind = kind ↔ near.current.kind = kind := by
  cases front : near.ahead with
  | nil =>
      have ends : near.current.kind = .endOfInput := by
        rw [Stream.current, front]
        exact sound.kind
      constructor
      · rintro rfl
        rcases mimics.current_of_nil seam front with same | same <;>
          (rw [same] at plain; exact nomatch plain)
      · rintro rfl
        rw [ends] at plain
        exact nomatch plain
  | cons token rest =>
      rw [mimics.current front, Stream.current_of_front front]
      exact TokenKind.below_eq_iff lines plain token.kind

theorem Stream.Taken.tail {token : Token} {rest : List Token} (front : near.ahead = token :: rest) :
    Taken token.kind.weight near near.tail where
  suffix := List.tail_suffix near.ahead
  finish := rfl
  size := rfl
  opens := by
    show netOpen near.ahead = netOpen near.ahead.tail + _
    rw [front, netOpen_cons, List.tail_cons, Int.add_comm]

theorem FollowsFrom.of (follows : FollowsBy lines opens spare image p q) :
    FollowsFrom lines near opens spare image p q := follows near

theorem FollowsFrom.genuine {token : Token} {rest : List Token}
    (front : near.ahead = token :: rest)
    (next : token.Genuine → FollowsFrom lines near opens spare image p q) :
    FollowsFrom lines near opens spare image p q :=
  fun sound => next (sound.genuine token (front ▸ List.mem_cons_self)) sound

theorem FollowsFrom.advanceOn {token : Token} {rest : List Token}
    (front : near.ahead = token :: rest) {f : Token → Parser α} {f' : Token → Parser β}
    (next : FollowsFrom lines near.tail (fun x => opens x - token.kind.weight) spare image (f token)
      (f' (token.below lines))) :
    FollowsFrom lines near opens spare image (Parser.advance >>= f) (Parser.advance >>= f') := by
  intro sound x after done
  have run : f near.current near.tail = .ok (x, after) := done
  rw [Stream.current_of_front front] at run
  have step := Taken.tail front
  obtain ⟨taken, follow⟩ := next (step.sound sound) run
  refine ⟨?_, fun more far seam mimics => ?_⟩
  · have both := step.trans taken
    rwa [Int.add_comm, Int.sub_add_cancel] at both
  · refine (follow seam (mimics.tail front)).imp_right ?_
    rintro ⟨far', run', mimics'⟩
    refine ⟨far', ?_, mimics'⟩
    show f' far.current far.tail = _
    rw [mimics.current front]
    exact run'

theorem FollowsFrom.advance {token : Token} {rest : List Token}
    (front : near.ahead = token :: rest) {f : Token → Parser α} {f' : Token → Parser β}
    (next : FollowsBy lines (fun x => opens x - token.kind.weight) spare image (f token)
      (f' (token.below lines))) :
    FollowsFrom lines near opens spare image (Parser.advance >>= f) (Parser.advance >>= f') :=
  .advanceOn front (.of next)

theorem FollowsBy.cast {opens' : α → Int} (follows : FollowsBy lines opens spare image p q)
    (same : ∀ x, opens x = opens' x) : FollowsBy lines opens' spare image p q :=
  funext same ▸ follows

theorem FollowsFrom.advanceFlat {token : Token} {rest : List Token}
    (front : near.ahead = token :: rest) (flat : token.kind.weight = 0) {f : Token → Parser α}
    {f' : Token → Parser β}
    (next : FollowsBy lines opens spare image (f token) (f' (token.below lines))) :
    FollowsFrom lines near opens spare image (Parser.advance >>= f) (Parser.advance >>= f') :=
  .advance front (next.cast fun x => by rw [flat, Int.sub_zero])

theorem FollowsFrom.current {token : Token} {rest : List Token}
    (front : near.ahead = token :: rest) {f : Token → Parser α} {f' : Token → Parser β}
    (next : FollowsFrom lines near opens spare image (f token) (f' (token.below lines))) :
    FollowsFrom lines near opens spare image (Parser.current >>= f) (Parser.current >>= f') := by
  intro sound x after done
  have run : f near.current near = .ok (x, after) := done
  rw [Stream.current_of_front front] at run
  obtain ⟨taken, follow⟩ := next sound run
  refine ⟨taken, fun more far seam mimics => (follow seam mimics).imp_right ?_⟩
  rintro ⟨far', run', mimics'⟩
  refine ⟨far', ?_, mimics'⟩
  show f' far.current far = _
  rw [mimics.current front]
  exact run'

theorem FollowsFrom.check (plain : kind.plain)
    (yes : ∀ token rest, near.ahead = token :: rest → token.kind = kind →
      FollowsFrom lines near opens spare image p q)
    (no : FollowsFrom lines near opens spare image p' q') :
    FollowsFrom lines near opens spare image
      (Parser.check kind >>= fun found => if found = true then p else p')
      (Parser.check kind >>= fun found => if found = true then q else q') := by
  intro sound x after done
  have run : (if decide (near.current.kind = kind) = true then p else p') near = .ok (x, after) :=
    done
  by_cases here : near.current.kind = kind
  · rw [decide_eq_true here, if_pos rfl] at run
    obtain ⟨rest, front⟩ := Stream.front_of_current sound fun bad => by
      rw [here] at bad
      rw [bad] at plain
      exact nomatch plain
    obtain ⟨taken, follow⟩ := yes _ rest front here sound run
    refine ⟨taken, fun more far seam mimics => (follow seam mimics).imp_right ?_⟩
    rintro ⟨far', run', mimics'⟩
    refine ⟨far', ?_, mimics'⟩
    show (if decide (far.current.kind = kind) = true then q else q') far = _
    rwa [decide_eq_true ((mimics.current_kind seam sound plain).mpr here), if_pos rfl]
  · rw [decide_eq_false here, if_neg Bool.false_ne_true] at run
    obtain ⟨taken, follow⟩ := no sound run
    refine ⟨taken, fun more far seam mimics => (follow seam mimics).imp_right ?_⟩
    rintro ⟨far', run', mimics'⟩
    refine ⟨far', ?_, mimics'⟩
    show (if decide (far.current.kind = kind) = true then q else q') far = _
    have there : ¬ far.current.kind = kind :=
      fun bad => here ((mimics.current_kind seam sound plain).mp bad)
    rwa [decide_eq_false there, if_neg Bool.false_ne_true]

theorem FollowsFrom.of_peek {first : Token} {rest : List Token}
    (front : near.ahead = first :: rest) {f : Token → Parser α} {f' : Token → Parser β}
    (ends : ∀ token token', token.kind = .endOfInput →
      token'.kind = .newline ∨ token'.kind = .endOfInput →
      FollowsFrom lines near opens spare image (f token) (f' token'))
    (starts : ∀ second rest', rest = second :: rest' →
      FollowsFrom lines near opens spare image (f second) (f' (second.below lines))) :
    FollowsFrom lines near opens spare image (Parser.peek >>= f) (Parser.peek >>= f') := by
  intro sound x after done
  have run : f near.tail.current near = .ok (x, after) := done
  have tail : near.tail.ahead = rest := by
    show near.ahead.tail = rest
    rw [front, List.tail_cons]
  cases rest with
  | nil =>
      have kind : near.tail.current.kind = .endOfInput := by
        rw [Stream.current, tail]
        exact sound.kind
      have follows {token' : Token} (kind' : token'.kind = .newline ∨ token'.kind = .endOfInput) :=
        ends near.tail.current token' kind kind' sound run
      exact ⟨(follows (.inr kind)).1, fun more far seam mimics =>
        (follows ((mimics.tail front).current_of_nil seam tail)).2 seam mimics⟩
  | cons second rest' =>
      rw [Stream.current_of_front tail] at run
      obtain ⟨taken, follow⟩ := starts second rest' rfl sound run
      refine ⟨taken, fun more far seam mimics => (follow seam mimics).imp_right ?_⟩
      rintro ⟨far', run', mimics'⟩
      refine ⟨far', ?_, mimics'⟩
      show f' far.tail.current far = _
      rw [(mimics.tail front).current tail]
      exact run'

theorem FollowsFrom.peek (plain : kind.plain) {first : Token} {rest : List Token}
    (front : near.ahead = first :: rest)
    (yes : ∀ second rest', rest = second :: rest' → second.kind = kind →
      FollowsFrom lines near opens spare image p q)
    (no : FollowsFrom lines near opens spare image p' q') :
    FollowsFrom lines near opens spare image
      (Parser.peek >>= fun token => if token.kind = kind then p else p')
      (Parser.peek >>= fun token => if token.kind = kind then q else q') := by
  refine .of_peek front (fun token token' ends ends' => ?_) fun second rest' later => ?_
  · have other : token.kind ≠ kind := by
      rintro rfl
      rw [ends] at plain
      exact nomatch plain
    have other' : token'.kind ≠ kind := by
      rintro rfl
      rcases ends' with same | same <;> (rw [same] at plain; exact nomatch plain)
    rw [if_neg other, if_neg other']
    exact no
  · have same : (second.below lines).kind = kind ↔ second.kind = kind :=
      TokenKind.below_eq_iff lines plain second.kind
    by_cases here : second.kind = kind
    · rw [if_pos here, if_pos (same.mpr here)]
      exact yes second rest' later here
    · rw [if_neg here, if_neg (fun bad => here (same.mp bad))]
      exact no

theorem FollowsBy.check (plain : kind.plain)
    (yes : ∀ near token rest, near.ahead = token :: rest → token.kind = kind →
      FollowsFrom lines near opens spare image p q)
    (no : FollowsBy lines opens spare image p' q') :
    FollowsBy lines opens spare image
      (Parser.check kind >>= fun found => if found = true then p else p')
      (Parser.check kind >>= fun found => if found = true then q else q') :=
  fun near => .check plain (yes near) (no near)

theorem FollowsBy.checked (plain : kind.plain) {f : Bool → Parser α} {f' : Bool → Parser β}
    (yes : ∀ near token rest, near.ahead = token :: rest → token.kind = kind →
      FollowsFrom lines near opens spare image (f true) (f' true))
    (no : FollowsBy lines opens spare image (f false) (f' false)) :
    FollowsBy lines opens spare image (Parser.check kind >>= f) (Parser.check kind >>= f') := by
  have same {ε : Type} (g : Bool → Parser ε) :
      (Parser.check kind >>= g)
        = (Parser.check kind >>= fun found => if found = true then g true else g false) := by
    congr 1
    funext found
    cases found <;> rfl
  rw [same f, same f']
  exact .check plain yes no

theorem FollowsBy.eaten (plain : kind.plain) {f : Bool → Parser α} {f' : Bool → Parser β}
    (yes : FollowsBy lines (fun x => opens x - kind.weight) spare image (f true) (f' true))
    (no : FollowsBy lines opens spare image (f false) (f' false)) :
    FollowsBy lines opens spare image (Parser.eat kind >>= f) (Parser.eat kind >>= f') := by
  have same {ε : Type} (g : Bool → Parser ε) :
      (Parser.eat kind >>= g)
        = (Parser.check kind >>= fun found =>
            if found = true then Parser.advance >>= fun _ => g true else g false) := by
    simp only [Parser.eat, bind_assoc]
    congr 1
    funext found
    cases found <;> simp
  rw [same, same]
  refine .check plain (fun near token rest front here => .advance front ?_) no
  rw [here]
  exact yes

theorem FollowsBy.eat (plain : kind.plain)
    (yes : FollowsBy lines (fun x => opens x - kind.weight) spare image p q)
    (no : FollowsBy lines opens spare image p' q') :
    FollowsBy lines opens spare image
      (Parser.eat kind >>= fun found => if found = true then p else p')
      (Parser.eat kind >>= fun found => if found = true then q else q') :=
  .eaten plain yes no

theorem FollowsBy.unexpected (wanted : Wanted) :
    FollowsBy lines opens spare image (Parser.unexpected wanted) q :=
  fun _ _ _ _ done => nomatch done

theorem FollowsBy.expect (plain : kind.plain) :
    FollowsBy lines (fun _ => kind.weight) (fun _ => False) (Token.below lines)
      (Parser.expect kind) (Parser.expect kind) := by
  refine .check plain (fun near token rest front here => ?_) (.unexpected _)
  have step : FollowsFrom lines near (fun _ => kind.weight) (fun _ => False) (Token.below lines)
      (Parser.advance >>= pure) (Parser.advance >>= pure) :=
    .advance front (.result (by rw [here]; exact Int.sub_self _) rfl)
  rwa [bind_pure] at step

theorem FollowsBy.identifier : FollowsFlat lines id Parser.identifier Parser.identifier :=
  .check rfl (fun near token rest front here => .advance front
    (.result (by rw [here]; rfl) rfl)) (.unexpected _)

theorem FollowsFrom.identifierOn {token : Token} {rest : List Token}
    (front : near.ahead = token :: rest) (name : token.kind = .ident) {f : String → Parser α}
    {f' : String → Parser β}
    (next : FollowsFrom lines near.tail opens spare image (f token.text) (f' token.text)) :
    FollowsFrom lines near opens spare image (Parser.identifier >>= f)
      (Parser.identifier >>= f') := by
  have same {ε : Type} (g : String → Parser ε) :
      (Parser.identifier >>= g)
        = (Parser.check .ident >>= fun found =>
            if found = true then Parser.advance >>= fun token => g token.text
            else Parser.unexpected .identifier >>= g) := by
    simp only [Parser.identifier, bind_assoc]
    congr 1
    funext found
    cases found <;> simp
  rw [same, same]
  refine .check rfl (fun _ _ _ _ => .advanceOn front ?_) fun _ _ _ bad => nomatch bad
  have flat : (fun x => opens x - token.kind.weight) = opens := by
    rw [name]
    exact funext fun x => Int.sub_zero _
  rw [flat]
  exact next

theorem isMemberName_below (lines : Nat) (token : Token) :
    Parser.isMemberName (token.below lines) = Parser.isMemberName token := by
  obtain ⟨kind, text, pos⟩ := token
  cases kind <;> rfl

theorem Token.Genuine.weight_of_memberName {token : Token} (genuine : token.Genuine)
    (name : Parser.isMemberName token = true) : token.kind.weight = 0 := by
  obtain ⟨cursor, last, c, rest, lexeme, read, -, rfl⟩ := genuine
  cases (Lexeme.read_form read).2 with
  | feed kind _ | text kind | template kind _ | number kind _ =>
      simp only [Cursor.token, kind]
      rfl
  | word starts rest =>
      simp only [Cursor.token, Lexeme.word]
      split <;> rfl
  | @mark _ m kind text =>
      simp only [Cursor.token, kind, text, Parser.isMemberName] at name ⊢
      cases m <;> first | rfl | exact absurd name (by decide)

theorem FollowsBy.memberName : FollowsFlat lines id Parser.memberName Parser.memberName := by
  intro near sound x after done
  obtain ⟨token, middle, run, later⟩ := Parser.bind_eq_ok.mp done
  cases run
  by_cases name : Parser.isMemberName near.current = true
  · rw [if_pos name] at later
    cases later
    obtain ⟨rest, front⟩ : ∃ rest, near.ahead = near.current :: rest := by
      cases front : near.ahead with
      | nil =>
          rw [Stream.current, front] at name
          simp [Parser.isMemberName, sound.kind, sound.text] at name
      | cons token rest => exact ⟨rest, by rw [Stream.current_of_front front]⟩
    have flat := (sound.genuine near.current (front ▸ List.mem_cons_self)).weight_of_memberName name
    refine ⟨flat ▸ Taken.tail front, fun more far seam mimics =>
      .inr ⟨far.tail, ?_, mimics.tail front⟩⟩
    have there := mimics.current front
    refine Parser.bind_eq_ok.mpr ⟨far.current, far, rfl, ?_⟩
    rw [there, isMemberName_below, if_pos name]
    show Except.ok (far.current.text, far.tail) = _
    rw [there]
    rfl
  · rw [if_neg name] at later
    exact nomatch later

theorem netOpen_dropWhile {p : Token → Bool} (flat : ∀ token, p token → token.kind.weight = 0)
    (tokens : List Token) : netOpen (tokens.dropWhile p) = netOpen tokens := by
  induction tokens with
  | nil => rfl
  | cons token rest ih =>
      rw [List.dropWhile_cons, netOpen_cons]
      split
      · next blank => rw [ih, flat token blank, Int.zero_add]
      · rfl

theorem Stream.Taken.dropWhile {skipped : Token → Bool}
    (flat : ∀ token, skipped token → token.kind.weight = 0) (near : Stream) :
    Taken 0 near (near.dropWhile skipped) where
  suffix := List.dropWhile_suffix skipped
  finish := rfl
  size := rfl
  opens := by rw [Int.add_zero]; exact (netOpen_dropWhile flat near.ahead).symm

theorem FollowsBy.skip {skipped : Token → Bool}
    (flat : ∀ token, skipped token → token.kind.weight = 0)
    (alike : ∀ token : Token, skipped (token.below lines) = skipped token) :
    FollowsBy lines (fun _ => 0) (fun _ => True) id (modify (·.dropWhile skipped) : Parser Unit)
      (modify (·.dropWhile skipped)) := by
  intro near sound x after done
  cases done
  have taken : Taken 0 near (near.dropWhile skipped) := .dropWhile flat near
  refine ⟨taken, fun more far seam mimics => ?_⟩
  by_cases left : near.ahead.dropWhile skipped = []
  · refine .inl ⟨trivial, taken.sound sound, fun token member => ?_⟩
    have member : token ∈ near.ahead.dropWhile skipped := member
    rw [left] at member
    exact nomatch member
  · exact .inr ⟨far.dropWhile skipped, rfl, mimics.dropWhile skipped alike left⟩

/-! ### Repetition -/

theorem Stops.iterate {round : γ → Parser (Parser.Round γ α)}
    (steps : ∀ state, Stops (Parser.Round.spare spare) (round state)) (bound : Nat) (state : γ) :
    Stops spare (Parser.iterate round bound state) := by
  induction bound generalizing state with
  | zero => exact fun _ _ _ _ done => nomatch done
  | succ bound ih =>
      refine (steps state).bind fun next good => ?_
      cases next with
      | again state' => exact ih state'
      | done result => exact Stops.result good

theorem Stops.loop {round : γ → Parser (Parser.Round γ α)}
    (steps : ∀ state, Stops (Parser.Round.spare spare) (round state)) (state : γ) :
    Stops spare (Parser.loop round state) :=
  fun near spent _ _ done => Stops.iterate steps (near.size + 1) state spent done

theorem Stops.loops {ε : Type} {round : γ → Parser (Parser.Round γ ε)} (extra : ε → Prop)
    {f : ε → Parser α} (steps : ∀ state, Stops (Parser.Round.spare extra) (round state))
    {state : γ} (leaves : ∀ x, extra x → Stops spare (f x)) :
    Stops spare (Parser.loop round state >>= f) :=
  (Stops.loop steps state).bind leaves

theorem FollowsBy.iterate {round : γ → Parser (Parser.Round γ α)}
    {round' : δ → Parser (Parser.Round δ β)} (move : γ → δ) {last : Int}
    {loose : Parser.Round γ α → Prop}
    (steps : ∀ state, FollowsBy lines (Parser.Round.opens last) loose
      (Parser.Round.map move image) (round state) (round' (move state)))
    (again : ∀ state, loose (.again state) → ∀ bound, Stops spare (Parser.iterate round bound state))
    (done : ∀ result, loose (.done result) → spare result)
    {bound bound' : Nat} (le : bound ≤ bound') (state : γ) :
    FollowsBy lines (fun _ => last) spare image (Parser.iterate round bound state)
      (Parser.iterate round' bound' (move state)) := by
  induction bound generalizing state bound' with
  | zero => exact fun _ _ _ _ bad => nomatch bad
  | succ bound ih =>
      obtain ⟨bound', rfl⟩ : ∃ n, bound' = n + 1 := ⟨bound' - 1, by omega⟩
      refine (steps state).bind (fun next => ?_) fun next good => ?_
      · cases next with
        | again state' =>
            have later := ih (Nat.le_of_succ_le_succ le) state'
            rwa [show (fun _ : α => last) = fun _ => last - 0 by rw [Int.sub_zero]] at later
        | done result => exact .result (Int.sub_self last) rfl
      · cases next with
        | again state' => exact again state' good bound
        | done result => exact .result (done result good)

/-- A loop is followed when its rounds are, whatever the bounds that the streams set. -/
theorem FollowsBy.of_iterate {round : γ → Parser (Parser.Round γ α)}
    {round' : δ → Parser (Parser.Round δ β)} {state : γ} {state' : δ}
    (follows : ∀ {bound bound' : Nat}, bound ≤ bound' →
      FollowsBy lines opens spare image (Parser.iterate round bound state)
        (Parser.iterate round' bound' state')) :
    FollowsBy lines opens spare image (Parser.loop round state) (Parser.loop round' state') := by
  intro near sound x after done
  refine ⟨(follows (Nat.le_refl _) near sound done).1, fun more far seam mimics => ?_⟩
  exact (follows (Nat.succ_le_succ mimics.size) near sound done).2 seam mimics

/-- A loop whose rounds may leave the near stream spent, since none goes on from there. -/
theorem FollowsBy.loop {round : γ → Parser (Parser.Round γ α)}
    {round' : δ → Parser (Parser.Round δ β)} (move : γ → δ) {last : Int}
    (steps : ∀ state, FollowsBy lines (Parser.Round.opens last) (Parser.Round.spare spare)
      (Parser.Round.map move image) (round state) (round' (move state)))
    (stops : ∀ state, Stops (Parser.Round.spare spare) (round state)) (state : γ) :
    FollowsBy lines (fun _ => last) spare image (Parser.loop round state)
      (Parser.loop round' (move state)) :=
  .of_iterate fun le => .iterate move steps (fun state _ bound => Stops.iterate stops bound state)
    (fun _ good => good) le state

theorem FollowsBy.steadyLoop {round : γ → Parser (Parser.Round γ α)}
    {round' : δ → Parser (Parser.Round δ β)} (move : γ → δ) {last : Int}
    (steps : ∀ state, FollowsBy lines (Parser.Round.opens last) (fun _ => False)
      (Parser.Round.map move image) (round state) (round' (move state))) (state : γ) :
    FollowsBy lines (fun _ => last) spare image (Parser.loop round state)
      (Parser.loop round' (move state)) :=
  .of_iterate fun le => .iterate move steps (fun _ bad => bad.elim) (fun _ bad => bad.elim) le state

/-! ### Steps and what comes after them -/

theorem Stops.skips {skipped : Token → Bool} {f : Unit → Parser α} (next : Stops spare (f ())) :
    Stops spare ((modify (·.dropWhile skipped) : Parser Unit) >>= f) :=
  (Stops.skip skipped).bind fun _ _ => next

theorem Stops.expects (plain : kind.plain) {f : Token → Parser α} :
    Stops spare (Parser.expect kind >>= f) := Dead.bind (Stops.expect plain)

theorem Stops.identifiers {f : String → Parser α} : Stops spare (Parser.identifier >>= f) :=
  Dead.bind Stops.identifier

theorem Stops.checks (plain : kind.plain) (no : Stops spare p') :
    Stops spare (Parser.check kind >>= fun found => if found = true then p else p') :=
  (Stops.check plain).bind fun _ absent => by rw [absent]; exact no

theorem Stops.eats (plain : kind.plain) (no : Stops spare p') :
    Stops spare (Parser.eat kind >>= fun found => if found = true then p else p') :=
  (Stops.eat plain).bind fun _ absent => by rw [absent]; exact no

/-- On a spent stream nothing is taken but line feeds. -/
theorem FollowsBy.stops (follows : FollowsBy lines opens spare image p q) :
    Stops (fun _ => True) p :=
  fun near spent _ _ done => ⟨trivial, (follows near spent.toSound done).1.spent spent⟩

theorem FollowsBy.then {f : α → Parser γ} {f' : β → Parser δ} {image' : γ → δ} {total : γ → Int}
    {rest : γ → Prop} (first : FollowsFlat lines image p q)
    (next : ∀ x, FollowsBy lines total rest image' (f x) (f' (image x))) :
    FollowsBy lines total rest image' (p >>= f) (q >>= f') := by
  exact first.bind (fun x => (next x).cast fun y => (Int.sub_zero (total y)).symm) fun _ bad => bad.elim

theorem FollowsBy.expects (plain : kind.plain) {f : Token → Parser α} {f' : Token → Parser β}
    (next : ∀ token, FollowsBy lines (fun x => opens x - kind.weight) spare image (f token)
      (f' (token.below lines))) :
    FollowsBy lines opens spare image (Parser.expect kind >>= f) (Parser.expect kind >>= f') :=
  (FollowsBy.expect plain).bind next fun _ bad => bad.elim

/-- Tokens that may be passed over: no brackets, and the same ones further down. -/
structure Blank (lines : Nat) (skipped : Token → Bool) : Prop where
  flat : ∀ token, skipped token → token.kind.weight = 0
  alike : ∀ token : Token, skipped (token.below lines) = skipped token

theorem Blank.newlines (lines : Nat) : Blank lines fun token => token.kind = .newline where
  flat token feed := by rw [of_decide_eq_true feed]; rfl
  alike := fun ⟨kind, _, _⟩ => by cases kind <;> rfl

theorem Blank.separators (lines : Nat) :
    Blank lines fun token => token.kind = .newline || token.kind = .mark .semicolon where
  flat token blank := by
    simp only [Bool.or_eq_true, decide_eq_true_eq] at blank
    rcases blank with same | same <;> (rw [same]; rfl)
  alike := fun ⟨kind, _, _⟩ => by cases kind <;> rfl

theorem Blank.entrySeparators (lines : Nat) :
    Blank lines fun token =>
      token.kind = .newline || token.kind = .mark .semicolon || token.kind = .mark .comma where
  flat token blank := by
    simp only [Bool.or_eq_true, decide_eq_true_eq] at blank
    rcases blank with (same | same) | same <;> (rw [same]; rfl)
  alike := fun ⟨kind, _, _⟩ => by cases kind <;> rfl

theorem FollowsBy.skips {skipped : Token → Bool} {f : Unit → Parser α} {f' : Unit → Parser β}
    (blank : Blank lines skipped) (next : FollowsBy lines opens spare image (f ()) (f' ()))
    (stops : Stops spare (f ())) :
    FollowsBy lines opens spare image ((modify (·.dropWhile skipped) : Parser Unit) >>= f)
      ((modify (·.dropWhile skipped) : Parser Unit) >>= f') :=
  (FollowsBy.skip blank.flat blank.alike).bind
    (fun _ => next.cast fun y => (Int.sub_zero (opens y)).symm) fun _ _ => stops

theorem FollowsBy.skipNewlines {f : Unit → Parser α} {f' : Unit → Parser β}
    (next : FollowsBy lines opens spare image (f ()) (f' ())) (stops : Stops spare (f ())) :
    FollowsBy lines opens spare image (Parser.skipNewlines >>= f) (Parser.skipNewlines >>= f') :=
  .skips (.newlines lines) next stops

theorem FollowsFrom.skipOn {f : Unit → Parser α} {f' : Unit → Parser β}
    (left : near.ahead.dropWhile (·.kind = .newline) ≠ [])
    (next : ∀ rest, (near.dropWhile (·.kind = .newline)).ahead = near.pastNewlines :: rest →
      FollowsFrom lines (near.dropWhile (·.kind = .newline)) opens spare image (f ()) (f' ())) :
    FollowsFrom lines near opens spare image (Parser.skipNewlines >>= f)
      (Parser.skipNewlines >>= f') := by
  intro sound x after done
  have run : f () (near.dropWhile (·.kind = .newline)) = .ok (x, after) := done
  obtain ⟨first, rest, front⟩ := List.exists_cons_of_ne_nil left
  have first_eq : near.pastNewlines = first := by
    rw [Stream.pastNewlines, front]
    rfl
  have step : Taken 0 near (near.dropWhile (·.kind = .newline)) :=
    .dropWhile (Blank.newlines lines).flat near
  obtain ⟨taken, follow⟩ := next rest (first_eq ▸ front) (step.sound sound) run
  refine ⟨?_, fun more far seam mimics => ?_⟩
  · have both := step.trans taken
    rwa [Int.zero_add] at both
  · refine (follow seam (mimics.dropWhile _ (Blank.newlines lines).alike left)).imp_right ?_
    rintro ⟨far', run', mimics'⟩
    exact ⟨far', run', mimics'⟩

theorem FollowsFrom.skipNewlines {f : Unit → Parser α} {f' : Unit → Parser β}
    (left : near.ahead.dropWhile (·.kind = .newline) ≠ [])
    (next : FollowsBy lines opens spare image (f ()) (f' ())) :
    FollowsFrom lines near opens spare image (Parser.skipNewlines >>= f)
      (Parser.skipNewlines >>= f') :=
  .skipOn left fun _ _ => .of next

theorem FollowsBy.skipLoop {skipped : Token → Bool} (blank : Blank lines skipped)
    {f : γ → Unit → Parser (Parser.Round γ α)} {f' : δ → Unit → Parser (Parser.Round δ β)}
    (move : γ → δ) {last : Int}
    (steps : ∀ state, FollowsBy lines (Parser.Round.opens last) (Parser.Round.spare spare)
      (Parser.Round.map move image) (f state ()) (f' (move state) ()))
    (stops : ∀ state, Stops (Parser.Round.spare spare) (f state ())) (state : γ) :
    FollowsBy lines (fun _ => last) spare image
      (Parser.loop (fun state => (modify (·.dropWhile skipped) : Parser Unit) >>= f state) state)
      (Parser.loop (fun state => (modify (·.dropWhile skipped) : Parser Unit) >>= f' state)
        (move state)) :=
  .loop move (fun state => .skips blank (steps state) (stops state))
    (fun state => .skips (stops state)) state

theorem FollowsBy.announced {ε ζ : Type} {part : Parser ε} {part' : Parser ζ} {moved : ε → ζ}
    {f : Option ε → Parser α} {f' : Option ζ → Parser β} (plain : kind.plain)
    (flat : kind.weight = 0) (reads : FollowsFlat lines moved part part')
    (next : ∀ found, FollowsBy lines opens spare image (f found) (f' (found.map moved))) :
    FollowsBy lines opens spare image
      (Parser.eat kind >>= fun found =>
        if found = true then part >>= fun x => pure (some x) >>= f else pure none >>= f)
      (Parser.eat kind >>= fun found =>
        if found = true then part' >>= fun x => pure (some x) >>= f' else pure none >>= f') := by
  refine .eat plain (.cast (.then reads fun x => next (some x)) fun x => ?_) (next none)
  rw [flat, Int.sub_zero]

theorem FollowsBy.loops {ε ζ : Type} {round : γ → Parser (Parser.Round γ ε)}
    {round' : δ → Parser (Parser.Round δ ζ)} (move : γ → δ) (found : ε → ζ) (last : Int)
    (extra : ε → Prop) {f : ε → Parser α} {f' : ζ → Parser β}
    (steps : ∀ state, FollowsBy lines (Parser.Round.opens last) (Parser.Round.spare extra)
      (Parser.Round.map move found) (round state) (round' (move state)))
    (stops : ∀ state, Stops (Parser.Round.spare extra) (round state)) {state : γ}
    (next : ∀ x, FollowsBy lines (fun y => opens y - last) spare image (f x) (f' (found x)))
    (leaves : ∀ x, extra x → Stops spare (f x)) :
    FollowsBy lines opens spare image (Parser.loop round state >>= f)
      (Parser.loop round' (move state) >>= f') :=
  (FollowsBy.loop move steps stops state).bind next leaves

theorem FollowsBy.skipLoops {ε ζ : Type} {skipped : Token → Bool} (blank : Blank lines skipped)
    {round : γ → Unit → Parser (Parser.Round γ ε)} {round' : δ → Unit → Parser (Parser.Round δ ζ)}
    (move : γ → δ) (found : ε → ζ) (last : Int) {f : ε → Parser α} {f' : ζ → Parser β}
    (steps : ∀ state, FollowsBy lines (Parser.Round.opens last)
      (Parser.Round.spare fun _ => False) (Parser.Round.map move found) (round state ())
      (round' (move state) ()))
    (stops : ∀ state, Stops (Parser.Round.spare fun _ => False) (round state ())) {state : γ}
    (next : ∀ x, FollowsBy lines (fun y => opens y - last) spare image (f x) (f' (found x))) :
    FollowsBy lines opens spare image
      (Parser.loop (fun state => (modify (·.dropWhile skipped) : Parser Unit) >>= round state) state
        >>= f)
      (Parser.loop (fun state => (modify (·.dropWhile skipped) : Parser Unit) >>= round' state)
        (move state) >>= f') :=
  (FollowsBy.skipLoop blank move steps stops state).bind next fun _ bad => bad.elim

theorem FollowsBy.inside {wanted : Wanted} {f : Unit → Parser α} {f' : Unit → Parser β}
    (next : FollowsBy lines opens spare image (f ()) (f' ())) :
    FollowsBy lines opens spare image
      (Parser.check .endOfInput >>= fun found =>
        if found = true then Parser.unexpected wanted >>= f else f ())
      (Parser.check .endOfInput >>= fun found =>
        if found = true then Parser.unexpected wanted >>= f' else f' ()) := by
  intro near sound x after done
  have run : (if decide (near.current.kind = .endOfInput) = true then
    Parser.unexpected wanted >>= f else f ()) near = .ok (x, after) := done
  by_cases here : near.current.kind = .endOfInput
  · rw [decide_eq_true here, if_pos rfl] at run
    exact nomatch run
  · rw [decide_eq_false here, if_neg Bool.false_ne_true] at run
    obtain ⟨rest, front⟩ := Stream.front_of_current sound here
    obtain ⟨taken, follow⟩ := next near sound run
    refine ⟨taken, fun more far seam mimics => (follow seam mimics).imp_right ?_⟩
    rintro ⟨far', run', mimics'⟩
    refine ⟨far', ?_, mimics'⟩
    have there : ¬ far.current.kind = .endOfInput := by
      rw [mimics.current front]
      intro bad
      cases kind : near.current.kind <;> simp_all [Token.below, TokenKind.below]
    show (if decide (far.current.kind = .endOfInput) = true then
      Parser.unexpected wanted >>= f' else f' ()) far = _
    rwa [decide_eq_false there, if_neg Bool.false_ne_true]

theorem Stops.inside {wanted : Wanted} {f : Unit → Parser α} (next : Stops spare (f ())) :
    Stops spare (Parser.check .endOfInput >>= fun found =>
      if found = true then Parser.unexpected wanted >>= f else f ()) := by
  intro near spent x after done
  have run : (if decide (near.current.kind = .endOfInput) = true then
    Parser.unexpected wanted >>= f else f ()) near = .ok (x, after) := done
  split at run
  · exact nomatch run
  · exact next spent run

theorem Stops.currents {f : Token → Parser α}
    (next : ∀ token, token.kind = .newline ∨ token.kind = .endOfInput → Stops spare (f token)) :
    Stops spare (Parser.current >>= f) := by
  intro near spent x after done
  have kind := spent.current.imp And.left And.left
  exact next near.current kind spent done

/-- A production that looks at the token ahead and cannot do without one. -/
theorem FollowsBy.currents {f : Token → Parser α} {f' : Token → Parser β}
    (dead : Dead (Parser.current >>= f))
    (next : ∀ near token rest, near.ahead = token :: rest →
      FollowsFrom lines near opens spare image (f token) (f' (token.below lines))) :
    FollowsBy lines opens spare image (Parser.current >>= f) (Parser.current >>= f') := by
  intro near sound x after done
  cases front : near.ahead with
  | nil =>
      have spent : near.Spent := ⟨sound, fun token member => by rw [front] at member; exact nomatch member⟩
      exact (dead spent done).1.elim
  | cons token rest =>
      exact FollowsFrom.current front (next near token rest front) sound done

theorem Stream.spent_of_dropWhile (sound : near.Sound)
    (feeds : near.ahead.dropWhile (·.kind = .newline) = []) : near.Spent := by
  refine ⟨sound, fun token member => ?_⟩
  have whole := List.takeWhile_append_dropWhile (p := (·.kind = .newline)) (l := near.ahead)
  rw [feeds, List.append_nil] at whole
  have all := List.all_takeWhile (p := fun token : Token => decide (token.kind = .newline))
    (l := near.ahead)
  rw [whole, List.all_eq_true] at all
  exact of_decide_eq_true (all token member)

theorem Stream.Mimics.pastNewlines {more : List Token} {far : Stream}
    (mimics : Mimics lines more near far)
    (left : near.ahead.dropWhile (·.kind = .newline) ≠ []) :
    far.pastNewlines = near.pastNewlines.below lines := by
  have same := (mimics.dropWhile (·.kind = .newline) (fun token => by
    obtain ⟨kind, text, pos⟩ := token
    cases kind <;> rfl) left).ahead
  obtain ⟨token, rest, front⟩ := List.exists_cons_of_ne_nil left
  show ((far.dropWhile _).ahead.head?).getD far.finish = Token.below lines _
  rw [same, Stream.pastNewlines]
  show ((near.ahead.dropWhile _).map (Token.below lines) ++ more).head?.getD far.finish = _
  rw [front]
  rfl

/-- A choice by the first token that is no line feed, where the choice against that token cannot
be taken to an end on a spent stream. -/
theorem FollowsBy.pastNewlines (plain : kind.plain)
    (yes : FollowsBy lines opens spare image p q) (no : FollowsBy lines opens spare image p' q')
    (stops : Stops spare p') :
    FollowsBy lines opens spare image
      (Parser.pastNewlines >>= fun token => if token.kind = kind then p else p')
      (Parser.pastNewlines >>= fun token => if token.kind = kind then q else q') := by
  intro near sound x after done
  have run : (if near.pastNewlines.kind = kind then p else p') near = .ok (x, after) := done
  by_cases left : near.ahead.dropWhile (·.kind = .newline) = []
  · have other : near.pastNewlines.kind ≠ kind := by
      rw [Stream.pastNewlines, left]
      show near.finish.kind ≠ kind
      rw [sound.kind]
      rintro rfl
      exact nomatch plain
    rw [if_neg other] at run
    exact ⟨(no near sound run).1, fun more far seam mimics =>
      .inl (stops (Stream.spent_of_dropWhile sound left) run)⟩
  · by_cases here : near.pastNewlines.kind = kind
    · rw [if_pos here] at run
      obtain ⟨taken, follow⟩ := yes near sound run
      refine ⟨taken, fun more far seam mimics => (follow seam mimics).imp_right ?_⟩
      rintro ⟨far', run', mimics'⟩
      refine ⟨far', ?_, mimics'⟩
      show (if far.pastNewlines.kind = kind then q else q') far = _
      rw [mimics.pastNewlines left]
      have there := (TokenKind.below_eq_iff lines plain _).mpr here
      exact (congrFun (if_pos there) far).trans run'
    · rw [if_neg here] at run
      obtain ⟨taken, follow⟩ := no near sound run
      refine ⟨taken, fun more far seam mimics => (follow seam mimics).imp_right ?_⟩
      rintro ⟨far', run', mimics'⟩
      refine ⟨far', ?_, mimics'⟩
      show (if far.pastNewlines.kind = kind then q else q') far = _
      rw [mimics.pastNewlines left]
      have there := fun bad => here ((TokenKind.below_eq_iff lines plain _).mp bad)
      exact (congrFun (if_neg there) far).trans run'

theorem Stream.Mimics.pastNewlines_of_spent {more : List Token} {far : Stream}
    (mimics : Mimics lines more near far)
    (feeds : near.ahead.dropWhile (·.kind = .newline) = []) :
    far.pastNewlines = (more.dropWhile (·.kind = .newline)).head?.getD far.finish := by
  have kept : (near.ahead.map (Token.below lines)).dropWhile (·.kind = .newline) = [] := by
    rw [List.dropWhile_map, show ((fun token : Token => decide (token.kind = .newline))
      ∘ Token.below lines) = _ from funext (Blank.newlines lines).alike, feeds]
    rfl
  rw [Stream.pastNewlines, mimics.ahead, List.dropWhile_append, kept]
  simp

/-- A choice by the first token that is no line feed, for kinds that no text after a seam starts
with. -/
theorem FollowsBy.fresh {P : TokenKind → Prop} [DecidablePred P]
    (only : ∀ kind, P kind → kind.continues)
    (yes : ∀ near, near.ahead.dropWhile (·.kind = .newline) ≠ [] → P near.pastNewlines.kind →
      FollowsFrom lines near opens spare image p q)
    (no : FollowsBy lines opens spare image p' q') :
    FollowsBy lines opens spare image
      (Parser.pastNewlines >>= fun token => if P token.kind then p else p')
      (Parser.pastNewlines >>= fun token => if P token.kind then q else q') := by
  have notEnd : ¬ P .endOfInput := fun bad => absurd (only _ bad) (by decide)
  have alike (token : Token) : P (token.below lines).kind ↔ P token.kind := by
    obtain ⟨kind, text, pos⟩ := token
    cases kind with
    | template pieces => exact ⟨fun bad => (nomatch only (.template _) bad), fun bad => (nomatch only _ bad)⟩
    | _ => exact Iff.rfl
  intro near sound x after done
  have run : (if P near.pastNewlines.kind then p else p') near = .ok (x, after) := done
  by_cases here : P near.pastNewlines.kind
  · have left : near.ahead.dropWhile (·.kind = .newline) ≠ [] := by
      intro empty
      rw [Stream.pastNewlines, empty] at here
      exact notEnd (sound.kind ▸ here)
    rw [if_pos here] at run
    obtain ⟨taken, follow⟩ := yes near left here sound run
    refine ⟨taken, fun more far seam mimics => (follow seam mimics).imp_right ?_⟩
    rintro ⟨far', run', mimics'⟩
    have there : P far.pastNewlines.kind := by
      rw [mimics.pastNewlines left]
      exact (alike _).mpr here
    exact ⟨far', (congrFun (if_pos there) far).trans run', mimics'⟩
  · rw [if_neg here] at run
    obtain ⟨taken, follow⟩ := no near sound run
    refine ⟨taken, fun more far seam mimics => (follow seam mimics).imp_right ?_⟩
    rintro ⟨far', run', mimics'⟩
    have there : ¬ P far.pastNewlines.kind := by
      by_cases left : near.ahead.dropWhile (·.kind = .newline) = []
      · rw [mimics.pastNewlines_of_spent left]
        cases first : (more.dropWhile (·.kind = .newline)).head? with
        | none =>
            show ¬ P far.finish.kind
            rw [mimics.kind]
            exact notEnd
        | some token =>
            exact fun bad => Bool.eq_false_iff.mp (seam.fresh token first) (only _ bad)
      · rw [mimics.pastNewlines left]
        exact fun bad => here ((alike _).mp bad)
    exact ⟨far', (congrFun (if_neg there) far).trans run', mimics'⟩

theorem FollowsBy.belated {f : Token → Parser α} {f' : Token → Parser β} (flat : kind.weight = 0)
    (only : kind.continues)
    (yes : ∀ token, FollowsBy lines opens spare image (f token) (f' (token.below lines)))
    (no : FollowsBy lines opens spare image p' q') :
    FollowsBy lines opens spare image
      (Parser.pastNewlines >>= fun token =>
        if token.kind = kind then Parser.skipNewlines >>= fun _ => Parser.advance >>= f else p')
      (Parser.pastNewlines >>= fun token =>
        if token.kind = kind then Parser.skipNewlines >>= fun _ => Parser.advance >>= f'
        else q') := by
  refine .fresh (P := (· = kind)) (fun _ same => same ▸ only) (fun near left here => ?_) no
  exact .skipOn left fun rest front => .advanceFlat front (here ▸ flat) (yes _)

theorem FollowsFrom.fresh {P : TokenKind → Prop} [DecidablePred P]
    (only : ∀ kind, P kind → kind.continues)
    (empty : near.ahead = []) (no : FollowsBy lines opens spare image p' q') :
    FollowsFrom lines near opens spare image p'
      (Parser.pastNewlines >>= fun token => if P token.kind then q else q') := by
  intro sound x after done
  have barred : ¬ P near.pastNewlines.kind := by
    rw [Stream.pastNewlines, empty]
    show ¬ P near.finish.kind
    rw [sound.kind]
    exact fun bad => absurd (only _ bad) (by decide)
  have yes : FollowsBy lines opens spare image (Parser.fail (.invalid .unknown .tooDeep)) q := .fail _
  exact FollowsBy.fresh only (fun _ _ _ => .of yes) no near sound ((congrFun (if_neg barred) near).trans done)

theorem FollowsBy.listed {close : Mark} (closes : (TokenKind.mark close).weight = -1)
    (item : FollowsFlat lines image p q) (dead : Dead p) :
    FollowsBy lines (fun _ => -1) (fun _ => False) (List.map image) (Parser.listed close p)
      (Parser.listed close q) := by
  have ends : (-1 : Int) - (TokenKind.mark close).weight = 0 := by rw [closes]; rfl
  refine .skipLoop (.newlines lines) (List.map image) (fun done => ?_) (fun done => ?_) []
  · refine .eat rfl (.result ends ?_) (.then item fun next => ?_)
    · rw [← List.map_reverse]
      rfl
    · refine .skipNewlines (.eat rfl (.result rfl rfl) (.skipNewlines (.expects rfl fun _ =>
        .result ends ?_) ?_)) ?_
      · rw [← List.map_cons, ← List.map_reverse]
        rfl
      · exact .expects rfl
      · exact .eats rfl (.skips (.expects rfl))
  · exact .eats rfl dead.bind

end Steps

end Judgements
end Rill

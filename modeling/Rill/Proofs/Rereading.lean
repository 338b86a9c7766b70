import Rill.Proofs.Pointing
import Rill.Proofs.Progress.Statement
import Rill.Proofs.Written.Neat

/-!
# Productions on written words

The judgement that a production reads given words: from every stream that offers them, wherever its
tokens stand, it gives something good and leaves the words that follow, unless a bound on its depth
runs out. The rules go through a production with the words it takes.
-/

set_option autoImplicit false

namespace Rill

namespace TokenKind

def fixed : TokenKind → Bool
  | template _ => false
  | _ => true

theorem unplaced_eq_iff {kind found : TokenKind} (fixed : kind.fixed) :
    found.unplaced = kind ↔ found = kind := by
  cases found with
  | template pieces =>
      refine ⟨?_, ?_⟩ <;> rintro rfl <;> exact nomatch fixed
  | _ => exact Iff.rfl

def parts (kind : TokenKind) : Bool := kind = newline || kind = mark .semicolon

def partsEntries (kind : TokenKind) : Bool :=
  kind = newline || kind = mark .semicolon || kind = mark .comma

theorem weight_unplaced (kind : TokenKind) : kind.unplaced.weight = kind.weight := by
  cases kind <;> rfl

end TokenKind

namespace Token

/-- The kind of the first word, or of the end of input. -/
def front : List Token → TokenKind
  | [] => .endOfInput
  | word :: _ => word.kind

theorem eq_of_unplaced {word token : Token} (fixed : word.kind.fixed) (same : token.unplaced = word) :
    token = ⟨word.kind, word.text, token.pos⟩ := by
  subst same
  obtain ⟨kind, text, pos⟩ := token
  cases kind with
  | template pieces => exact nomatch fixed
  | _ => rfl

theorem kind_of_unplaced {word token : Token} (fixed : word.kind.fixed)
    (same : token.unplaced = word) : token.kind = word.kind := by
  rw [eq_of_unplaced fixed same]

theorem text_of_unplaced {word token : Token} (same : token.unplaced = word) :
    token.text = word.text := by
  rw [← same]
  rfl

theorem isMemberName_unplaced (token : Token) :
    Parser.isMemberName token.unplaced = Parser.isMemberName token := by
  obtain ⟨kind, text, pos⟩ := token
  cases kind <;> rfl

end Token

theorem Grammar.arrowAfterClose_unplaced (tokens : List Token) (depth : Nat) :
    arrowAfterClose depth (tokens.map Token.unplaced) = arrowAfterClose depth tokens := by
  induction tokens generalizing depth with
  | nil => rfl
  | cons token rest ih =>
      have arrow : ((rest.map Token.unplaced).head?.map Token.kind == some (.mark .fatArrow))
          = (rest.head?.map Token.kind == some (.mark .fatArrow)) := by
        cases rest with
        | nil => rfl
        | cons next rest =>
            obtain ⟨kind, text, pos⟩ := next
            cases kind <;> rfl
      rw [List.map_cons, arrowAfterClose_cons, arrowAfterClose_cons,
        show token.unplaced.kind.weight = token.kind.weight from token.kind.weight_unplaced, ih, ih,
        ih, arrow]

namespace Stream

/-- The tokens ahead are these words, wherever they stand, and then the text ends. -/
structure Offers (words : List Token) (stream : Stream) : Prop where
  ahead : stream.ahead.map Token.unplaced = words
  kind : stream.finish.kind = .endOfInput

namespace Offers

variable {stream : Stream} {word : Token} {words : List Token}

theorem front (offers : stream.Offers words) : stream.current.kind.unplaced = Token.front words := by
  rw [← offers.ahead, Stream.current]
  cases stream.ahead with
  | nil => exact (TokenKind.unplaced_eq_iff rfl).mpr offers.kind
  | cons token rest => rfl

theorem kind_iff (offers : stream.Offers words) {kind : TokenKind} (fixed : kind.fixed) :
    stream.current.kind = kind ↔ Token.front words = kind := by
  rw [← offers.front, TokenKind.unplaced_eq_iff fixed]

theorem current (offers : stream.Offers (word :: words)) : stream.current.unplaced = word := by
  obtain ⟨token, rest, front, same, -⟩ := List.map_eq_cons_iff.mp offers.ahead
  rw [current_of_front front, same]

theorem tail (offers : stream.Offers (word :: words)) : stream.tail.Offers words where
  ahead := by
    show stream.ahead.tail.map _ = _
    rw [List.map_tail, offers.ahead]
    rfl
  kind := offers.kind

theorem dropWhile (offers : stream.Offers words) {p : Token → Bool}
    (flat : ∀ token, p token.unplaced = p token) :
    (stream.dropWhile p).Offers (words.dropWhile p) where
  ahead := by
    show (stream.ahead.dropWhile p).map _ = _
    rw [← offers.ahead, List.dropWhile_map]
    congr 2
    exact (funext flat).symm
  kind := offers.kind

end Offers

end Stream

/-! ## The judgement -/

namespace Parser.Round

variable {β γ : Type} {holds : β → Prop} {done : γ → Prop}

@[simp] theorem all_again (state : β) : All holds done (.again state) = holds state := rfl

@[simp] theorem all_done (result : γ) : All holds done (.done result) = done result := rfl

end Parser.Round

/-- From every stream that offers `words` the production gives something `good` and leaves one that
offers `rest`, unless a bound on its depth runs out. -/
def Rereads {α : Type} (words : List Token) (good : α → Prop) (rest : List Token) (p : Parser α) :
    Prop :=
  ∀ stream : Stream, stream.Offers words → p stream = .error .exhausted
    ∨ ∃ x after, p stream = .ok (x, after) ∧ good x ∧ after.Offers rest

/-- A loop from this state, whatever bound it has on its rounds. -/
def RereadsRounds {β γ : Type} (words : List Token) (good : γ → Prop) (rest : List Token)
    (round : β → Parser (Parser.Round β γ)) (state : β) : Prop :=
  ∀ bound, Rereads words good rest (Parser.iterate round bound state)

namespace Rereads

variable {α β γ : Type} {words middle rest : List Token} {word : Token} {good good' : α → Prop}
  {p : Parser α}

theorem mono (reads : Rereads words good rest p) (weaker : ∀ x, good x → good' x) :
    Rereads words good' rest p := fun stream offers =>
  (reads stream offers).imp_right fun ⟨x, after, run, value, left⟩ =>
    ⟨x, after, run, weaker x value, left⟩

theorem bind {found : β → Prop} {f : α → Parser β} (first : Rereads words good middle p)
    (next : ∀ x, good x → Rereads middle found rest (f x)) : Rereads words found rest (p >>= f) := by
  intro stream offers
  have step : (p >>= f) stream = p stream >>= fun found => f found.1 found.2 := rfl
  rcases first stream offers with out | ⟨x, after, run, value, left⟩
  · left
    rw [step, out]
    rfl
  · rw [step, run]
    exact next x value after left

theorem result {x : α} (value : good x) : Rereads words good words (pure x : Parser α) :=
  fun stream offers => .inr ⟨x, stream, rfl, value, offers⟩

theorem exhausted : Rereads words good rest (Parser.exhausted : Parser α) := fun _ _ => .inl rfl

/-! ### The word ahead -/

section Steps

variable {f : Token → Parser α} {kind : TokenKind} {yes no : Parser α}

theorem current (next : ∀ token, token.unplaced = word → Rereads (word :: words) good rest (f token)) :
    Rereads (word :: words) good rest (Parser.current >>= f) := fun stream offers =>
  next stream.current offers.current stream offers

theorem look (fixed : word.kind.fixed)
    (next : ∀ pos, Rereads (word :: words) good rest (f ⟨word.kind, word.text, pos⟩)) :
    Rereads (word :: words) good rest (Parser.current >>= f) :=
  current fun token same => by
    rw [Token.eq_of_unplaced fixed same]
    exact next token.pos

theorem sees (next : ∀ token : Token, token.kind.unplaced = Token.front words →
    Rereads words good rest (f token)) : Rereads words good rest (Parser.current >>= f) :=
  fun stream offers => next stream.current offers.front stream offers

theorem advance (next : ∀ token, token.unplaced = word → Rereads words good rest (f token)) :
    Rereads (word :: words) good rest (Parser.advance >>= f) := fun stream offers =>
  next stream.current offers.current stream.tail offers.tail

theorem advances (next : Rereads words good rest p) :
    Rereads (word :: words) good rest (Parser.advance >>= fun _ => p) := advance fun _ _ => next

theorem here (fixed : kind.fixed) (same : Token.front words = kind)
    (next : Rereads words good rest yes) :
    Rereads words good rest (Parser.check kind >>= fun found => if found = true then yes else no) := by
  intro stream offers
  have step : (Parser.check kind >>= fun found => if found = true then yes else no) stream
      = (if decide (stream.current.kind = kind) = true then yes else no) stream := rfl
  rw [step, if_pos (decide_eq_true ((offers.kind_iff fixed).mpr same))]
  exact next stream offers

theorem away (fixed : kind.fixed) (other : Token.front words ≠ kind)
    (next : Rereads words good rest no) :
    Rereads words good rest (Parser.check kind >>= fun found => if found = true then yes else no) := by
  intro stream offers
  have step : (Parser.check kind >>= fun found => if found = true then yes else no) stream
      = (if decide (stream.current.kind = kind) = true then yes else no) stream := rfl
  rw [step, if_neg fun same => other ((offers.kind_iff fixed).mp (of_decide_eq_true same))]
  exact next stream offers

theorem checks (fixed : kind.fixed) :
    Rereads words (· = decide (Token.front words = kind)) words (Parser.check kind) := by
  intro stream offers
  refine .inr ⟨_, stream, rfl, ?_, offers⟩
  exact decide_eq_decide.mpr (offers.kind_iff fixed)

theorem eaten (fixed : kind.fixed) (same : word.kind = kind) :
    Rereads (word :: words) (· = true) words (Parser.eat kind) :=
  here fixed same (advances (result rfl))

theorem eats (fixed : kind.fixed) (same : word.kind = kind) (next : Rereads words good rest yes) :
    Rereads (word :: words) good rest
      (Parser.eat kind >>= fun found => if found = true then yes else no) := by
  refine (eaten fixed same).bind fun found here => ?_
  rw [if_pos here]
  exact next

theorem passes (fixed : kind.fixed) (other : Token.front words ≠ kind)
    (next : Rereads words good rest no) :
    Rereads words good rest (Parser.eat kind >>= fun found => if found = true then yes else no) := by
  have left : Rereads words (· = false) words (Parser.eat kind) := away fixed other (result rfl)
  refine left.bind fun found unread => ?_
  rw [if_neg (by rw [unread]; exact Bool.false_ne_true)]
  exact next

theorem expect (fixed : kind.fixed) (same : word.kind = kind)
    (next : ∀ token, token.unplaced = word → Rereads words good rest (f token)) :
    Rereads (word :: words) good rest (Parser.expect kind >>= f) := by
  have taken : Rereads (word :: words) (·.unplaced = word) words (Parser.expect kind) :=
    here fixed same fun stream offers => .inr ⟨_, _, rfl, offers.current, offers.tail⟩
  exact taken.bind next

theorem expects (fixed : kind.fixed) (same : word.kind = kind) (next : Rereads words good rest p) :
    Rereads (word :: words) good rest (Parser.expect kind >>= fun _ => p) :=
  expect fixed same fun _ _ => next

end Steps

/-! ### Names -/

theorem identifier {name : String} (named : Identifier name) {f : String → Parser α}
    (next : Rereads words good rest (f name)) :
    Rereads (Word.name name :: words) good rest (Parser.identifier >>= f) := by
  have kind : (Word.name name).kind = .ident := by rw [named.name_eq]
  have found : Rereads (Word.name name :: words) (· = name) words Parser.identifier :=
    here rfl kind (advance fun token same => result (Token.text_of_unplaced same))
  exact found.bind fun _ same => same ▸ next

theorem memberName {name : String} (nameable : Nameable name) {f : String → Parser α}
    (next : Rereads words good rest (f name)) :
    Rereads (Word.name name :: words) good rest (Parser.memberName >>= f) := by
  have found : Rereads (Word.name name :: words) (· = name) words Parser.memberName := by
    refine current fun token same => ?_
    rw [if_pos (by rw [← token.isMemberName_unplaced, same]; exact nameable.member)]
    exact advance fun token same => result (Token.text_of_unplaced same)
  exact found.bind fun _ same => same ▸ next

/-! ### Words passed over -/

section Skips

variable {f : Unit → Parser α}

theorem stays (skipped : TokenKind → Bool) (flat : ∀ kind, skipped kind.unplaced = skipped kind)
    (kept : skipped (Token.front words) = false) (next : Rereads words good rest (f ())) :
    Rereads words good rest
      ((modify (·.dropWhile fun token => skipped token.kind) : Parser Unit) >>= f) := by
  intro stream offers
  have left := offers.dropWhile (p := fun token => skipped token.kind) fun token => flat token.kind
  refine next _ ?_
  cases words with
  | nil => exact left
  | cons word words => rwa [List.dropWhile_cons_of_neg (by simpa [Token.front] using kept)] at left

theorem skipsOne (skipped : TokenKind → Bool)
    (flat : ∀ kind, skipped kind.unplaced = skipped kind) (skip : skipped word.kind = true)
    (kept : skipped (Token.front words) = false) (next : Rereads words good rest (f ())) :
    Rereads (word :: words) good rest
      ((modify (·.dropWhile fun token => skipped token.kind) : Parser Unit) >>= f) := by
  intro stream offers
  have left := offers.dropWhile (p := fun token => skipped token.kind) fun token => flat token.kind
  rw [List.dropWhile_cons, if_pos skip] at left
  refine next _ ?_
  cases words with
  | nil => exact left
  | cons word words => rwa [List.dropWhile_cons_of_neg (by simpa [Token.front] using kept)] at left

theorem onLine (other : Token.front words ≠ .newline) (next : Rereads words good rest (f ())) :
    Rereads words good rest (Parser.skipNewlines >>= f) := by
  refine stays (fun kind => decide (kind = .newline)) (fun kind => ?_) ?_ next
  · cases kind <;> rfl
  · exact decide_eq_false other

theorem inStatement (kept : (Token.front words).parts = false)
    (next : Rereads words good rest (f ())) : Rereads words good rest (Parser.skipSeparators >>= f) :=
  stays TokenKind.parts (fun kind => by cases kind <;> rfl) kept next

theorem nextStatement (kept : (Token.front words).parts = false)
    (next : Rereads words good rest (f ())) :
    Rereads (Word.mark .semicolon :: words) good rest (Parser.skipSeparators >>= f) :=
  skipsOne TokenKind.parts (fun kind => by cases kind <;> rfl) rfl kept next

theorem inEntry (kept : (Token.front words).partsEntries = false)
    (next : Rereads words good rest (f ())) :
    Rereads words good rest (Parser.skipEntrySeparators >>= f) :=
  stays TokenKind.partsEntries (fun kind => by cases kind <;> rfl) kept next

theorem nextEntry (kept : (Token.front words).partsEntries = false)
    (next : Rereads words good rest (f ())) :
    Rereads (Word.mark .comma :: words) good rest (Parser.skipEntrySeparators >>= f) :=
  skipsOne TokenKind.partsEntries (fun kind => by cases kind <;> rfl) rfl kept next

end Skips

/-! ### Words further on -/

section Looks

variable {f : Token → Parser α} {kind : TokenKind} {yes no : Parser α}

theorem peek (next : ∀ token : Token, token.kind.unplaced = Token.front words.tail →
    Rereads words good rest (f token)) : Rereads words good rest (Parser.peek >>= f) := by
  intro stream offers
  have later : stream.tail.Offers words.tail := by
    refine ⟨?_, offers.kind⟩
    show stream.ahead.tail.map _ = _
    rw [List.map_tail, offers.ahead]
  exact next stream.tail.current later.front stream offers

theorem pastNewlines (line : Token.front words ≠ .newline)
    (next : ∀ token : Token, token.kind.unplaced = Token.front words →
      Rereads words good rest (f token)) :
    Rereads words good rest (Parser.pastNewlines >>= f) := by
  intro stream offers
  have same : (stream.pastNewlines).kind.unplaced = Token.front words := by
    cases front : stream.ahead with
    | nil =>
        have first : stream.pastNewlines = stream.current := by
          rw [Stream.pastNewlines, Stream.current, front]
          rfl
        rw [first, offers.front]
    | cons token tokens =>
        have here := offers.front
        rw [Stream.current_of_front front] at here
        have ink : ¬ token.kind = .newline := fun feed => line (by rw [← here, feed]; rfl)
        have first : stream.pastNewlines = token := by
          rw [Stream.pastNewlines, front, List.dropWhile_cons_of_neg (by simpa using ink)]
          rfl
        rw [first, here]
  exact next _ same stream offers

theorem announced (fixed : kind.fixed) (line : kind ≠ .newline) (same : Token.front words = kind)
    (next : Rereads words good rest yes) :
    Rereads words good rest
      (Parser.pastNewlines >>= fun token => if token.kind = kind then yes else no) := by
  refine pastNewlines (same ▸ line) fun token found => ?_
  rw [if_pos ((TokenKind.unplaced_eq_iff fixed).mp (found.trans same))]
  exact next

theorem unannounced (fixed : kind.fixed) (line : Token.front words ≠ .newline)
    (other : Token.front words ≠ kind) (next : Rereads words good rest no) :
    Rereads words good rest
      (Parser.pastNewlines >>= fun token => if token.kind = kind then yes else no) := by
  refine pastNewlines line fun token found => ?_
  rw [if_neg fun same => other (found ▸ (TokenKind.unplaced_eq_iff fixed).mpr same)]
  exact next

theorem arrowAhead {f : Bool → Parser α}
    (next : Rereads words good rest (f (Grammar.arrowAfterClose 0 words))) :
    Rereads words good rest (Grammar.arrowAhead >>= f) := by
  intro stream offers
  have same : Grammar.arrowAfterClose 0 words = Grammar.arrowAfterClose 0 stream.ahead := by
    rw [← offers.ahead, Grammar.arrowAfterClose_unplaced]
  rw [same] at next
  exact next stream offers

end Looks

/-! ### Loops -/

section Loops

variable {round : β → Parser (Parser.Round β γ)} {state : β} {found : γ → Prop}

theorem rounds_last (last : Rereads words (Parser.Round.All (fun _ => False) found) rest (round state)) :
    RereadsRounds words found rest round state := by
  intro bound
  cases bound with
  | zero => exact exhausted
  | succ bound =>
      refine last.bind fun decided here => ?_
      cases decided with
      | again state' => exact here.elim
      | done x => exact result here

theorem rounds_again {holds : β → Prop}
    (first : Rereads words (Parser.Round.All holds fun _ => False) middle (round state))
    (later : ∀ state', holds state' → RereadsRounds middle found rest round state') :
    RereadsRounds words found rest round state := by
  intro bound
  cases bound with
  | zero => exact exhausted
  | succ bound =>
      refine first.bind fun decided here => ?_
      cases decided with
      | again state' => exact later state' here bound
      | done x => exact here.elim

theorem loop (rounds : RereadsRounds words found rest round state) :
    Rereads words found rest (Parser.loop round state) :=
  fun stream offers => rounds (stream.size + 1) stream offers

end Loops

end Rereads

/-! ## Lists in brackets -/

namespace Word

theorem joined_cons (item : List Token) (items : List (List Token)) :
    joined (item :: items) = item ++ items.flatMap (mark .comma :: ·) := rfl

theorem joined_cons_cons (item next : List Token) (items : List (List Token)) :
    joined (item :: next :: items) = item ++ mark .comma :: joined (next :: items) := rfl

end Word

/-- After an item there is a comma or the mark that closes the list. -/
def AfterItem (close : Mark) (more : List Token) : Prop :=
  Token.front more = .mark .comma ∨ Token.front more = .mark close

namespace AfterItem

variable {close : Mark} {more : List Token}

theorem ne {kind : TokenKind} (after : AfterItem close more) (comma : .mark .comma ≠ kind)
    (closes : .mark close ≠ kind) : Token.front more ≠ kind := by
  rcases after with same | same <;> rwa [same]

theorem rest (items : List (List Token)) (close : Mark) (more : List Token) :
    AfterItem close (items.flatMap (Word.mark .comma :: ·) ++ Word.mark close :: more) := by
  cases items with
  | nil => exact .inr rfl
  | cons => exact .inl rfl

end AfterItem

/-- Items in a list and the words they are written with. -/
structure Listed {α β : Type} (close : Mark) (item : Parser α) (strip : α → β)
    (row : α × List Token) : Prop where
  starts : ∀ more, Token.front (row.2 ++ more) ≠ .newline ∧ Token.front (row.2 ++ more) ≠ .mark close
  reads : ∀ more, AfterItem close more →
    Rereads (row.2 ++ more) (fun x => strip x = strip row.1) more item

theorem Rereads.listed {α β : Type} {close : Mark} {item : Parser α} {strip : α → β}
    {rows : List (α × List Token)} {more : List Token} (other : close ≠ .comma)
    (all : ∀ row ∈ rows, Listed close item strip row) :
    Rereads (Word.joined (rows.map Prod.snd) ++ Word.mark close :: more)
      (fun found => found.map strip = rows.map (strip ·.1)) more (Parser.listed close item) := by
  have rounds : ∀ done : List α,
      RereadsRounds (Word.joined (rows.map Prod.snd) ++ Word.mark close :: more)
        (fun found => found.map strip = done.reverse.map strip ++ rows.map (strip ·.1)) more
        (Parser.listedRound close item) done := by
    -- on the items still to come; a comma behind an item is taken in the round of that item
    induction rows with
    | nil =>
        intro done
        refine rounds_last (.onLine nofun (.eats rfl rfl (.result ?_)))
        simp
    | cons row rows ih =>
        intro done
        obtain ⟨here, later⟩ := List.forall_mem_cons.mp all
        cases rows with
        | nil =>
            have words : Word.joined ([row].map Prod.snd) = row.2 := List.append_nil _
            rw [words]
            refine rounds_last ?_
            obtain ⟨line, open_⟩ := here.starts (Word.mark close :: more)
            refine .onLine line (.passes rfl open_ ((here.reads _ (.inr rfl)).bind fun x same => ?_))
            refine .onLine nofun (.passes rfl (fun bad => other (TokenKind.mark.inj bad)) ?_)
            refine .onLine nofun (.expects rfl rfl (.result ?_))
            simp [same]
        | cons next rows =>
            rw [List.map_cons, List.map_cons, Word.joined_cons_cons, List.append_assoc]
            obtain ⟨line, open_⟩ :=
              here.starts (Word.mark .comma :: (Word.joined ((next :: rows).map Prod.snd)
                ++ Word.mark close :: more))
            have first : Rereads (row.2 ++ Word.mark .comma
                  :: (Word.joined ((next :: rows).map Prod.snd) ++ Word.mark close :: more))
                (Parser.Round.All
                  (fun found : List α => found.map strip = strip row.1 :: done.map strip) fun _ => False)
                (Word.joined ((next :: rows).map Prod.snd) ++ Word.mark close :: more)
                (Parser.listedRound close item done) := by
              refine .onLine line (.passes rfl open_ ((here.reads _ (.inl rfl)).bind fun x same => ?_))
              refine .onLine nofun (.eats rfl rfl (.result ?_))
              simp [same]
            refine rounds_again first fun found same => ?_
            have rest := ih later found
            simp only [List.map_reverse, same, List.reverse_cons, List.append_assoc] at rest
            simpa using rest
  rw [Parser.listed_eq]
  exact (Rereads.loop (rounds [])).mono fun found same => by simpa using same

end Rill

import Rill.Proofs.Rereading

/-!
# Written operands are read again

What an operand is written with is read to an expression that differs in its positions alone, once
this is known of the goals inside it.
-/

set_option autoImplicit false

namespace Rill

/-! ## Trees wherever their tokens stand -/

abbrev Position.nowhere (_ : Position) : Position := .unknown

abbrev Expr.unplaced (expr : Expr) : Expr := expr.relocate Position.nowhere

abbrev Entry.unplaced (entry : Entry) : Entry := entry.relocate Position.nowhere

abbrev Arm.unplaced (arm : Arm) : Arm := arm.relocate Position.nowhere

abbrev Clause.unplaced (clause : Clause) : Clause := clause.relocate Position.nowhere

abbrev Binding.unplaced (binding : Binding) : Binding := binding.relocate Position.nowhere

abbrev Function.unplaced (fn : Function) : Function := fn.relocate Position.nowhere

abbrev Block.unplaced (block : Block) : Block := block.relocate Position.nowhere

abbrev Stmt.unplaced (stmt : Stmt) : Stmt := stmt.relocate Position.nowhere

section Rows

variable {α : Type}

theorem Expr.unplacedAll {found : List Expr} {rows : List (Expr × α)}
    (same : found.map Expr.unplaced = rows.map (·.1.unplaced)) :
    Expr.relocateAll Position.nowhere found = Expr.relocateAll Position.nowhere (rows.map Prod.fst) := by
  rw [Expr.relocateAll_eq_map, Expr.relocateAll_eq_map, List.map_map]
  exact same

theorem Arm.unplacedAll {found : List Arm} {rows : List (Arm × α)}
    (same : found.map Arm.unplaced = rows.map (·.1.unplaced)) :
    Arm.relocateAll Position.nowhere found = Arm.relocateAll Position.nowhere (rows.map Prod.fst) := by
  rw [Arm.relocateAll_eq_map, Arm.relocateAll_eq_map, List.map_map]
  exact same

theorem Binding.unplacedAll {found : List Binding} {rows : List (Binding × α)}
    (same : found.map Binding.unplaced = rows.map (·.1.unplaced)) :
    Binding.relocateAll Position.nowhere found
      = Binding.relocateAll Position.nowhere (rows.map Prod.fst) := by
  rw [Binding.relocateAll_eq_map, Binding.relocateAll_eq_map, List.map_map]
  exact same

theorem Stmt.unplacedAll {found : List Stmt} {rows : List (Stmt × α)}
    (same : found.map Stmt.unplaced = rows.map (·.1.unplaced)) :
    Stmt.relocateAll Position.nowhere found = Stmt.relocateAll Position.nowhere (rows.map Prod.fst) := by
  rw [Stmt.relocateAll_eq_map, Stmt.relocateAll_eq_map, List.map_map]
  exact same

end Rows

/-! ## What may stand where -/

namespace TokenKind

def opens : TokenKind → Bool
  | ident | number | text | keyword .true_ | keyword .false_ | keyword .nil_ | mark .openParen => true
  | _ => false

theorem ne_of_opens {kind other : TokenKind} (opens : kind.opens = true) (shut : other.opens = false) :
    kind ≠ other := by
  rintro rfl
  exact nomatch opens.symm.trans shut

/-- What an operand goes on with, or what makes it the parameters of a function. -/
def links : TokenKind → Bool
  | newline | mark .openParen | mark .dot | mark .questionDot | mark .openBracket
  | mark .fatArrow => true
  | _ => false

def stops (kind : TokenKind) : Bool :=
  !kind.links && (BinaryOp.ofKind? kind).isNone && kind ≠ mark .question

theorem stops_iff {kind : TokenKind} : kind.stops = true
    ↔ (kind.links = false ∧ BinaryOp.ofKind? kind = none) ∧ kind ≠ mark .question := by
  simp [stops]

/-- What stands at the front of an operand without a sign. -/
def unsigned (kind : TokenKind) : Bool := kind ≠ mark .ellipsis && (UnaryOp.ofKind? kind).isNone

theorem unsigned_iff {kind : TokenKind} : kind.unsigned = true
    ↔ kind ≠ mark .ellipsis ∧ UnaryOp.ofKind? kind = none := by
  simp [unsigned]

theorem unsigned_of_opens {kind : TokenKind} (opens : kind.opens = true) : kind.unsigned = true := by
  cases kind with
  | mark m => cases m <;> first | rfl | exact nomatch opens
  | _ => rfl

end TokenKind

open Word (paren bracket brace joined ended)
open Token (front)

theorem AfterItem.stops {close : Mark} {more : List Token} (after : AfterItem close more)
    (closes : (TokenKind.mark close).stops = true) : (front more).stops = true := by
  rcases after with same | same <;> rw [same]
  · rfl
  · exact closes

theorem Expr.Atom.opens {signed : Bool} {expr : Expr} {word : Token} (atom : expr.Atom signed word) :
    word.kind.opens = true := by
  cases atom with
  | ident named => rw [named.name_eq]; rfl
  | _ => rfl

theorem Expr.Written.opens {expr : Expr} {words : List Token} (written : expr.Written words)
    (more : List Token) : (front (words ++ more)).opens = true := by
  cases written with
  | bare atom => exact atom.opens
  | group => rfl

theorem Expr.Written.front_ne {expr : Expr} {words : List Token} (written : expr.Written words)
    (more : List Token) {kind : TokenKind} (shut : kind.opens = false) : front (words ++ more) ≠ kind :=
  TokenKind.ne_of_opens (written.opens more) shut

theorem Nameable.kind (name : String) : (Word.name name).kind = .ident
    ∨ ∃ k, (Word.name name).kind = .keyword k := by
  unfold Word.name
  cases Keyword.ofWord? name with
  | none => exact .inl rfl
  | some k => exact .inr ⟨k, rfl⟩

theorem Expr.Form.front_ne {expr : Expr} {words : List Token} (form : expr.Form words)
    (more : List Token) : front (words ++ more) ≠ .newline := by
  cases form with
  | atom atom => exact TokenKind.ne_of_opens atom.opens rfl
  | binary first _ | ternary first _ _ | call first _ | member first _ | index first _ =>
      rw [List.append_assoc]
      exact first.front_ne _ rfl
  | namedFunction method => cases method; nofun
  | _ => nofun

/-! ## Ways to reach goals -/

/-- A way to reach goals that reads what is written to what differs from it in positions alone. -/
structure Rereader (reach : Reach) : Prop where
  expression : ∀ {expr : Expr} {words more : List Token}, expr.Written words →
    (front more).stops = true →
    Rereads (words ++ more) (·.unplaced = expr.unplaced) more (reach .expression)
  form : ∀ {expr : Expr} {words : List Token} (more : List Token), expr.Form words →
    Rereads (words ++ Word.mark .closeParen :: more) (·.unplaced = expr.unplaced)
      (Word.mark .closeParen :: more) (reach .expression)
  operation : ∀ {expr : Expr} {words more : List Token} (power : Nat), expr.Written words →
    (front more).stops = true →
    Rereads (words ++ more) (·.unplaced = expr.unplaced) more (reach (.operation power))
  operand : ∀ {expr : Expr} {words more : List Token}, expr.Written words →
    (front more).links = false →
    Rereads (words ++ more) (·.unplaced = expr.unplaced) more (reach .operand)
  pattern : ∀ {signed : Bool} {pattern : Pattern} {words : List Token} (more : List Token),
    pattern.Written signed words → Rereads (words ++ more) (· = pattern) more (reach .pattern)
  statement : ∀ {stmt : Stmt} {words : List Token} (more : List Token), stmt.Written words →
    Rereads (words ++ Word.mark .semicolon :: more) (·.unplaced = stmt.unplaced)
      (Word.mark .semicolon :: more) (reach .statement)
  conditional : ∀ {stmt : Stmt} {words : List Token} (more : List Token), stmt.Branch words →
    Rereads (words ++ Word.mark .semicolon :: more) (·.unplaced = stmt.unplaced)
      (Word.mark .semicolon :: more) (reach .conditional)

namespace Grammar

variable {reach : Reach} {words more : List Token} {good : Expr → Prop}

/-! ## From operands to expressions -/

theorem links_end {object : Expr} (here : good object) (ends : (front more).links = false) :
    RereadsRounds more good more (link reach) object := by
  refine .rounds_last (.sees fun token same => ?_)
  have last : Rereads more (Parser.Round.All (fun _ => False) good) more
      (pure (.done object) : Parser (Parser.Round Expr Expr)) := .result here
  rw [← same] at ends
  obtain ⟨kind, text, pos⟩ := token
  cases kind with
  | newline => exact nomatch ends
  | mark m => cases m <;> first | exact last | exact nomatch ends
  | _ => exact last

theorem chain_reads (reads : Rereads words good more (primary reach))
    (ends : (front more).links = false) : Rereads words good more (chain reach) :=
  reads.bind fun _ here => .loop (links_end here ends)

theorem operand_reads (reads : Rereads words good more (chain reach))
    (start : (front words).unsigned = true) : Rereads words good more (operand reach) := by
  refine .sees fun token same => ?_
  obtain ⟨dots, sign⟩ := TokenKind.unsigned_iff.mp start
  rw [if_neg fun here => dots (by rw [← same, here]; rfl)]
  have barred : UnaryOp.ofKind? token.kind = none := by
    rw [← sign, ← same]
    cases token.kind <;> rfl
  simp only [barred]
  exact reads

theorem climbs_end {power : Nat} {left : Expr} (here : good left)
    (ends : BinaryOp.ofKind? (front more) = none) :
    RereadsRounds more good more (climb reach power) left := by
  refine .rounds_last (.sees fun token same => ?_)
  have barred : BinaryOp.ofKind? token.kind = none := by
    rw [← ends, ← same]
    cases token.kind <;> rfl
  simp only [barred]
  exact .result here

theorem operation_reads (power : Nat) (reads : Rereads words good more (operand reach))
    (ends : BinaryOp.ofKind? (front more) = none) : Rereads words good more (operation reach power) :=
  reads.bind fun _ here => .loop (climbs_end here ends)

theorem expression_reads (reads : Rereads words good more (operation reach 0))
    (ends : front more ≠ .mark .question) : Rereads words good more (expression reach) :=
  reads.bind fun _ here => .passes rfl ends (.result here)

theorem expression_of_primary (reads : Rereads words good more (primary reach))
    (start : (front words).unsigned = true) (ends : (front more).stops = true) :
    Rereads words good more (expression reach) :=
  have ⟨⟨links, op⟩, question⟩ := TokenKind.stops_iff.mp ends
  expression_reads (operation_reads 0 (operand_reads (chain_reads reads links) start) op) question

/-! ## Words and groups -/

theorem numberValue_reads {token : Token} {x : Float} (value : Number.read token.text = some x) :
    Rereads words (· = x) words (numberValue token) := by
  unfold numberValue
  rw [value]
  exact .result rfl

theorem atom_reads {signed : Bool} {expr : Expr} {word : Token} (atom : expr.Atom signed word)
    (arrow : front more ≠ .mark .fatArrow) :
    Rereads (word :: more) (·.unplaced = expr.unplaced) more (primary reach) := by
  cases atom with
  | ident named =>
      rw [named.name_eq]
      exact .look rfl fun pos => .advances (.passes rfl arrow (.result rfl))
  | @number _ text x numeral =>
      refine .look rfl fun pos => .advances ?_
      have value : Rereads more (· = x) more (numberValue ⟨.number, text, pos⟩) :=
        numberValue_reads numeral.value
      refine value.bind fun y same => .result ?_
      rw [same]
      rfl
  | text | true_ | false_ | nil => exact .look rfl fun pos => .advances (.result rfl)

theorem paren_append (words more : List Token) :
    paren words ++ more = Word.mark .openParen :: (words ++ Word.mark .closeParen :: more) := by
  simp [paren, Word.enclosed]

theorem arrowAfterClose_paren (nested : Nested words) (more : List Token) :
    arrowAfterClose 0 (Word.mark .openParen :: (words ++ Word.mark .closeParen :: more)) = true
      ↔ front more = .mark .fatArrow := by
  have step : arrowAfterClose 0 (Word.mark .openParen :: (words ++ Word.mark .closeParen :: more))
      = (more.head?.map Token.kind == some (.mark .fatArrow)) :=
    (nested.arrowAfterClose 0 _).trans rfl
  rw [step]
  cases more <;> simp [front]

theorem group_reads (reader : Rereader reach) {expr : Expr} (form : expr.Form words)
    (arrow : front more ≠ .mark .fatArrow) :
    Rereads (paren words ++ more) (·.unplaced = expr.unplaced) more (primary reach) := by
  rw [paren_append]
  refine .look rfl fun pos => .arrowAhead ?_
  rw [if_neg (fun here => arrow ((arrowAfterClose_paren form.neat.nested more).mp here))]
  exact .advances (.onLine (form.front_ne _) ((reader.form more form).bind fun inner same =>
    .onLine nofun (.expects rfl rfl (.result same))))

theorem primary_reads (reader : Rereader reach) {expr : Expr} (written : expr.Written words)
    (arrow : front more ≠ .mark .fatArrow) :
    Rereads (words ++ more) (·.unplaced = expr.unplaced) more (primary reach) := by
  cases written with
  | bare atom => exact atom_reads atom arrow
  | group form => exact group_reads reader form arrow

theorem written_operand (reader : Rereader reach) {expr : Expr} (written : expr.Written words)
    (ends : (front more).links = false) :
    Rereads (words ++ more) (·.unplaced = expr.unplaced) more (operand reach) := by
  have arrow : front more ≠ .mark .fatArrow := fun here => by rw [here] at ends; exact nomatch ends
  exact operand_reads (chain_reads (primary_reads reader written arrow) ends)
    (TokenKind.unsigned_of_opens (written.opens more))

theorem written_operation (reader : Rereader reach) (power : Nat) {expr : Expr}
    (written : expr.Written words) (ends : (front more).stops = true) :
    Rereads (words ++ more) (·.unplaced = expr.unplaced) more (operation reach power) :=
  have ⟨⟨links, op⟩, _⟩ := TokenKind.stops_iff.mp ends
  operation_reads power (written_operand reader written links) op

theorem written_expression (reader : Rereader reach) {expr : Expr} (written : expr.Written words)
    (ends : (front more).stops = true) :
    Rereads (words ++ more) (·.unplaced = expr.unplaced) more (expression reach) :=
  expression_reads (written_operation reader 0 written ends) (TokenKind.stops_iff.mp ends).2

end Grammar

end Rill

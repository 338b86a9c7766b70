import Rill.Proofs.Written

/-!
# What is written is neat

The brackets in what a tree is written with match, and every word is legible where it stands. So a
rendering of a program is read to the words that it was made of.
-/

set_option autoImplicit false

namespace Rill

open Token (LegibleFrom Plain)
open Word (paren bracket brace joined ended enclosed)

/-- Words whose brackets match and that are legible one after another. If they are `signed`, they
must stand where a sign belongs to a number. -/
structure Neat (signed : Bool) (words : List Token) : Prop where
  nested : Nested words
  legible : ∀ last, (signed = true → Signable last) → LegibleFrom last words

namespace Neat

variable {signed : Bool} {word : Token} {words more : List Token} {items : List (List Token)}

theorem mono (neat : Neat false words) : Neat signed words :=
  ⟨neat.nested, fun last _ => neat.legible last (by simp)⟩

theorem nil : Neat signed [] := ⟨.nil, fun _ _ => trivial⟩

theorem append (front : Neat signed words) (back : Neat false more) : Neat signed (words ++ more) where
  nested := front.nested.append back.nested
  legible last here := (front.legible last here).append fun last => back.legible last (by simp)

theorem cons (plain : word.Plain signed) (flat : word.kind.weight = 0) (later : Neat false words) :
    Neat signed (word :: words) where
  nested := .cons flat later.nested
  legible last here := ⟨plain last here, later.legible _ (by simp)⟩

theorem mark {m : Mark} (flat : (TokenKind.mark m).weight = 0) (later : Neat false words) :
    Neat signed (Word.mark m :: words) :=
  cons (fun last _ => Word.mark_plain m last (by simp)) flat later

theorem keyword (k : Keyword) (later : Neat false words) : Neat signed (Word.keyword k :: words) :=
  cons (fun last _ => Word.keyword_plain k last (by simp)) rfl later

theorem text (content : String) (later : Neat false words) :
    Neat signed (Word.text content :: words) :=
  cons (fun last _ => Word.text_plain content last (by simp)) rfl later

theorem name {name : String} (nameable : Nameable name) (later : Neat false words) :
    Neat signed (Word.name name :: words) := by
  refine cons (fun last _ => nameable.plain last (by simp)) ?_ later
  unfold Word.name
  split <;> rfl

theorem number {text : String} {x : Float} (numeral : Numeral signed text x) (later : Neat false words) :
    Neat signed (Word.number text :: words) := cons numeral.plain rfl later

theorem after {m : Mark} (flat : (TokenKind.mark m).weight = 0)
    (joins : ∀ last, Signable (Cursor.lastInk last (Word.mark m).respelled))
    (later : Neat true words) : Neat signed (Word.mark m :: words) where
  nested := .cons flat later.nested
  legible last _ := ⟨Word.mark_plain m last (by simp), later.legible _ fun _ => joins last⟩

theorem colon (later : Neat true words) : Neat signed (Word.mark .colon :: words) :=
  after rfl (fun _ => rfl) later

theorem comma (later : Neat true words) : Neat signed (Word.mark .comma :: words) :=
  after rfl (fun _ => rfl) later

theorem enclosed {m m' : Mark} (match_ : m.closing? = some m') {inside : Bool}
    (joins : inside = true → ∀ last, Signable (Cursor.lastInk last (Word.mark m).respelled))
    (inner : Neat inside words) : Neat signed (enclosed m m' words) where
  nested := .pair rfl rfl match_ inner.nested .nil
  legible last _ := ⟨Word.mark_plain m last (by simp),
    (inner.legible _ fun here => joins here last).append fun last =>
      ⟨Word.mark_plain m' last (by simp), trivial⟩⟩

theorem paren (inner : Neat true words) : Neat signed (paren words) :=
  enclosed rfl (fun _ _ => rfl) inner

theorem bracket (inner : Neat true words) : Neat signed (bracket words) :=
  enclosed rfl (fun _ _ => rfl) inner

theorem brace (inner : Neat false words) : Neat signed (brace words) :=
  enclosed rfl (by simp) inner

theorem joined (all : ∀ item ∈ items, Neat signed item) : Neat signed (joined items) := by
  cases items with
  | nil => exact nil
  | cons item items =>
      obtain ⟨here, later⟩ := List.forall_mem_cons.mp all
      refine here.append ?_
      clear here all
      induction items with
      | nil => exact nil
      | cons item items ih =>
          obtain ⟨here, later⟩ := List.forall_mem_cons.mp later
          have signable : Neat true item := by
            cases signed with
            | true => exact here
            | false => exact here.mono
          exact (comma signable).append (ih later)

theorem ended (all : ∀ item ∈ items, Neat false item) : Neat false (ended items) := by
  induction items with
  | nil => exact nil
  | cons item items ih =>
      obtain ⟨here, later⟩ := List.forall_mem_cons.mp all
      exact (here.append (mark rfl nil)).append (ih later)

theorem flatten (all : ∀ item ∈ items, Neat false item) : Neat false items.flatten := by
  induction items with
  | nil => exact nil
  | cons item items ih =>
      obtain ⟨here, later⟩ := List.forall_mem_cons.mp all
      exact here.append (ih later)

theorem rows {α : Type} {rows : List (α × List Token)} (all : ∀ row ∈ rows, Neat signed row.2) :
    Neat signed (Word.joined (rows.map Prod.snd)) := joined (List.forall_mem_map.mpr all)

theorem part {α : Type} {row : Option (α × List Token)} (all : ∀ found ∈ row, Neat false found.2) :
    Neat false (row.elim [] Prod.snd) := by
  cases row with
  | none => exact nil
  | some row => exact all row rfl

theorem clause {α : Type} {k : Keyword} {row : Option (α × List Token)}
    (all : ∀ found ∈ row, Neat false found.2) :
    Neat false (row.elim [] (Word.keyword k :: ·.2)) := by
  cases row with
  | none => exact nil
  | some row => exact keyword k (all row rfl)

theorem introduced {k : Keyword} {name : Option String} (named : ∀ given ∈ name, Identifier given) :
    Neat false (name.elim [] fun name => [Word.keyword k, Word.name name]) := by
  cases name with
  | none => exact nil
  | some name => exact keyword k (.name (named name rfl).toNameable .nil)

end Neat

/-! ## Patterns -/

theorem Nameable.wild : Nameable "_" := .of_chars rfl (by decide) rfl

theorem Word.IsKey.neat {key : String} {word : Token} (keyed : Word.IsKey key word) {signed : Bool}
    {words : List Token} (later : Neat false words) : Neat signed (word :: words) := by
  cases keyed with
  | text => exact .text key later
  | name nameable => exact .name nameable later

mutual

theorem Pattern.Written.neat : ∀ {signed : Bool} {pattern : Pattern} {words : List Token},
    Pattern.Written signed pattern words → Neat signed words
  | _, _, _, .wildcard => .name .wild .nil
  | _, _, _, .binding named _ => .name named.toNameable .nil
  | _, _, _, .number numeral => .number numeral .nil
  | _, _, _, .negative numeral => .mark rfl (.number numeral .nil)
  | _, _, _, .text => .text _ .nil
  | _, _, _, .true_ | _, _, _, .false_ | _, _, _, .nil => .keyword _ .nil
  | _, _, _, .array all => .bracket (.rows fun row inside => (all row inside).neat)
  | _, _, _, .arrayRest all named => .bracket (.joined (List.forall_mem_append.mpr
      ⟨List.forall_mem_map.mpr fun row inside => (all row inside).neat,
        List.forall_mem_singleton.mpr (.mark rfl (.name named.toNameable .nil))⟩))
  | _, _, _, .record all => .brace (.rows fun row inside => (all row inside).neat)

theorem Pattern.FieldWritten.neat : ∀ {field : String × Pattern} {words : List Token},
    Pattern.FieldWritten field words → Neat false words
  | _, _, .alone keyed => keyed.neat .nil
  | _, _, .paired keyed value => by
      have later : Neat false _ := .colon value.neat
      exact keyed.neat later

end

theorem Destructure.Written.neat {names : Destructure} {words : List Token}
    (written : names.Written words) : Neat false words := by
  cases written with
  | array named =>
      refine .bracket (.joined fun item member => ?_)
      obtain ⟨name, inside, rfl⟩ := List.mem_map.mp member
      cases name with
      | none => exact .name .wild .nil
      | some name => exact .name (named name inside).1.toNameable .nil
  | record named =>
      refine .brace (.joined fun item member => ?_)
      obtain ⟨name, inside, rfl⟩ := List.mem_map.mp member
      exact .name (named name inside).toNameable .nil

/-! ## Expressions and statements -/

theorem Expr.Atom.neat {signed : Bool} {expr : Expr} {word : Token} (atom : expr.Atom signed word) :
    Neat signed [word] := by
  cases atom with
  | ident named => exact .name named.toNameable .nil
  | number numeral => exact .number numeral .nil
  | text => exact .text _ .nil
  | true_ | false_ | nil => exact .keyword _ .nil

theorem TemplatePart.Written.cooked {part : TemplatePart} {piece : TemplatePiece}
    (written : part.Written piece) : piece.cooked? = part.cooked? := by
  cases written <;> rfl

theorem TemplatePart.Written.cookedAll {rows : List (TemplatePart × TemplatePiece)}
    (all : ∀ row ∈ rows, TemplatePart.Written row.1 row.2) :
    (rows.map Prod.snd).map TemplatePiece.cooked? = rows.map (·.1.cooked?) := by
  rw [List.map_map]
  exact List.map_congr_left fun row inside => (all row inside).cooked

theorem BinaryOp.mark_flat (op : BinaryOp) : (TokenKind.mark op.mark).weight = 0 := by
  cases op <;> rfl

theorem UnaryOp.mark_flat (op : UnaryOp) : (TokenKind.mark op.mark).weight = 0 := by
  cases op <;> rfl

theorem AssignOp.mark_flat (op : AssignOp) : (TokenKind.mark op.mark).weight = 0 := by
  cases op <;> rfl

theorem Neat.hole {words : List Token} (neat : Neat false words) :
    Lexeme.Skips [.hole 1 0] (Token.respell words).toList [.hole 1 0] := by
  have balance := neat.nested.bracesBalance 0 []
  rw [List.append_nil] at balance
  exact (words_skips (neat.legible none (by simp)) balance 0 []).2

mutual

theorem Expr.Form.neat : ∀ {expr : Expr} {words : List Token}, expr.Form words → Neat true words
  | _, _, .atom atom => atom.neat
  | _, _, .template alternate all =>
      .cons (fun last _ => Word.template_plain (TemplatePart.Written.cookedAll all ▸ alternate)
        (fun source pos inside => by
          obtain ⟨row, member, same⟩ := List.mem_map.mp inside
          exact (all row member).skips source pos same) last (by simp)) rfl .nil
  | _, _, .array all => .bracket (.rows fun row inside => (all row inside).neat.mono)
  | _, _, .record all => .brace (.rows fun row inside => (all row inside).neat)
  | _, _, .binary first second => first.neat.mono.append (.mark (BinaryOp.mark_flat _) second.neat)
  | _, _, .unary inner => .mark (UnaryOp.mark_flat _) inner.neat
  | _, _, .ternary test here there =>
      test.neat.mono.append (.mark rfl (here.neat.append (.mark rfl there.neat)))
  | _, _, .call first all => first.neat.mono.append
      (.paren (.rows fun row inside => (all row inside).neat.mono))
  | _, _, .member first nameable =>
      first.neat.mono.append (.mark (by split <;> rfl) (.name nameable .nil))
  | _, _, .index first second => first.neat.mono.append (.bracket second.neat.mono)
  | _, _, .function rest => .keyword _ rest.neat
  | _, _, .namedFunction method => method.neat.mono
  | _, _, .arrow all body =>
      (Neat.paren (.rows fun row inside => (all row inside).neat.mono)).append (.mark rfl body.neat)
  | _, _, .spread source => .mark rfl source.neat
  | _, _, .match_ first all =>
      .keyword _ (first.neat.append (.brace (.rows fun row inside => (all row inside).neat)))
  | _, _, .arrayOf first each all => .bracket (first.neat.mono.append (each.neat.append
      (.flatten (List.forall_mem_map.mpr fun row inside => (all row inside).neat))))
  | _, _, .recordOf first each all => .brace (first.neat.append (each.neat.append
      (.flatten (List.forall_mem_map.mpr fun row inside => (all row inside).neat))))
  | _, _, .super_ => .keyword _ .nil
  | _, _, .superMember nameable => .keyword _ (.mark rfl (.name nameable .nil))

theorem Expr.Written.neat : ∀ {expr : Expr} {words : List Token}, expr.Written words → Neat false words
  | _, _, .bare atom => atom.neat
  | _, _, .group form => .paren form.neat

theorem TemplatePart.Written.skips : ∀ {part : TemplatePart} {piece : TemplatePiece},
    part.Written piece → ∀ source pos, piece = .hole source pos →
      pos = .unknown ∧ Lexeme.Skips [.hole 1 0] source.toList [.hole 1 0]
  | _, _, .text => by simp
  | _, _, .hole inner => by
      rintro source pos ⟨⟩
      exact ⟨rfl, inner.neat.hole⟩

theorem Entry.Written.neat : ∀ {entry : Entry} {words : List Token}, entry.Written words → Neat false words
  | _, _, .named keyed inner => keyed.neat (.mark rfl inner.neat)
  | _, _, .shorthand nameable => .name nameable .nil
  | _, _, .computed first second => (Neat.bracket first.neat.mono).append (.mark rfl second.neat)
  | _, _, .spread inner => .mark rfl inner.neat

theorem Entry.Keyed.neat : ∀ {key value : Expr} {words : List Token}, Entry.Keyed key value words →
    Neat false words
  | _, _, _, .computed first second => (Neat.bracket first.neat.mono).append (.mark rfl second.neat)
  | _, _, _, .named nameable inner => .name nameable (.mark rfl inner.neat)
  | _, _, _, .shorthand nameable => .name nameable .nil

theorem Arm.Written.neat : ∀ {arm : Arm} {words : List Token}, arm.Written words → Neat false words
  | _, _, .mk first second => .keyword _ (first.neat.append (.mark rfl second.neat))

theorem Clause.Written.neat : ∀ {clause : Clause} {words : List Token}, clause.Written words → Neat false words
  | _, _, .each named inner => .keyword _ (.name named.toNameable (.keyword _ inner.neat))
  | _, _, .only inner => .keyword _ inner.neat

theorem Binding.Written.neat : ∀ {binding : Binding} {words : List Token},
    binding.Written words → Neat false words
  | _, _, .bare named => .name named.toNameable .nil
  | _, _, .init named inner => .name named.toNameable (.mark rfl inner.neat)

theorem Function.Rest.neat : ∀ {fn : Function} {words : List Token}, fn.Rest words → Neat false words
  | _, _, .mk all body =>
      (Neat.paren (.rows fun row inside => (all row inside).neat.mono)).append body.neat

theorem Function.Method.neat : ∀ {fn : Function} {words : List Token}, fn.Method words → Neat false words
  | _, _, .mk named rest => .keyword _ (.name named.toNameable rest.neat)

theorem Block.Written.neat : ∀ {block : Block} {words : List Token}, block.Written words → Neat false words
  | _, _, .mk all => .brace (.ended (List.forall_mem_map.mpr fun row inside => (all row inside).neat))

theorem Handler.Written.neat : ∀ {handler : Handler} {words : List Token},
    handler.Written words → Neat false words
  | _, _, .mk named inner =>
      .keyword _ ((Neat.paren (.name named.toNameable .nil)).append inner.neat)

theorem Stmt.Simple.neat : ∀ {stmt : Stmt} {words : List Token}, stmt.Simple words → Neat false words
  | _, _, .expr inner => inner.neat
  | _, _, .declare _ _ all => .keyword _ (.rows fun row inside => (all row inside).neat)
  | _, _, .destructure first second => .keyword _ (first.neat.append (.mark rfl second.neat))
  | _, _, .assign _ first second => first.neat.append (.mark (AssignOp.mark_flat _) second.neat)
  | _, _, .increment _ first | _, _, .decrement _ first => first.neat.append (.mark rfl .nil)

theorem Stmt.Branch.neat : ∀ {stmt : Stmt} {words : List Token}, stmt.Branch words → Neat false words
  | _, _, .alone test here => .keyword _ (test.neat.append here.neat)
  | _, _, .otherwise test here there =>
      .keyword _ (test.neat.append (here.neat.append (.keyword _ there.neat)))
  | _, _, .chained test here there =>
      .keyword _ (test.neat.append (here.neat.append (.keyword _ there.neat)))

theorem Stmt.Written.neat : ∀ {stmt : Stmt} {words : List Token}, stmt.Written words → Neat false words
  | _, _, .simple simple => simple.neat
  | _, _, .branch branch => branch.neat
  | _, _, .function method => method.neat
  | _, _, .class_ named extends_ valued called =>
      .keyword _ (.name named.toNameable ((Neat.introduced extends_).append (.brace (.ended
        (List.forall_mem_append.mpr
          ⟨List.forall_mem_map.mpr fun row inside => .keyword _ (valued row inside).neat,
            List.forall_mem_map.mpr fun row inside => (called row inside).neat⟩)))))
  | _, _, .while_ test inner => .keyword _ (test.neat.append inner.neat)
  | _, _, .for_ first test last inner =>
      .keyword _ ((Neat.paren ((Neat.part fun row inside => (first row inside).neat).mono.append
        (.mark rfl ((Neat.part fun row inside => (test row inside).neat).append
          (.mark rfl (.part fun row inside => (last row inside).neat)))))).append inner.neat)
  | _, _, .forIn named first inner => .keyword _ ((Neat.paren
      (.name named.toNameable (.keyword _ first.neat))).append inner.neat)
  | _, _, .block inner => inner.neat
  | _, _, .return_ | _, _, .break_ | _, _, .continue_ => .keyword _ .nil
  | _, _, .returnValue inner | _, _, .throw_ inner => .keyword _ inner.neat
  | _, _, .try_ _ inner caught last => .keyword _ (inner.neat.append
      ((Neat.part fun row inside => (caught row inside).neat).append
        (.clause fun row inside => (last row inside).neat)))
  | _, _, .import_ named => .keyword _ (.text _ (Neat.introduced named))

end

end Rill

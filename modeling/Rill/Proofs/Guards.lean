import Mathlib
import Rill.Proofs.Shielding

/-!
# Guards

A guard ends at an arrow, and so it keeps its meaning unless its last operand is a name or a group:
what is read from the tokens of an arm's parts on their own is read from them in the arm.
-/

set_option autoImplicit false

namespace Rill.Grammar

open Rill.Stream (Shows)

variable {depth : Nat} {stream : Stream} {tokens rest : List Token}

/-- An expression that is read from its tokens is read from them before an arrow, unless they end
with an exposed operand. -/
theorem expression_before {expr : Expr} (reads : Reads (reach depth .expression) tokens expr [])
    (hidden : exposed true tokens = false) {arrow : Token} (kind : arrow.kind = .mark .fatArrow)
    (shows_ : stream.Shows (tokens ++ arrow :: rest)) :
    ∃ after, reach depth .expression stream = .ok (expr, after) ∧ after.Shows (arrow :: rest) :=
  read_before (reach_shielding depth).expression' reads
    ⟨by rw [kind]; rfl, by rw [kind]; rfl, fun _ => hidden⟩ shows_

/-- An arm gives what its pattern, its guard and its body give on their own, whatever comes after
it, unless the guard ends with an exposed operand. -/
theorem arm_guarded {P G F B R : List Token} {case_ if_ arrow : Token} {pattern : Pattern}
    {guard body : Expr}
    (shows_ : stream.Shows (case_ :: (P ++ if_ :: (G ++ arrow :: (F ++ (B ++ R))))))
    (isCase : case_.kind = .keyword .case_) (isIf : if_.kind = .keyword .if_)
    (isArrow : arrow.kind = .mark .fatArrow) (blank : ∀ token ∈ F, token.kind = .newline)
    (readsP : Reads (reach depth .pattern) P pattern [])
    (readsG : Reads (reach depth .expression) G guard []) (hidden : exposed true G = false)
    (readsB : Reads (reach depth .expression) (B ++ R) body R) :
    ∃ after, arm (reach depth) stream = .ok (⟨pattern, some guard, body⟩, after)
      ∧ after.ahead = R := by
  obtain ⟨stream₂, run₂, shows₂⟩ := pattern_before readsP (by rw [isIf]; rfl) shows_.tail
  obtain ⟨stream₄, run₄, shows₄⟩ := expression_before readsG hidden isArrow shows₂.tail
  have shows₆ := shows₄.tail.pastFeeds blank (starts_of_reads readsB)
  obtain ⟨stream₇, run₇, shows₇⟩ :=
    reads_in (reach_follows 0 (Nat.le_refl depth)).expression readsB shows₆
  refine ⟨stream₇, ?_, shows₇.ahead⟩
  refine Parser.bind_eq_ok.mpr ⟨case_, stream.tail, isCase ▸ shows_.expect, ?_⟩
  refine Parser.bind_eq_ok.mpr ⟨pattern, stream₂, run₂, ?_⟩
  refine Parser.bind_eq_ok.mpr ⟨true, stream₂.tail, isIf ▸ shows₂.eat, ?_⟩
  refine Parser.bind_eq_ok.mpr ⟨guard, stream₄, run₄, ?_⟩
  refine Parser.bind_eq_ok.mpr ⟨some guard, stream₄, rfl, ?_⟩
  refine Parser.bind_eq_ok.mpr ⟨arrow, stream₄.tail, isArrow ▸ shows₄.expect, ?_⟩
  refine Parser.bind_eq_ok.mpr ⟨(), _, rfl, ?_⟩
  exact Parser.bind_eq_ok.mpr ⟨body, stream₇, run₇, rfl⟩

theorem arm_guarded_call :
    ∃ after, arm (reach 4) (Stream.ofTokens [⟨.keyword .case_, "case", ⟨1, 1⟩⟩,
        ⟨.ident, "n", ⟨1, 6⟩⟩, ⟨.keyword .if_, "if", ⟨1, 8⟩⟩, ⟨.ident, "f", ⟨1, 11⟩⟩,
        ⟨.mark .openParen, "(", ⟨1, 12⟩⟩, ⟨.ident, "n", ⟨1, 13⟩⟩, ⟨.mark .closeParen, ")", ⟨1, 14⟩⟩,
        ⟨.mark .fatArrow, "=>", ⟨1, 16⟩⟩, ⟨.ident, "n", ⟨1, 19⟩⟩, ⟨.newline, "\n", ⟨1, 20⟩⟩,
        ⟨.mark .closeBrace, "\x7d", ⟨2, 1⟩⟩, ⟨.endOfInput, "", ⟨2, 2⟩⟩])
        = .ok (⟨.binding "n", some (.call ⟨1, 12⟩ (.ident ⟨1, 11⟩ "f") [.ident ⟨1, 13⟩ "n"]),
            .ident ⟨1, 19⟩ "n"⟩, after)
      ∧ after.ahead = [⟨.newline, "\n", ⟨1, 20⟩⟩, ⟨.mark .closeBrace, "\x7d", ⟨2, 1⟩⟩] := by
  have lexed : tokenize "case n if f(n) => n\n\x7d" = .ok [⟨.keyword .case_, "case", ⟨1, 1⟩⟩,
      ⟨.ident, "n", ⟨1, 6⟩⟩, ⟨.keyword .if_, "if", ⟨1, 8⟩⟩, ⟨.ident, "f", ⟨1, 11⟩⟩,
      ⟨.mark .openParen, "(", ⟨1, 12⟩⟩, ⟨.ident, "n", ⟨1, 13⟩⟩, ⟨.mark .closeParen, ")", ⟨1, 14⟩⟩,
      ⟨.mark .fatArrow, "=>", ⟨1, 16⟩⟩, ⟨.ident, "n", ⟨1, 19⟩⟩, ⟨.newline, "\n", ⟨1, 20⟩⟩,
      ⟨.mark .closeBrace, "\x7d", ⟨2, 1⟩⟩, ⟨.endOfInput, "", ⟨2, 2⟩⟩] := by cbv
  obtain ⟨front, finish, same, genuine⟩ :=
    (Scans.tokenizeAt_eq_ok.mp lexed).genuine (Position.clamp_placed _)
  have dropped := congrArg List.dropLast same
  rw [List.dropLast_concat] at dropped
  subst dropped
  exact arm_guarded (P := [_]) (G := [_, _, _, _]) (F := []) (B := [_]) ⟨⟨genuine, rfl, rfl⟩, rfl⟩
    rfl rfl rfl (List.forall_mem_nil _) ⟨.start, _, rfl, rfl⟩ ⟨.start, _, rfl, rfl⟩ (by decide)
    ⟨.start, _, rfl, rfl⟩

end Rill.Grammar

import Rill.Proofs.Concatenation
import Rill.Proofs.Rereading.Statement
import Rill.Proofs.Writable.Statement

/-!
# Parsing undoes rendering

A program that is read from some source and has no guards can be rendered, and each of its
renderings is read back to the same program up to positions.
-/

set_option autoImplicit false

namespace Rill

open Word (ended)

namespace Grammar

variable {reach : Reach}

theorem programRounds_reads (reader : Rereader reach) {rows : List (Stmt × List Token)}
    (all : ∀ row ∈ rows, row.1.Written row.2) {gap : List Token}
    (apart : gap = [] ∨ gap = [Word.mark .semicolon]) (done : List Stmt) :
    RereadsRounds (gap ++ ended (rows.map Prod.snd))
      (fun found => found.map Stmt.unplaced
        = done.reverse.map Stmt.unplaced ++ rows.map (·.1.unplaced)) [] (programRound reach) done := by
  induction rows generalizing gap done with
  | nil =>
      refine .rounds_last (separated apart rfl (.here rfl rfl (.result ?_)))
      simp
  | cons row rows ih =>
      obtain ⟨here, later⟩ := List.forall_mem_cons.mp all
      have split : ended ((row :: rows).map Prod.snd)
          = row.2 ++ Word.mark .semicolon :: ended (rows.map Prod.snd) := by simp [ended]
      rw [split]
      obtain ⟨kept, -, shown⟩ := TokenKind.inside_of_starts
        (here.starts (Word.mark .semicolon :: ended (rows.map Prod.snd)))
      have first : Rereads (gap ++ (row.2 ++ Word.mark .semicolon :: ended (rows.map Prod.snd)))
          (Parser.Round.All (fun found : List Stmt =>
            found.map Stmt.unplaced = row.1.unplaced :: done.map Stmt.unplaced) fun _ => False)
          ([Word.mark .semicolon] ++ ended (rows.map Prod.snd)) (programRound reach done) := by
        refine separated apart kept (.away rfl shown ?_)
        refine (reader.statement _ here).bind fun stmt same => .result ?_
        simp [same]
      refine .rounds_again first fun found same => ?_
      have rest := ih later (.inr rfl) found
      simp only [List.map_reverse, same, List.reverse_cons, List.append_assoc] at rest
      simpa using rest

theorem statements_reads (reader : Rereader reach) {rows : List (Stmt × List Token)}
    (all : ∀ row ∈ rows, row.1.Written row.2) :
    Rereads (ended (rows.map Prod.snd))
      (fun found => found.map Stmt.unplaced = rows.map (·.1.unplaced)) [] (statements reach) := by
  rw [statements_eq]
  exact .loop (programRounds_reads reader all (.inl rfl) [])

end Grammar

namespace Program

def unplaced (program : Program) : Program :=
  ⟨Stmt.relocateAll Position.nowhere program.body, program.baseDir⟩

theorem renders_of_parse {text dir : String} {program : Program} (parsed : parse text dir = .ok program)
    (unguarded : program.Unguarded) : ∃ rendering, program.Renders rendering := by
  obtain ⟨tokens, read, done⟩ := parse_eq_ok.mp parsed
  obtain ⟨-, after, run⟩ := ofTokens_eq_ok.mp done
  obtain ⟨writable, -⟩ := Grammar.statements_makes (Grammar.reach_makes (Grammar.depthBound tokens))
    _ (Grammar.sound_ofTokens read) run
  obtain ⟨rows, same, written⟩ := rows_of_writable writable unguarded
  exact ⟨_, rows, same.symm, written, rfl⟩

theorem Renders.reads_back {rendering : String} {program : Program}
    (renders : program.Renders rendering) :
    ∃ again, parse rendering program.baseDir = .ok again ∧ again.unplaced = program.unplaced := by
  obtain ⟨rows, body, written, rfl⟩ := renders
  have neat : Neat false (ended (rows.map Prod.snd)) :=
    .ended (List.forall_mem_map.mpr fun row inside => (written row inside).neat)
  obtain ⟨tokens, finish, read, same⟩ := tokenizeAt_words (neat.legible none nofun) .start
  generalize whole : tokens ++ [⟨.endOfInput, "", finish⟩] = all at read
  have offers : (Stream.ofTokens all).Offers (ended (rows.map Prod.snd)) := by
    rw [← whole, Grammar.ofTokens_append tokens rfl]
    exact ⟨same, rfl⟩
  have ends : Ends all program.baseDir := by
    obtain ⟨fed, -, before⟩ := Stream.fed_ofTokens read all.length
    rw [List.take_length] at fed before
    exact ends_of_fed fed before _
  have parsed : parse (Token.respell (ended (rows.map Prod.snd))) program.baseDir
      = ofTokens all program.baseDir := by rw [parse, tokenize, read]
  rw [parsed]
  rcases Grammar.statements_reads (Grammar.reach_rereads (Grammar.depthBound all)) written
    _ offers with out | ⟨found, after, run, trees, -⟩
  · -- the bound on the depth is large enough for the tokens of a text
    obtain ⟨body, after, run, -⟩ | ⟨error, run, -⟩ := ends
    · cases out.symm.trans run
    · cases out.symm.trans run
  · refine ⟨⟨found, program.baseDir⟩, ofTokens_eq_ok.mpr ⟨rfl, after, run⟩, ?_⟩
    simp only [unplaced, body]
    exact congrArg (Program.mk · program.baseDir) (Stmt.unplacedAll trees)

/-- A program that is read from some source and has no guards has a rendering, and every rendering of
it is read back to the program, up to positions. -/
theorem parse_rendering {text dir : String} {program : Program} (parsed : parse text dir = .ok program)
    (unguarded : program.Unguarded) :
    (∃ rendering, program.Renders rendering) ∧ ∀ rendering, program.Renders rendering →
      ∃ again, parse rendering dir = .ok again ∧ again.unplaced = program.unplaced := by
  refine ⟨renders_of_parse parsed unguarded, fun rendering renders => ?_⟩
  obtain ⟨tokens, -, done⟩ := parse_eq_ok.mp parsed
  obtain ⟨rfl, -⟩ := ofTokens_eq_ok.mp done
  exact renders.reads_back

theorem parse_rendering_match : ∃ program,
    parse "match m \x7b case [a, ...r] => \x7bif: a\x7d \x7d" "" = .ok program ∧ program.Unguarded
      ∧ (∃ rendering, program.Renders rendering) ∧ ∀ rendering, program.Renders rendering →
        ∃ again, parse rendering "" = .ok again ∧ again.unplaced = program.unplaced := by
  have read : tokenize "match m \x7b case [a, ...r] => \x7bif: a\x7d \x7d" = .ok [
      ⟨.keyword .match_, "match", ⟨1, 1⟩⟩, ⟨.ident, "m", ⟨1, 7⟩⟩,
      ⟨.mark .openBrace, "\x7b", ⟨1, 9⟩⟩, ⟨.keyword .case_, "case", ⟨1, 11⟩⟩,
      ⟨.mark .openBracket, "[", ⟨1, 16⟩⟩, ⟨.ident, "a", ⟨1, 17⟩⟩, ⟨.mark .comma, ",", ⟨1, 18⟩⟩,
      ⟨.mark .ellipsis, "...", ⟨1, 20⟩⟩, ⟨.ident, "r", ⟨1, 23⟩⟩,
      ⟨.mark .closeBracket, "]", ⟨1, 24⟩⟩, ⟨.mark .fatArrow, "=>", ⟨1, 26⟩⟩,
      ⟨.mark .openBrace, "\x7b", ⟨1, 29⟩⟩, ⟨.keyword .if_, "if", ⟨1, 30⟩⟩,
      ⟨.mark .colon, ":", ⟨1, 32⟩⟩, ⟨.ident, "a", ⟨1, 34⟩⟩, ⟨.mark .closeBrace, "\x7d", ⟨1, 35⟩⟩,
      ⟨.mark .closeBrace, "\x7d", ⟨1, 37⟩⟩, ⟨.endOfInput, "", ⟨1, 38⟩⟩] := by decide +kernel
  have parsed : parse "match m \x7b case [a, ...r] => \x7bif: a\x7d \x7d" "" = .ok ⟨[
      .expr ⟨1, 1⟩ (.match_ ⟨1, 1⟩ (.ident ⟨1, 7⟩ "m")
        [⟨.array [.binding "a"] (some "r"), none,
          .record ⟨1, 29⟩ [.field (.name "if") (.ident ⟨1, 34⟩ "a")]⟩])], ""⟩ := by
    rw [parse, read]
    rfl
  have unguarded : Unguarded ⟨[
      .expr ⟨1, 1⟩ (.match_ ⟨1, 1⟩ (.ident ⟨1, 7⟩ "m")
        [⟨.array [.binding "a"] (some "r"), none,
          .record ⟨1, 29⟩ [.field (.name "if") (.ident ⟨1, 34⟩ "a")]⟩])], ""⟩ :=
    List.forall_mem_singleton.mpr (.expr (.match_ .ident (List.forall_mem_singleton.mpr
      (.mk (.record (List.forall_mem_singleton.mpr (.named .ident)))))))
  exact ⟨_, parsed, unguarded, parse_rendering parsed unguarded⟩

end Program

end Rill

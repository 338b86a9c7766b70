import Rill.Proofs.Legible.Words

/-!
# Templates as words

A template is legible when its texts and holes alternate and each hole is skipped up to its own
closing brace. The templates that the lexer reads alternate so, since it gathers neighbouring
characters in one text.
-/

set_option autoImplicit false

namespace Rill

/-! ## Texts between holes -/

def RawPiece.cooked? : RawPiece → Option String
  | .text cooked => some cooked
  | .hole _ _ => none

/-- The literal text of a piece; a hole has none. -/
def TemplatePiece.cooked? : TemplatePiece → Option String
  | .text cooked => some cooked
  | .hole _ _ => none

/-- No text is empty and no two stand side by side. The flag says whether one stands before these. -/
def Alternates : Bool → List (Option String) → Prop
  | _, [] => True
  | after, some cooked :: rest => after = false ∧ cooked ≠ "" ∧ Alternates true rest
  | _, none :: rest => Alternates false rest

theorem Lexeme.flush_cases (cooked : List Char) :
    flush cooked = [] ∨ ∃ text, text ≠ "" ∧ flush cooked = [.text text] := by
  unfold flush
  split
  · exact .inl rfl
  · next nonempty =>
    refine .inr ⟨_, fun bad => nonempty ?_, rfl⟩
    rw [List.isEmpty_iff, ← List.reverse_eq_nil_iff, ← String.toList_ofList (l := cooked.reverse), bad]
    rfl

theorem Lexeme.flush_reverse (cooked : List Char) : (flush cooked).reverse = flush cooked := by
  obtain nothing | ⟨text, -, one⟩ := flush_cases cooked
  · rw [nothing]; rfl
  · rw [one]; rfl

theorem Alternates.flush (rest : List (Option String)) (later : ∀ after, Alternates after rest)
    (cooked : List Char) :
    Alternates false ((Lexeme.flush cooked).map RawPiece.cooked? ++ rest) := by
  obtain nothing | ⟨text, nonempty, one⟩ := Lexeme.flush_cases cooked
  · rw [nothing]; exact later false
  · rw [one]; exact ⟨rfl, nonempty, later true⟩

theorem Lexeme.pieces_alternate (offset : Nat) (cooked : List Char) (before : List RawPiece)
    (chars : List Char) {found : List RawPiece × Nat}
    (done : pieces offset cooked before chars = .ok found) :
    ∃ more, found.1 = before.reverse ++ more ∧ Alternates false (more.map RawPiece.cooked?) := by
  fun_induction pieces offset cooked before chars with
  | case1 => cases done
  | case2 =>
      cases done
      refine ⟨_, by rw [List.reverse_append, flush_reverse], ?_⟩
      simpa using Alternates.flush [] (fun _ => trivial) _
  | case3 => cases done
  | case4 _ _ _ _ _ _ _ ih => exact ih done
  | case5 => cases done
  | case6 offset cooked before rest finish skipped covered source ih =>
      obtain ⟨more, same, later⟩ := ih done
      refine ⟨flush cooked ++ .hole source (offset + 2) :: more, ?_, ?_⟩
      · rw [same, List.reverse_cons, List.reverse_append, flush_reverse]
        simp
      · rw [List.map_append]
        exact Alternates.flush (none :: more.map RawPiece.cooked?) (fun _ => later) cooked
  | case7 _ _ _ _ _ _ _ _ ih => exact ih done

theorem Lexeme.read_pieces {last : Option Char} {c : Char} {rest : List Char} {lexeme : Lexeme}
    (done : read last c rest = .ok lexeme) {found : List RawPiece}
    (kind : lexeme.kind = .template found) :
    ∃ size, pieces 1 [] [] rest = .ok (found, size) := by
  unfold read at done
  split at done
  · cases done; cases kind
  split at done
  · cases kind.symm.trans (quoted_spells done).1
  split at done
  · cases read : pieces 1 [] [] rest with
    | error problem => rw [template, read] at done; cases done
    | ok pair =>
        rw [template, read] at done
        cases done
        cases kind
        exact ⟨_, rfl⟩
  split at done
  · cases kind.symm.trans ((number_eq_ok c rest lexeme).mp done).2.2.1
  split at done
  · cases kind.symm.trans ((number_eq_ok c rest lexeme).mp done).2.2.1
  split at done
  · cases done; rw [word_kind] at kind; cases kind
  · unfold marked at done
    split at done
    · cases done; cases kind
    · cases done

theorem Token.Genuine.alternates {token : Token} (genuine : token.Genuine)
    {pieces : List TemplatePiece} (template : token.kind = .template pieces) :
    Alternates false (pieces.map TemplatePiece.cooked?) := by
  obtain ⟨cursor, last, c, rest, lexeme, read, -, rfl⟩ := genuine
  obtain ⟨found, kind⟩ : ∃ found, lexeme.kind = .template found := by
    cases (Lexeme.read_form read).2 with
    | template kind => exact ⟨_, kind⟩
    | text kind | feed kind _ | mark kind _ | number kind _ => simp [Cursor.token, kind] at template
    | word starts rest =>
        simp only [Cursor.token, Lexeme.word] at template
        split at template <;> cases template
  have same : pieces = found.map (cursor.piece ·) := by
    simpa [Cursor.token, kind, eq_comm] using template
  obtain ⟨size, done⟩ := Lexeme.read_pieces read kind
  obtain ⟨more, whole, alternates⟩ := Lexeme.pieces_alternate 1 [] [] rest done
  obtain rfl : found = more := whole
  rw [same, List.map_map]
  refine (congrArg (Alternates false) (List.map_congr_left fun piece _ => ?_)).mp alternates
  cases piece <;> rfl

/-! ## Templates -/

/-- The spelling of a piece: a text with every character escaped, a hole between its braces. -/
def TemplatePiece.spelled : TemplatePiece → List Char
  | .text cooked => Lexeme.escaped cooked.toList
  | .hole source _ => '$' :: '\x7b' :: (source.toList ++ ['\x7d'])

def Word.template (pieces : List TemplatePiece) : Token :=
  ⟨.template pieces, String.ofList ('`' :: (pieces.flatMap TemplatePiece.spelled ++ ['`'])), .unknown⟩

namespace Lexeme

theorem pieces_escaped (offset : Nat) (cooked : List Char) (before : List RawPiece)
    (text more : List Char) :
    pieces offset cooked before (escaped text ++ more)
      = pieces (offset + (escaped text).length) (text.reverse ++ cooked) before more := by
  induction text generalizing offset cooked with
  | nil => rfl
  | cons c text ih =>
      have size := length_hexText 8 c.toNat
      have split : escaped (c :: text) ++ more
          = '\\' :: 'U' :: (hexText 8 c.toNat ++ (escaped text ++ more)) := by
        simp [escaped]
      have left : ('U' :: (hexText 8 c.toNat ++ (escaped text ++ more))).drop (10 - 1)
          = escaped text ++ more := by
        rw [List.drop_succ_cons, List.drop_left' size]
      have whole : (escaped (c :: text)).length = 10 + (escaped text).length := by
        simp only [escaped, List.flatMap_cons, List.length_append, List.length_cons, size]
      rw [split, pieces, escape_hexText]
      simp only [left, ih, whole, List.reverse_cons, List.append_assoc, List.singleton_append,
        Nat.add_assoc]

theorem pieces_hole (offset : Nat) (cooked : List Char) (before : List RawPiece)
    {source : List Char} (skips : Skips [.hole 1 0] source [.hole 1 0]) (more : List Char) :
    pieces offset cooked before ('$' :: '\x7b' :: (source ++ '\x7d' :: more))
      = pieces (offset + (source.length + 3)) []
          (.hole (String.ofList source) (offset + 2) :: (flush cooked ++ before)) more := by
  have skipped : skip [.hole 1 0] (offset + 2) (source ++ '\x7d' :: more)
      = .ok (offset + 2 + source.length + 1) := by
    have closing : skip [.hole 1 0] (offset + 2 + source.length) (['\x7d'] ++ more)
        = skip [] (offset + 2 + source.length + 1) more := (Moves.closes (Nat.le_refl 1)).skip
    exact (skips (offset + 2) ('\x7d' :: more)).trans (closing.trans (by rw [skip]))
  have covered : offset + 2 + source.length + 1 - (offset + 2) = source.length + 1 := by omega
  rw [pieces, skipped]
  simp only [covered, Nat.add_sub_cancel, List.take_left]
  rw [List.append_cons, show source.length + 1 = (source ++ ['\x7d']).length by simp,
    List.drop_left, show offset + 2 + source.length + 1 = offset + (source.length + 3) by omega]

theorem pieces_spelled (found : List TemplatePiece) {after : Bool}
    (alternates : Alternates after (found.map TemplatePiece.cooked?))
    (holes : ∀ source pos, .hole source pos ∈ found →
      pos = .unknown ∧ Skips [.hole 1 0] source.toList [.hole 1 0])
    (offset : Nat) (cooked : List Char) (before : List RawPiece) (fresh : after = false → cooked = []) :
    ∃ raw, pieces offset cooked before (found.flatMap TemplatePiece.spelled ++ ['`'])
        = .ok (before.reverse ++ (flush cooked ++ raw),
            offset + (found.flatMap TemplatePiece.spelled).length + 1)
      ∧ ∀ cursor : Cursor, (raw.map (cursor.piece ·)).map TemplatePiece.unplaced = found := by
  induction found generalizing after offset cooked before with
  | nil =>
      refine ⟨[], ?_, fun _ => rfl⟩
      show pieces offset cooked before ['`'] = _
      rw [pieces, List.reverse_append, flush_reverse, List.append_nil]
      rfl
  | cons piece found ih =>
      have others : ∀ source pos, .hole source pos ∈ found → _ :=
        fun source pos inside => holes source pos (List.mem_cons_of_mem _ inside)
      rw [List.flatMap_cons, List.append_assoc]
      cases piece with
      | text content =>
          obtain ⟨rfl, nonempty, later⟩ := alternates
          obtain rfl := fresh rfl
          obtain ⟨raw, read, same⟩ := ih later others
            (offset + (escaped content.toList).length) (content.toList.reverse ++ []) before (by simp)
          refine ⟨.text content :: raw, ?_, fun cursor => ?_⟩
          · have gathered : flush (content.toList.reverse ++ []) = [.text content] := by
              rw [List.append_nil, flush, if_neg, List.reverse_reverse, String.ofList_toList]
              rw [List.isEmpty_iff, List.reverse_eq_nil_iff]
              exact fun empty => nonempty (String.toList_inj.mp (empty.trans rfl))
            rw [TemplatePiece.spelled, pieces_escaped, read, gathered, List.length_append,
              Nat.add_assoc offset]
            rfl
          · rw [List.map_cons, List.map_cons, same]
            rfl
      | hole source pos =>
          obtain ⟨rfl, skips⟩ := holes source pos List.mem_cons_self
          obtain ⟨raw, read, same⟩ := ih alternates others (offset + (source.toList.length + 3)) []
            (.hole (String.ofList source.toList) (offset + 2) :: (flush cooked ++ before)) fun _ => rfl
          refine ⟨.hole source (offset + 2) :: raw, ?_, fun cursor => ?_⟩
          · rw [TemplatePiece.spelled, List.cons_append, List.cons_append, List.append_assoc,
              List.singleton_append, pieces_hole _ _ _ skips, read, String.ofList_toList,
              List.reverse_cons, List.reverse_append, flush_reverse]
            simp only [flush, List.isEmpty_nil, if_true, List.nil_append, List.append_assoc,
              List.singleton_append, List.length_append, List.length_cons, List.length_nil]
            congr 2
            omega
          · rw [List.map_cons, List.map_cons, same]
            rfl

end Lexeme

theorem Word.template_plain {found : List TemplatePiece}
    (alternates : Alternates false (found.map TemplatePiece.cooked?))
    (holes : ∀ source pos, .hole source pos ∈ found →
      pos = .unknown ∧ Lexeme.Skips [.hole 1 0] source.toList [.hole 1 0]) :
    (template found).Plain false := by
  intro last _
  have shown : (template found).kind ≠ .text := nofun
  obtain ⟨raw, read, same⟩ := Lexeme.pieces_spelled found alternates holes 1 [] [] fun _ => rfl
  generalize spelled : found.flatMap TemplatePiece.spelled = chars at read
  have text : (template found).text = String.ofList ('`' :: (chars ++ ['`'])) := by
    rw [template, spelled]
  have fits : max (1 + chars.length + 1) 1 = (chars ++ ['`']).length + 1 := by
    rw [List.length_append]
    simp
    omega
  have lexed : Lexeme.read last '`' (chars ++ ['`']) = .ok ⟨.template raw,
      String.ofList ('`' :: (chars ++ ['`']).take (1 + chars.length + 1 - 1)),
      max (1 + chars.length + 1) 1, by omega⟩ := by
    show Lexeme.template (chars ++ ['`']) = _
    rw [Lexeme.template, read]
    rfl
  refine ⟨'`', chars ++ ['`'], _, ?_, Lexeme.no_trivia lexed fits, lexed, fits, fun cursor => ?_⟩
  · rw [Token.respelled, if_neg shown, text, String.toList_ofList]
  · have whole : (chars ++ ['`']).take (1 + chars.length + 1 - 1) = chars ++ ['`'] :=
      List.take_of_length_le (by rw [List.length_append]; simp)
    simp only [Cursor.token, Token.unplaced, TokenKind.unplaced, same, whole, ← text]
    rfl

end Rill

/-
**Cutting undoes writing.**

Tokens that are written one behind the other come back when the line is cut, with the characters
that they were written with and at the places where they stand.  Any gaps may be left around them;
only between two numbers there has to be one, since the first number would go on with the digits of
the second.  A number that ends with a bare separator, and a number in front of a glyph, end by
themselves.

In particular the tokens of any line, written again with single blanks between them, are cut into
the same kinds and texts.

Main definitions:

* `Piece.spaced` — lexemes with single blanks between them;
* `Lexer.respaced` — a line with single blanks between its tokens.

Main results:

* `Piece.written_append_cons`, `Piece.placed_getElem?` — where the token of a piece stands;
* `Lexer.IsCut.isProper_lexeme` — the tokens of a line can be written again;
* `Lexer.printed_tokens_return` — **cutting undoes writing**.
-/

import Reckon.Proofs.Layout

set_option autoImplicit false
set_option relaxedAutoImplicit false

namespace Reckon

namespace Piece

theorem length_placed (start : Nat) (ps : List Piece) : (placed start ps).length = ps.length := by
  rw [← List.length_map Token.lexeme, lexeme_placed, List.length_map]

/-- In front of the lexeme of a piece stand the pieces before it and its gap. -/
theorem written_append_cons (before : List Piece) (p : Piece) (behind : List Piece)
    (last : List Char) :
    written (before ++ p :: behind) last =
      written before p.gap ++ (p.lexeme.text ++ written behind last) := by
  induction before with
  | nil => rfl
  | cons q before ih =>
      rw [List.cons_append, written, ih, written, List.append_assoc, List.append_assoc]

/-- The token of a piece stands behind everything that is written in front of its lexeme. -/
theorem placed_getElem? (start : Nat) (before : List Piece) (p : Piece) (behind : List Piece) :
    (placed start (before ++ p :: behind))[before.length]? =
      some ⟨p.lexeme.kind, String.ofList p.lexeme.text,
        some ⟨start + (written before p.gap).length,
          start + (written before p.gap).length + p.lexeme.text.length⟩⟩ := by
  induction before generalizing start with
  | nil => rfl
  | cons q before ih =>
      rw [List.cons_append, placed, List.length_cons, List.getElem?_cons_succ, ih, written,
        List.length_append, List.length_append, Nat.add_assoc start, Nat.add_assoc start,
        Nat.add_assoc q.gap.length]

/-! ### Single blanks -/

/-- The lexemes with single blanks between them. -/
def spaced : List Lexeme → List Piece
  | [] => []
  | w :: ws => ⟨[], w⟩ :: ws.map (mk [' '])

theorem map_lexeme_spaced (ws : List Lexeme) : (spaced ws).map lexeme = ws := by
  cases ws with
  | nil => rfl
  | cons w ws =>
      rw [spaced, List.map_cons, List.map_map]
      exact congrArg (w :: ·) (List.map_id ws)

/-- Lexemes with single blanks between them are their texts with single blanks between these. -/
theorem written_spaced (ws : List Lexeme) :
    written (spaced ws) [] = List.intercalate [' '] (ws.map Lexeme.text) := by
  induction ws with
  | nil => rfl
  | cons w ws ih =>
      cases ws with
      | nil => simp [spaced, written]
      | cons v ws =>
          rw [List.map_cons, List.map_cons, List.intercalate_cons_cons, ← List.map_cons, ← ih]
          simp [spaced, written]

/-- Lexemes can be written with single blanks between them. -/
theorem printable_spaced (s : Separator) {ws : List Lexeme}
    (hws : ∀ w ∈ ws, w.IsProper s.char) : Printable s.char (spaced ws) [] := by
  have hblank : Lexer.IsGap s.char [' '] :=
    s.isGap_of_isBlank (List.forall_mem_singleton.2 (by decide))
  refine ⟨?_, ?_, by simp [Lexer.IsGap], ?_⟩
  · cases ws with
    | nil => simp [spaced]
    | cons w ws =>
        refine List.forall_mem_cons.2 ⟨by simp [Lexer.IsGap], ?_⟩
        exact List.forall_mem_map.2 fun _ _ => hblank
  · intro p hp
    have hmem := List.mem_map_of_mem (f := lexeme) hp
    rw [map_lexeme_spaced] at hmem
    exact hws _ hmem
  · cases ws with
    | nil => exact .nil
    | cons w ws =>
        have hparted : ∀ (p : Piece) (v : Lexeme), Parted p ⟨[' '], v⟩ := by
          rintro p v - - ⟨⟩
        refine List.isChain_cons.2 ⟨?_, ?_⟩
        · intro q hq
          obtain ⟨v, -, rfl⟩ := List.mem_map.1 (List.mem_of_mem_head? hq)
          exact hparted _ v
        · exact (List.isChain_map _).2
            (List.pairwise_of_forall fun u v => hparted ⟨[' '], u⟩ v).isChain

end Piece

namespace Lexer

/-- A token of a line can be written again. -/
theorem IsCut.isProper_lexeme {separator : Char} {chars : List Char} {t : Token}
    (h : IsCut separator chars t) : t.lexeme.IsProper separator := by
  by_cases hk : t.kind = .number
  · exact Or.inr ⟨hk, (h.number hk).1⟩
  · exact Or.inl (h.glyph hk)

/-- The line with its tokens written again, single blanks between them. -/
def respaced (separator : Char) (line : String) : String :=
  " ".intercalate ((ofLine separator line).tokens.map Token.text)

theorem toList_respaced (separator : Char) (line : String) :
    (respaced separator line).toList =
      Piece.written (Piece.spaced ((ofLine separator line).tokens.map Token.lexeme)) [] := by
  rw [respaced, String.toList_intercalate, Piece.written_spaced, List.map_map, List.map_map]
  rfl

/-- **Cutting undoes writing.**  Let glyphs and numbers be written down with gaps of other
characters than digits, glyphs and the separator, and with a gap that is not empty between any two
numbers.  Then the tokens of the line are these, one after another, each with its kind and its
characters and at the place where these stand in the line, and behind them comes the end of the
input, at the length of the line and as often as it is asked for.  So the tokens of any line,
written again with single blanks between them, have the same kinds and texts. -/
theorem printed_tokens_return (s : Separator) :
    (∀ ps last, Piece.Printable s.char ps last →
      (∀ before p behind, ps = before ++ p :: behind →
        Piece.written ps last =
          Piece.written before p.gap ++ (p.lexeme.text ++ Piece.written behind last) ∧
        ((ofLine s.char (String.ofList (Piece.written ps last))).after before.length).next.1 =
          ⟨p.lexeme.kind, String.ofList p.lexeme.text,
            some ⟨(Piece.written before p.gap).length,
              (Piece.written before p.gap).length + p.lexeme.text.length⟩⟩) ∧
      ∀ n, ps.length ≤ n →
        ((ofLine s.char (String.ofList (Piece.written ps last))).after n).next.1 =
          .endOfInput (some (.point (Piece.written ps last).length))) ∧
    ∀ line, (ofLine s.char (respaced s.char line)).tokens.map Token.lexeme =
      (ofLine s.char line).tokens.map Token.lexeme := by
  constructor
  · intro ps last h
    have htokens : (ofLine s.char (String.ofList (Piece.written ps last))).tokens =
        Piece.placed 0 ps :=
      tokens_of_legible h.legible String.toList_ofList
    constructor
    · rintro before p behind rfl
      obtain ⟨htoken, -⟩ := next_after_ofLine s.char
        (String.ofList (Piece.written (before ++ p :: behind) last)) before.length
      refine ⟨Piece.written_append_cons before p behind last, ?_⟩
      rw [htoken, htokens, Piece.placed_getElem?, Option.getD_some, Nat.zero_add]
    · intro n hn
      obtain ⟨htoken, -⟩ := next_after_ofLine s.char (String.ofList (Piece.written ps last)) n
      rw [htoken, htokens, List.getElem?_eq_none (by rwa [Piece.length_placed]), Option.getD_none,
        String.toList_ofList]
      rfl
  · intro line
    have hproper : ∀ w ∈ (ofLine s.char line).tokens.map Token.lexeme, w.IsProper s.char :=
      List.forall_mem_map.2 fun t ht =>
        ((stands_ofLine s.char line).walk_tokens.isCutting.cut t ht).isProper_lexeme
    rw [tokens_of_legible (Piece.printable_spaced s hproper).legible (toList_respaced s.char line),
      Piece.lexeme_placed, Piece.map_lexeme_spaced]

/-- Numbers that touch glyphs, one of them with a bare separator, and two with a gap. -/
def touching : List Piece :=
  [⟨[' '], ⟨.number, ['1', '.']⟩⟩, ⟨[], .mark .leftParen⟩, ⟨[], ⟨.number, ['2']⟩⟩,
    ⟨[' '], ⟨.number, ['3']⟩⟩, ⟨[], .mark .bang⟩]

theorem printed_tokens_return_touching :
    Piece.Printable '.' touching ['x'] ∧
      String.ofList (Piece.written touching ['x']) = " 1.(2 3!x" ∧
        ((ofLine '.' " 1.(2 3!x").after 3).next.1 = ⟨.number, "3", some ⟨6, 7⟩⟩ ∧
          ((ofLine '.' " 1.(2 3!x").after 5).next.1 = .endOfInput (some ⟨9, 9⟩) ∧
            (ofLine '.' "1. ( 2 3 !").tokens.map Token.lexeme =
              (ofLine '.' " 1.(2 3!x").tokens.map Token.lexeme := by
  have hprintable : Piece.Printable '.' touching ['x'] := by
    have hone : IsNumber '.' ['1', '.'] :=
      ⟨['1'], by simp, List.forall_mem_singleton.2 rfl, .inr ⟨[], by simp, rfl⟩⟩
    have hdigit : ∀ c : Char, c.isDigit = true → IsNumber '.' [c] :=
      fun c hc => ⟨[c], by simp, List.forall_mem_singleton.2 hc, .inl rfl⟩
    refine ⟨?_, ?_, ?_, ?_⟩
    · simp [touching, IsGap, startsToken, Kind.ofGlyph?, Kind.all, Kind.glyph?]
    · simp only [touching, List.forall_mem_cons]
      exact ⟨.inr ⟨rfl, hone⟩, Lexeme.isProper_mark rfl, .inr ⟨rfl, hdigit '2' rfl⟩,
        .inr ⟨rfl, hdigit '3' rfl⟩, Lexeme.isProper_mark rfl, by simp⟩
    · simp [IsGap, startsToken, Kind.ofGlyph?, Kind.all, Kind.glyph?]
    · simp [touching, Piece.Parted, Lexeme.mark]
  obtain ⟨hprinted, hrespaced⟩ := printed_tokens_return .point
  obtain ⟨htokens, hend⟩ := hprinted touching ['x'] hprintable
  have hline : respaced '.' " 1.(2 3!x" = "1. ( 2 3 !" := by
    have hlegible : Piece.Legible '.' touching ['x'] :=
      Piece.Printable.legible (s := .point) hprintable
    have htokens : (ofLine '.' " 1.(2 3!x").tokens = Piece.placed 0 touching :=
      tokens_of_legible hlegible String.toList_ofList
    rw [respaced, htokens]
    rfl
  refine ⟨hprintable, rfl, (htokens (touching.take 3) _ _ rfl).2, hend 5 (by decide), ?_⟩
  rw [← hline]
  exact hrespaced " 1.(2 3!x"

end Lexer

end Reckon

/-
**Lines laid out from lexemes.**

A line can be written from lexemes, which are glyphs and numbers, with gaps of other characters in
front of the lexemes and behind the last one.  Cutting such a line into tokens gives the lexemes
back, each at the place where it was written, as long as every number ends where it was meant to
end: the lexer goes on for as long as it can, so a gap is needed between two numbers, and nowhere
else if the separator is no glyph.

Main definitions:

* `Lexeme`, `Token.lexeme`, `Lexeme.mark` — a kind with its characters, those of a token, and
  those of a glyph;
* `Piece`, `Piece.written`, `Piece.placed` — a lexeme with the gap in front of it, the line that
  pieces make, and the tokens that they should be;
* `Lexer.IsGap`, `Lexeme.IsProper`, `Piece.Legible` — what gaps and lexemes may be;
* `Piece.Printable` — pieces with a gap between any two numbers.

Main results:

* `Separator.isGap_of_isBlank` — blanks are gaps for every separator that is accepted;
* `Piece.legible_of_isChain`, `Piece.Printable.legible` — gaps between the numbers are enough;
* `Lexer.tokens_of_legible` — **the lexemes come back**;
* `Source.endless_ofLine`, `Source.spells_endless_ofLine` — the stream of a line is its tokens and
  then ends of the input.
-/

import Mathlib.Data.List.Chain
import Reckon.Proofs.Cutting
import Reckon.Separator

set_option autoImplicit false
set_option relaxedAutoImplicit false

namespace Reckon

/-- A kind of token with the characters that are written for it. -/
structure Lexeme where
  kind : Kind
  text : List Char
deriving DecidableEq, Repr

/-- What a token was read from, wherever it stands. -/
def Token.lexeme (t : Token) : Lexeme := ⟨t.kind, t.text.toList⟩

/-- A lexeme with the gap in front of it. -/
structure Piece where
  gap : List Char
  lexeme : Lexeme
deriving DecidableEq, Repr

/-- The characters of a gap start no token and are not the separator. -/
def Lexer.IsGap (separator : Char) (gap : List Char) : Prop :=
  ∀ c ∈ gap, startsToken c = false ∧ c ≠ separator

/-- The lexeme is a glyph or has the form of a number. -/
def Lexeme.IsProper (separator : Char) (w : Lexeme) : Prop :=
  (∃ c, w.kind.glyph? = some c ∧ w.text = [c]) ∨
    (w.kind = .number ∧ Lexer.IsNumber separator w.text)

/-- The lexeme of a kind that is written with a glyph. -/
def Lexeme.mark (k : Kind) : Lexeme := ⟨k, k.glyph?.toList⟩

theorem Lexeme.isProper_mark {separator : Char} {k : Kind} (h : k.glyph?.isSome = true) :
    (Lexeme.mark k).IsProper separator := by
  obtain ⟨c, hc⟩ := Option.isSome_iff_exists.1 h
  refine Or.inl ⟨c, hc, ?_⟩
  rw [mark, hc]
  rfl

theorem Token.kind_of_lexeme {t : Token} {k : Kind} (h : t.lexeme = .mark k) : t.kind = k :=
  congrArg Lexeme.kind h

theorem Kind.not_isBlank_of_ofGlyph? {k : Kind} {c : Char} (h : ofGlyph? c = some k) :
    Text.isBlank c = false := by
  rw [ofGlyph?_eq_some_iff] at h
  cases k <;> simp only [glyph?, Option.some.injEq, reduceCtorEq] at h <;> subst h <;> decide

/-- Blank characters make a gap, since no character of a token and no separator is blank. -/
theorem Separator.isGap_of_isBlank (s : Separator) {gap : List Char}
    (h : ∀ c ∈ gap, Text.isBlank c = true) : Lexer.IsGap s.char gap := by
  intro c hc
  have hblank := h c hc
  refine ⟨Lexer.startsToken_eq_false_iff.2 ⟨?_, ?_⟩, ?_⟩
  · refine Option.eq_none_iff_forall_ne_some.2 ?_
    intro k hk
    rw [Kind.not_isBlank_of_ofGlyph? hk] at hblank
    exact absurd hblank Bool.false_ne_true
  · refine Bool.eq_false_iff.2 ?_
    intro hdigit
    rw [Text.not_isBlank_of_isDigit hdigit] at hblank
    exact absurd hblank Bool.false_ne_true
  · rintro rfl
    rw [(isAcceptable_iff.1 s.acceptable).2.1] at hblank
    exact absurd hblank Bool.false_ne_true

namespace Piece

def written : List Piece → List Char → List Char
  | [], last => last
  | p :: ps, last => p.gap ++ (p.lexeme.text ++ written ps last)

/-- The tokens of the pieces, the first of which starts at the given position. -/
def placed : Nat → List Piece → List Token
  | _, [] => []
  | start, p :: ps =>
      ⟨p.lexeme.kind, String.ofList p.lexeme.text,
        some ⟨start + p.gap.length, start + p.gap.length + p.lexeme.text.length⟩⟩ ::
          placed (start + p.gap.length + p.lexeme.text.length) ps

theorem lexeme_placed (start : Nat) (ps : List Piece) :
    (placed start ps).map Token.lexeme = ps.map lexeme := by
  induction ps generalizing start with
  | nil => rfl
  | cons p ps ih => simp [placed, Token.lexeme, ih]

/-- Gaps are gaps, lexemes are proper, and numbers end where they have to. -/
def Legible (separator : Char) : List Piece → List Char → Prop
  | [], last => Lexer.IsGap separator last
  | p :: ps, last =>
      Lexer.IsGap separator p.gap ∧ p.lexeme.IsProper separator ∧
        (p.lexeme.kind = .number →
          Lexer.EndsNumber separator p.lexeme.text (written ps last).head?) ∧
        Legible separator ps last

/-- The second piece does not run into the first one: if that is a number, there is a gap, or a
glyph that is not the separator. -/
def Apart (separator : Char) (p q : Piece) : Prop :=
  p.lexeme.kind = .number → q.gap = [] → ∃ c, q.lexeme.kind.glyph? = some c ∧ c ≠ separator

/-- A number ends in front of a gap. -/
theorem endsNumber_of_isGap {separator : Char} {gap text : List Char}
    (h : Lexer.IsGap separator gap) : Lexer.EndsNumber separator text gap.head? := by
  intro c hc
  obtain ⟨hstarts, hne⟩ := h c (List.mem_of_mem_head? hc)
  exact ⟨(Lexer.startsToken_eq_false_iff.1 hstarts).2, fun _ => hne⟩

/-- A number ends in front of a piece that does not run into it. -/
theorem endsNumber_of_apart {separator : Char} {p q : Piece} {ps : List Piece} {last : List Char}
    (hp : p.lexeme.kind = .number) (hgap : Lexer.IsGap separator q.gap)
    (hlexeme : q.lexeme.IsProper separator) (h : Apart separator p q) :
    Lexer.EndsNumber separator p.lexeme.text (written (q :: ps) last).head? := by
  cases hq : q.gap with
  | cons c cs =>
      rw [hq] at hgap
      have hend : Lexer.EndsNumber separator p.lexeme.text (c :: cs).head? :=
        endsNumber_of_isGap hgap
      rw [written, hq]
      exact hend
  | nil =>
      obtain ⟨c, hc, hne⟩ := h hp hq
      rcases hlexeme with ⟨d, hd, htext⟩ | ⟨hk, -⟩
      · rw [hc, Option.some.injEq] at hd
        subst hd
        rw [written, hq, htext]
        rintro d ⟨⟩
        exact ⟨Kind.not_isDigit_of_ofGlyph? (Kind.ofGlyph?_glyph hc), fun _ => hne⟩
      · rw [hk] at hc
        exact absurd hc (by simp [Kind.glyph?])

/-- Pieces are legible if none runs into the one before it. -/
theorem legible_of_isChain {separator : Char} {ps : List Piece} {last : List Char}
    (hgaps : ∀ p ∈ ps, Lexer.IsGap separator p.gap)
    (hlexemes : ∀ p ∈ ps, p.lexeme.IsProper separator) (hlast : Lexer.IsGap separator last)
    (h : ps.IsChain (Apart separator)) : Legible separator ps last := by
  induction ps with
  | nil => exact hlast
  | cons p ps ih =>
      obtain ⟨hgap, hgaps⟩ := List.forall_mem_cons.1 hgaps
      obtain ⟨hlexeme, hlexemes⟩ := List.forall_mem_cons.1 hlexemes
      refine ⟨hgap, hlexeme, ?_, ih hgaps hlexemes (List.IsChain.tail h)⟩
      intro hk
      cases ps with
      | nil => exact endsNumber_of_isGap hlast
      | cons q ps =>
          exact endsNumber_of_apart hk (hgaps q (List.mem_cons_self ..))
            (hlexemes q (List.mem_cons_self ..)) (List.isChain_cons_cons.1 h).1

/-- There is a gap between the two pieces if both are numbers. -/
def Parted (p q : Piece) : Prop :=
  p.lexeme.kind = .number → q.lexeme.kind = .number → q.gap ≠ []

/-- What may be written down: glyphs and numbers with gaps around them, and always one between two
numbers. -/
structure Printable (separator : Char) (ps : List Piece) (last : List Char) : Prop where
  isGap : ∀ p ∈ ps, Lexer.IsGap separator p.gap
  isProper : ∀ p ∈ ps, p.lexeme.IsProper separator
  isGap_last : Lexer.IsGap separator last
  parted : ps.IsChain Parted

/-- As a separator is no glyph, a number can only run into another number. -/
theorem Printable.legible {s : Separator} {ps : List Piece} {last : List Char}
    (h : Printable s.char ps last) : Legible s.char ps last := by
  refine legible_of_isChain h.isGap h.isProper h.isGap_last ?_
  refine h.parted.imp_of_mem_imp ?_
  intro p q _ hq hpq hk hgap
  rcases h.isProper q hq with ⟨c, hc, -⟩ | ⟨hnumber, -⟩
  · refine ⟨c, hc, ?_⟩
    rintro rfl
    have hglyph := Kind.ofGlyph?_glyph hc
    rw [(Separator.isAcceptable_iff.1 s.acceptable).2.2] at hglyph
    exact absurd hglyph (by simp)
  · exact absurd hgap (hpq hk hnumber)

end Piece

namespace Lexer

/-- The tokens depend on the next step only. -/
theorem tokens_eq_of_next_eq {l l' : Lexer} (h : l.next = l'.next) : l.tokens = l'.tokens := by
  rw [tokens.eq_def l, tokens.eq_def l', h]

/-- A gap in front of a lexer changes none of its tokens. -/
theorem tokens_of_gap {l : Lexer} {gap rest : List Char} (hgap : IsGap l.separator gap)
    (h : l.rest = gap ++ rest) :
    l.tokens = tokens ⟨l.separator, rest, l.offset + gap.length, l.skipped + gap.length,
      l.produced⟩ := by
  induction gap generalizing l with
  | nil =>
      rw [List.nil_append] at h
      rw [← h]
      rfl
  | cons c gap ih =>
      obtain ⟨hc, hgap⟩ := List.forall_mem_cons.1 hgap
      have htokens := ih (l := ⟨l.separator, gap ++ rest, l.offset + 1, l.skipped + 1,
        l.produced⟩) hgap rfl
      rw [tokens_eq_of_next_eq (next_of_skipped h hc.1), List.length_cons,
        Nat.add_comm gap.length 1, ← Nat.add_assoc, ← Nat.add_assoc]
      exact htokens

/-- In front of a proper lexeme that ends where it has to, the lexer takes the lexeme. -/
theorem tokens_of_lexeme {l : Lexer} {w : Lexeme} {rest : List Char} (hw : w.IsProper l.separator)
    (hend : w.kind = .number → EndsNumber l.separator w.text rest.head?)
    (h : l.rest = w.text ++ rest) :
    l.tokens = ⟨w.kind, String.ofList w.text, some ⟨l.offset, l.offset + w.text.length⟩⟩ ::
      tokens ⟨l.separator, rest, l.offset + w.text.length, l.skipped, l.produced + 1⟩ := by
  rcases hw with ⟨c, hc, htext⟩ | ⟨hk, hnumber⟩
  · rw [htext] at h
    have hnext := next_of_glyph h (Kind.ofGlyph?_glyph hc)
    have hend : l.next.1.isEnd = false := by
      rw [hnext, Token.isEnd, beq_eq_false_iff_ne]
      intro hk
      simp only at hk
      rw [hk] at hc
      exact absurd hc (by simp [Kind.glyph?])
    rw [tokens_of_not_isEnd hend, hnext, htext]
    rfl
  · obtain ⟨c, cs, htext, hdigit⟩ := hnumber.exists_cons
    have hsplit := splitNumber_append_of_isNumber hnumber (hend hk)
    rw [htext, List.cons_append] at h hsplit
    have hnext := next_of_digit h hdigit
    rw [hsplit] at hnext
    rw [tokens_of_not_isEnd (by rw [hnext]; rfl), hnext, htext, hk]

/-- **The lexemes come back.** -/
theorem tokens_of_legible {l : Lexer} {ps : List Piece} {last : List Char}
    (hps : Piece.Legible l.separator ps last) (h : l.rest = Piece.written ps last) :
    l.tokens = Piece.placed l.offset ps := by
  induction ps generalizing l with
  | nil =>
      have hrest : l.rest = last ++ [] := by
        rw [h, List.append_nil]
        rfl
      rw [tokens_of_gap hps hrest, tokens_of_isEnd (by rw [next_of_nil rfl]; rfl)]
      rfl
  | cons p ps ih =>
      obtain ⟨hgap, hlexeme, hend, hps⟩ := hps
      have hbehind := tokens_of_lexeme (l := ⟨l.separator, p.lexeme.text ++ Piece.written ps last,
        l.offset + p.gap.length, l.skipped + p.gap.length, l.produced⟩) hlexeme hend rfl
      have hrest := ih (l := ⟨l.separator, Piece.written ps last,
        l.offset + p.gap.length + p.lexeme.text.length, l.skipped + p.gap.length,
        l.produced + 1⟩) hps rfl
      rw [tokens_of_gap hgap h, hbehind, hrest]
      rfl

end Lexer

/-! ### The stream of a line -/

namespace Source

/-- The stream of a line is its tokens and then ends of the input. -/
theorem endless_ofLine (separator : Char) (line : String) (n : Nat) :
    (Source.line (.ofLine separator line)).endless n =
      (Lexer.ofLine separator line).tokens[n]?.getD (Lexer.lineEnd line.toList) :=
  (Lexer.next_after_ofLine separator line n).1

end Source

theorem Tape.spells_of_getElem? {S : Tape} {i : Nat} {ts : List Token}
    (h : ∀ n t, ts[n]? = some t → S (i + n) = t) : S.Spells i ts (i + ts.length) := by
  induction ts generalizing i with
  | nil => exact rfl
  | cons t ts ih =>
      have hrest : S.Spells (i + 1) ts (i + 1 + ts.length) := by
        refine ih ?_
        intro n u hu
        rw [Nat.add_assoc, Nat.add_comm 1 n]
        exact h (n + 1) u (by rwa [List.getElem?_cons_succ])
      refine ⟨h 0 t rfl, ?_⟩
      rwa [List.length_cons, Nat.add_comm ts.length 1, ← Nat.add_assoc]

namespace Source

theorem spells_endless_ofLine (separator : Char) (line : String) :
    (Source.line (.ofLine separator line)).endless.Spells 0 (Lexer.ofLine separator line).tokens
      (Lexer.ofLine separator line).tokens.length := by
  have hget : ∀ n t, (Lexer.ofLine separator line).tokens[n]? = some t →
      (Source.line (.ofLine separator line)).endless (0 + n) = t := by
    intro n t ht
    rw [Nat.zero_add, endless_ofLine, ht, Option.getD_some]
  have h := Tape.spells_of_getElem? hget
  rwa [Nat.zero_add] at h

/-- Behind the tokens of a line there are only ends of the input. -/
theorem kind_endless_ofLine {separator : Char} {line : String} {n : Nat}
    (h : (Lexer.ofLine separator line).tokens.length ≤ n) :
    ((Source.line (.ofLine separator line)).endless n).kind = .endOfInput := by
  rw [endless_ofLine, List.getElem?_eq_none h]
  rfl

end Source

end Reckon

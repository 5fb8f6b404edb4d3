/-
**The separator is only a name.**

The separator is looked at in three places: it must not be taken for another part of the syntax,
it may go on with a number, and in the text of a number every character but the digits is read as a
point.  None of them asks which character it is.  So a line can be written with another separator,
as long as the characters that are replaced keep their parts: digits and glyphs stay, no other
character becomes one, and the new separator stands for the old one and for nothing else.  The lexer
then cuts the new line at the same places into tokens of the same kinds; only the texts of numbers
are written differently, and these have the same values.

A point that stands in a line under another separator is an ordinary character, and so it has to
make room: it changes places with the separator.

Main definitions:

* `Token.mapText` — a token with other characters in its text;
* `Lexer.Renames`, `Lexer.rename` — characters replaced by others that play the same parts;
* `Separator.exchange` — the separator and the point change places.

Main results:

* `Lexer.next_rename` — one step of the lexer on the new line;
* `Source.endless_rename` — its stream;
* `Calculator.result?_parse_rename` — **the calculator does not ask which character separates**;
* `Calculator.evaluateWith_exchange` — every separator might as well be the point.
-/

import Reckon.Calculator
import Reckon.Proofs.Relabeling

set_option autoImplicit false
set_option relaxedAutoImplicit false

namespace Reckon

def Token.mapText (f : Char → Char) (t : Token) : Token := { t with text := t.text.map f }

@[simp] theorem Token.kind_mapText (f : Char → Char) (t : Token) : (t.mapText f).kind = t.kind :=
  rfl

@[simp] theorem Token.text_mapText (f : Char → Char) (t : Token) :
    (t.mapText f).text = t.text.map f := rfl

@[simp] theorem Token.span_mapText (f : Char → Char) (t : Token) : (t.mapText f).span = t.span :=
  rfl

/-- An end of the input has no text. -/
theorem Token.mapText_endOfInput (f : Char → Char) (s : Option Span) :
    (endOfInput s).mapText f = endOfInput s := by
  simp [mapText, endOfInput]

theorem Token.mapText_mk (f : Char → Char) (kind : Kind) (cs : List Char) (s : Option Span) :
    mapText f ⟨kind, String.ofList cs, s⟩ = ⟨kind, String.ofList (cs.map f), s⟩ := by
  simp [mapText, ← String.toList_inj]

namespace Lexer

/-- Characters are replaced by others that play the same parts: glyphs and digits stay as they are,
no other character becomes one, and the second separator stands for the first one only. -/
structure Renames (separator separator' : Char) (f : Char → Char) : Prop where
  fixed : ∀ c, startsToken c = true → f c = c
  kept_out : ∀ c, startsToken c = false → startsToken (f c) = false
  separator_iff : ∀ c, f c = separator' ↔ c = separator

def rename (separator' : Char) (f : Char → Char) (l : Lexer) : Lexer :=
  { l with separator := separator', rest := l.rest.map f }

variable {separator separator' : Char} {f : Char → Char}

namespace Renames

theorem isDigit_eq (h : Renames separator separator' f) (c : Char) :
    (f c).isDigit = c.isDigit := by
  cases hc : startsToken c with
  | true => rw [h.fixed c hc]
  | false =>
      have hfc := h.kept_out c hc
      simp only [startsToken, Bool.or_eq_false_iff] at hc hfc
      rw [hc.2, hfc.2]

theorem ofGlyph?_eq (h : Renames separator separator' f) (c : Char) :
    Kind.ofGlyph? (f c) = Kind.ofGlyph? c := by
  cases hc : startsToken c with
  | true => rw [h.fixed c hc]
  | false =>
      have hfc := h.kept_out c hc
      simp only [startsToken, Bool.or_eq_false_iff, Option.isSome_eq_false_iff,
        Option.isNone_iff_eq_none] at hc hfc
      rw [hc.1, hfc.1]

/-- The longest number is the same, written differently. -/
theorem splitNumber_map (h : Renames separator separator' f) (cs : List Char) :
    splitNumber separator' (cs.map f) =
      ((splitNumber separator cs).1.map f, (splitNumber separator cs).2.map f) := by
  have hdigit : Char.isDigit ∘ f = Char.isDigit := funext h.isDigit_eq
  simp only [splitNumber, List.takeWhile_map, List.dropWhile_map, hdigit]
  cases cs.dropWhile Char.isDigit with
  | nil => rfl
  | cons c rest =>
      simp only [List.map_cons, List.takeWhile_map, List.dropWhile_map, hdigit]
      by_cases hc : c = separator
      · rw [if_pos hc, if_pos ((h.separator_iff c).2 hc), List.map_append, List.map_cons]
      · rw [if_neg hc, if_neg (mt (h.separator_iff c).1 hc), List.map_cons]

/-- The value of a number does not depend on how its separator is written. -/
theorem ofText_map (h : Renames separator separator' f) (text : String) :
    Numeral.ofText (text.map f) = Numeral.ofText text := by
  rw [Numeral.ofText, Numeral.ofText, String.toList_map, Numeral.pointed, Numeral.pointed,
    List.map_map]
  congr 1
  refine List.map_congr_left ?_
  intro c _
  rw [Function.comp_apply, h.isDigit_eq]
  cases hc : c.isDigit with
  | true => rw [if_pos rfl, if_pos rfl, h.fixed c (by simp [startsToken, hc])]
  | false => rfl

end Renames

/-- One step on the line with the characters replaced: what is skipped, a glyph or a number. -/
theorem next_rename {l : Lexer} (h : Renames l.separator separator' f) :
    (l.rename separator' f).next = (l.next.1.mapText f, l.next.2.rename separator' f) := by
  generalize hr : l.rest = cs
  induction cs generalizing l with
  | nil =>
      have hr' : (l.rename separator' f).rest = [] := by rw [rename, hr, List.map_nil]
      rw [next_of_nil hr, next_of_nil hr', Token.mapText_endOfInput]
      rfl
  | cons c cs ih =>
      have hr' : (l.rename separator' f).rest = f c :: cs.map f := by
        rw [rename, hr, List.map_cons]
      cases hk : Kind.ofGlyph? c with
      | some kind =>
          rw [next_of_glyph hr hk, next_of_glyph hr' (by rwa [h.ofGlyph?_eq]), Token.mapText_mk]
          rfl
      | none =>
          cases hd : c.isDigit with
          | true =>
              rw [next_of_digit hr hd, next_of_digit hr' (by rwa [h.isDigit_eq]), ← List.map_cons,
                show (l.rename separator' f).separator = separator' from rfl, h.splitNumber_map,
                Token.mapText_mk]
              simp [rename]
          | false =>
              have hs : startsToken c = false := by simp [startsToken, hk, hd]
              rw [next_of_skipped hr hs, next_of_skipped hr' (h.kept_out c hs)]
              exact ih (l := ⟨l.separator, cs, l.offset + 1, l.skipped + 1, l.produced⟩) h rfl

theorem after_rename {l : Lexer} (h : Renames l.separator separator' f) (n : Nat) :
    (l.rename separator' f).after n = (l.after n).rename separator' f := by
  induction n generalizing l with
  | zero => rfl
  | succ n ih =>
      rw [after, after, next_rename h, ih (by rwa [separator_next])]

theorem separator_after (l : Lexer) (n : Nat) : (l.after n).separator = l.separator := by
  induction n generalizing l with
  | zero => rfl
  | succ n ih => rw [after, ih, separator_next]

/-- Only numbers are written differently. -/
theorem mapText_next_of_ne (h : Renames separator separator' f) {l : Lexer}
    (hk : l.next.1.kind ≠ .number) : l.next.1.mapText f = l.next.1 := by
  have htext := toList_text_next hk
  generalize l.next.1 = t at htext
  have hmap : t.text.map f = t.text := by
    rw [← String.toList_inj, String.toList_map, htext]
    cases hg : t.kind.glyph? with
    | none => rfl
    | some c =>
        have hc := h.fixed c (by simp [startsToken, Kind.ofGlyph?_glyph hg])
        rw [Option.toList_some, List.map_singleton, hc]
  rw [Token.mapText, hmap]

end Lexer

variable {separator separator' : Char} {f : Char → Char}

/-- The stream of the line with the characters replaced. -/
theorem Source.endless_rename {l : Lexer} (h : Lexer.Renames l.separator separator' f) (n : Nat) :
    (Source.line (l.rename separator' f)).endless n = ((Source.line l).endless n).mapText f := by
  have hafter : Lexer.Renames (l.after n).separator separator' f := by
    rwa [Lexer.separator_after]
  change ((l.rename separator' f).after n).next.1 = _
  rw [Lexer.after_rename h, Lexer.next_rename hafter]
  rfl

namespace Calculator

variable {α : Type}

/-- A token that starts no expression is no number, and the value of a number is the same. -/
theorem relabels_rename (A : Arithmetic α) {l : Lexer}
    (h : Lexer.Renames l.separator separator' f) :
    A.interpretation.Relabels grammar (Source.line l).endless
      (Source.line (l.rename separator' f)).endless id where
  kind_eq n := by rw [Source.endless_rename h, Token.kind_mapText]
  noPrefix n hr := by
    have hk : ((Source.line l).endless n).kind ≠ .number := by
      intro hk
      rw [hk] at hr
      exact absurd hr (by simp [grammar, prefixRule?])
    rw [Source.endless_rename h, Source.endless, Lexer.mapText_next_of_ne h hk]
    rfl
  expected n := by
    rw [Source.endless_rename h]
    rfl
  tooDeep limit n := by
    rw [Source.endless_rename h]
    rfl
  atom n _ := by
    rw [Source.endless_rename h]
    change A.number _ = (A.number _).mapError id
    rw [Arithmetic.number, Arithmetic.number, Token.text_mapText, h.ofText_map]
    cases Numeral.ofText ((Source.line l).endless n).text <;> rfl
  group _ _ _ := rfl
  unary n a := by
    rw [Source.endless_rename h]
    change A.unary _ a = (A.unary _ a).mapError id
    rw [Arithmetic.unary, Arithmetic.unary, Token.kind_mapText]
    cases ((Source.line l).endless n).kind <;> rfl
  binary a n b := by
    rw [Source.endless_rename h]
    change A.binary a _ b = (A.binary a _ b).mapError id
    rw [Arithmetic.binary, Arithmetic.binary, Token.kind_mapText]
    cases ((Source.line l).endless n).kind <;> rfl
  postfixed a n := by
    rw [Source.endless_rename h]
    rfl

/-- **The calculator does not ask which character separates.** -/
theorem result?_parse_rename (A : Arithmetic α) (h : Lexer.Renames separator separator' f)
    (line : String) (limit : Nat) :
    (parse A separator' (line.map f) limit).result? = (parse A separator line limit).result? := by
  have hline : Lexer.ofLine separator' (line.map f) =
      (Lexer.ofLine separator line).rename separator' f := by
    rw [Lexer.ofLine, Lexer.ofLine, Lexer.rename, String.toList_map]
  have hfinished := parse_ne_unfinished A separator' (line.map f) limit
  rw [parse, parser, hline] at hfinished ⊢
  rw [Parser.result?_relabels (relabels_rename A h) (parse_ne_unfinished A separator line limit)
    hfinished]
  change (parse A separator line limit).result?.map _ = _
  cases parse A separator line limit <;> rfl

end Calculator

/-! ### The separator and the point -/

namespace Separator

/-- The separator and the point change places. -/
def exchange (s : Separator) (c : Char) : Char :=
  if c = s.char then point.char else if c = point.char then s.char else c

theorem renames_exchange (s : Separator) :
    Lexer.Renames s.char point.char s.exchange where
  fixed c hc := by
    have hs : c ≠ s.char := by
      rintro rfl
      rw [s.startsToken_eq_false] at hc
      exact absurd hc (by simp)
    have hp : c ≠ point.char := by
      rintro rfl
      rw [point.startsToken_eq_false] at hc
      exact absurd hc (by simp)
    rw [exchange, if_neg hs, if_neg hp]
  kept_out c hc := by
    unfold exchange
    split
    · exact point.startsToken_eq_false
    · split
      · exact s.startsToken_eq_false
      · exact hc
  separator_iff c := by
    unfold exchange
    by_cases hs : c = s.char
    · rw [if_pos hs]
      exact ⟨fun _ => hs, fun _ => rfl⟩
    · rw [if_neg hs]
      by_cases hp : c = point.char
      · rw [if_pos hp, hp]
        exact eq_comm
      · rw [if_neg hp]
        exact ⟨fun h => absurd h hp, fun h => absurd h hs⟩

end Separator

namespace Calculator

variable {α : Type}

theorem evaluate_exchange (A : Arithmetic α) (s : Separator) (line : String) :
    evaluate A s line = evaluate A .point (line.map s.exchange) := by
  rw [evaluate_eq_iff, ← result?_parse_rename A s.renames_exchange, ← evaluate_eq_iff]

/-- **Every separator might as well be the point.**  Let a separator be accepted, and let it change
places with the point wherever either of them stands in a line.  Then the line has the same value
under the point as before under the separator, or the same error with the same span. -/
theorem evaluateWith_exchange (A : Arithmetic α) (s : Separator) (line : String) :
    evaluateWith A s.char line = evaluateWith A Separator.point.char (line.map s.exchange) := by
  simp only [evaluateWith, Separator.ofChar_char, evaluate_exchange A s]

end Calculator

end Reckon

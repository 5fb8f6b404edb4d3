/-
**Carets under the text that is to blame.**

If a line has no value, the error has the span of one of the tokens of the line, or of its end, and
the span tells which characters these are: the text that is reported is the text of the line there.
The complaint shows the line and, below it, carets.  In front of the carets it repeats the white
space of the line and shows spaces for everything else, so every caret stands in the column of its
character, and no caret stands anywhere else; at the end of the line one caret stands in the column
behind the last character.

Main definitions:

* `Lexer.IsToken` — the tokens of a line, its end included;
* `Underlines` — carets under a span of a line.

Main results:

* `Lexer.isToken_endless` — the stream of a line has nothing but these;
* `underlines_caretLine` — the line of carets, for every span that starts in the line;
* `Underlines.getElem?_eq_caret_iff` — the columns of the carets;
* `Calculator.carets_under_token` — **carets under the text that is to blame**.
-/

import Reckon.CommandLine.Complaint
import Reckon.Proofs.Evaluation
import Reckon.Proofs.Stopping

set_option autoImplicit false
set_option relaxedAutoImplicit false

namespace Reckon

/-! ### The tokens of a line -/

namespace Lexer

/-- The token stands in the line, or it is the end of the input behind it. -/
def IsToken (separator : Char) (chars : List Char) (t : Token) : Prop :=
  IsCut separator chars t ∨ t = lineEnd chars

theorem isToken_endless (separator : Char) (line : String) (n : Nat) :
    IsToken separator line.toList ((Source.line (.ofLine separator line)).endless n) := by
  rw [Source.endless_ofLine]
  cases ht : (ofLine separator line).tokens[n]? with
  | none => exact .inr rfl
  | some t =>
      have hwalk := (stands_ofLine separator line).walk_tokens
      exact .inl (hwalk.isCutting.cut t (List.mem_of_getElem? ht))

namespace IsToken

variable {separator : Char} {chars : List Char} {t : Token}

theorem span_eq (h : IsToken separator chars t) : t.span = some t.place := by
  rcases h with h | rfl
  · exact h.span_eq
  · rfl

theorem start_le (h : IsToken separator chars t) : t.place.start ≤ t.place.stop := by
  rcases h with h | rfl
  · exact Nat.le_of_lt h.start_lt
  · exact Nat.le_refl _

theorem stop_le (h : IsToken separator chars t) : t.place.stop ≤ chars.length := by
  rcases h with h | rfl
  · exact h.stop_le
  · exact Nat.le_refl _

/-- The text of a token is what stands at its place; the end of the input has none. -/
theorem text_eq (h : IsToken separator chars t) : t.text.toList = t.place.slice chars := by
  rcases h with h | rfl
  · exact h.text_eq
  · simp [lineEnd, Token.place, Span.slice]

theorem eq_lineEnd_of_kind (h : IsToken separator chars t) (hk : t.kind = .endOfInput) :
    t = lineEnd chars := by
  rcases h with h | rfl
  · have hend := h.isEnd_eq_false
    rw [Token.isEnd, hk] at hend
    exact absurd hend (by decide)
  · rfl

theorem isCut_of_kind (h : IsToken separator chars t) (hk : t.kind ≠ .endOfInput) :
    IsCut separator chars t := by
  rcases h with h | rfl
  · exact h
  · exact absurd rfl hk

end IsToken

end Lexer

/-! ### The line of carets -/

/-- Carets stand under the span of a line: in front of them white space is repeated and any other
character becomes a space, and there is a caret for each character of the span, or one if it has
none. -/
structure Underlines (chars : List Char) (span : Span) (under : List Char) : Prop where
  length_eq : under.length = span.start + max 1 (span.stop - span.start)
  before : ∀ i c, i < span.start → chars[i]? = some c →
    under[i]? = some (if Text.isBlank c then c else ' ')
  from_start : ∀ i, span.start ≤ i → i < under.length → under[i]? = some '^'

/-- The line of carets stands under every span that starts in the line or right behind it. -/
theorem underlines_caretLine (line : String) {span : Span}
    (h : span.start ≤ line.toList.length) :
    Underlines line.toList span (caretLine line span).toList := by
  have hchars : (caretLine line span).toList =
      (line.toList.take span.start).map (fun c => if Text.isBlank c then c else ' ') ++
        carets span := by
    rw [caretLine, String.toList_ofList, padding, Nat.sub_eq_zero_of_le h, List.replicate_zero,
      List.append_nil]
  have hlength := length_caretLine line span
  have hpadding : ((line.toList.take span.start).map
      (fun c => if Text.isBlank c then c else ' ')).length = span.start := by
    rw [List.length_map, List.length_take, Nat.min_eq_left h]
  refine ⟨?_, ?_, ?_⟩
  · rw [hlength, Span.length, Nat.max_comm]
  · intro i c hi hc
    rw [hchars, List.getElem?_append_left (by omega), List.getElem?_map,
      List.getElem?_take_of_lt hi, hc, Option.map_some]
  · intro i hstart hi
    rw [hlength] at hi
    rw [hchars, List.getElem?_append_right (by omega), hpadding, carets,
      List.getElem?_replicate_of_lt (by omega)]

namespace Underlines

variable {chars : List Char} {span : Span} {under : List Char}

/-- In front of the carets there are none. -/
theorem getElem?_ne_caret (h : Underlines chars span under) (hle : span.start ≤ chars.length)
    {i : Nat} (hi : i < span.start) : under[i]? ≠ some '^' := by
  obtain ⟨c, hc⟩ : ∃ c, chars[i]? = some c := ⟨chars[i], List.getElem?_eq_getElem (by omega)⟩
  rw [h.before i c hi hc]
  by_cases hb : Text.isBlank c = true
  · rw [if_pos hb, Ne, Option.some.injEq]
    rintro rfl
    exact absurd hb (by decide)
  · rw [if_neg hb]
    decide

/-- The columns of the carets are those of the span, and the column where it starts. -/
theorem getElem?_eq_caret_iff (h : Underlines chars span under) (hle : span.start ≤ chars.length)
    (i : Nat) : under[i]? = some '^' ↔ span.Covers i ∨ i = span.start := by
  have hlength := h.length_eq
  constructor
  · intro hi
    obtain ⟨hlt, -⟩ := List.getElem?_eq_some_iff.1 hi
    have hstart : span.start ≤ i := by
      refine Nat.le_of_not_lt ?_
      intro hbefore
      exact h.getElem?_ne_caret hle hbefore hi
    by_cases heq : i = span.start
    · exact .inr heq
    · exact .inl ⟨hstart, by omega⟩
  · rintro (⟨hstart, hstop⟩ | rfl)
    · exact h.from_start i hstart (by omega)
    · exact h.from_start _ (Nat.le_refl _) (by omega)

end Underlines

/-! ### What is said about a line -/

theorem Tape.Refuses.exists_describes {g : Grammar} {S : Tape} {limit : Nat} {e : ParseError}
    (h : Refuses g S limit e) : ∃ n, e.Describes (S n) ∧ e.span = (S n).span := by
  cases h with
  | @noPrefix n _ => exact ⟨n, ⟨rfl, rfl, rfl⟩, rfl⟩
  | @expected n _ => exact ⟨n, ⟨rfl, rfl⟩, rfl⟩
  | tooDeep n => exact ⟨n, rfl, rfl⟩

namespace Calculator

variable {α : Type}

/-- With an acceptable separator every failure is an error about a token of the line. -/
theorem exists_describes_of_error {A : Arithmetic α} {s : Separator} {line : String} {f : Failure}
    (h : evaluateWith A s.char line = .error f) :
    ∃ e n, f = .expression e ∧
      e.Describes ((Source.line (.ofLine s.char line)).endless n) ∧
      e.span = ((Source.line (.ofLine s.char line)).endless n).span := by
  rw [evaluateWith, Separator.ofChar_char] at h
  simp only at h
  cases he : evaluate A s line with
  | ok a =>
      rw [he] at h
      cases h
  | error e =>
      rw [he] at h
      cases h
      rw [evaluate_eq_iff] at he
      cases hrun : parse A s.char line Parser.defaultMaxDepth with
      | value a q =>
          rw [hrun] at he
          cases he
      | failure e' q =>
          rw [hrun] at he
          cases he
          obtain ⟨n, hn⟩ := (refuses_of_failure hrun).exists_describes
          exact ⟨e, n, rfl, hn⟩
      | unfinished => exact absurd hrun (parse_ne_unfinished A _ _ _)

/-- **Carets under the text that is to blame.**  If a line has no value, with an acceptable
separator, then the error describes one of the tokens of the line or its end, and its span is the
span of that token, within the line.  The text of a token that starts no expression is what stands
in the line there: nothing at its end.  The complaint shows the line with carets below it, in front
of which white space is repeated and any other character becomes a space; the columns of the carets
are those of the token, and the one right behind the line at its end. -/
theorem carets_under_token (A : Arithmetic α) (s : Separator) (line : String) {f : Failure}
    (h : evaluateWith A s.char line = .error f) :
    ∃ e n t, f = .expression e ∧ (Source.line (.ofLine s.char line)).endless n = t ∧
      e.Describes t ∧ t.span = some t.place ∧ f.span = t.span ∧
      t.place.start ≤ t.place.stop ∧ t.place.stop ≤ line.length ∧
      (∀ kind text span, e = .noPrefix kind text span →
        text.toList = t.place.slice line.toList ∧
          (kind = .endOfInput → text = "" ∧ t.place = ⟨line.length, line.length⟩)) ∧
      complaint line f = "error: " ++ f.message ++ "\n" ++
        ("  " ++ line ++ "\n  " ++ caretLine line t.place ++ "\n") ∧
      Underlines line.toList t.place (caretLine line t.place).toList ∧
      (t.kind ≠ .endOfInput →
        ∀ i, (caretLine line t.place).toList[i]? = some '^' ↔ t.place.Covers i) ∧
      (t.kind = .endOfInput →
        ∀ i, (caretLine line t.place).toList[i]? = some '^' ↔ i = line.length) := by
  obtain ⟨e, n, rfl, hdescribes, hspan⟩ := exists_describes_of_error h
  have ht := Lexer.isToken_endless s.char line n
  generalize hn : (Source.line (.ofLine s.char line)).endless n = t at hdescribes hspan ht
  have hf : (Failure.expression e).span = some t.place := hspan.trans ht.span_eq
  have hend : t.kind = .endOfInput → t.place = ⟨line.length, line.length⟩ := by
    intro hk
    rw [ht.eq_lineEnd_of_kind hk, Lexer.place_lineEnd, String.length_toList]
    rfl
  have hstart : t.place.start ≤ line.toList.length := Nat.le_trans ht.start_le ht.stop_le
  have hunder := underlines_caretLine line hstart
  refine ⟨e, n, t, rfl, hn, hdescribes, ht.span_eq, hspan, ht.start_le, ?_, ?_, ?_, hunder, ?_, ?_⟩
  · rw [← String.length_toList]
    exact ht.stop_le
  · rintro kind text span rfl
    obtain ⟨rfl, rfl, -⟩ := hdescribes
    refine ⟨ht.text_eq, ?_⟩
    intro hk
    exact ⟨congrArg Token.text (ht.eq_lineEnd_of_kind hk), hend hk⟩
  · rw [complaint, hf]
  · intro hk i
    have hlt := (ht.isCut_of_kind hk).start_lt
    rw [hunder.getElem?_eq_caret_iff hstart, or_iff_left_of_imp]
    rintro rfl
    exact ⟨Nat.le_refl _, hlt⟩
  · intro hk i
    rw [hunder.getElem?_eq_caret_iff hstart, hend hk, or_iff_right]
    rintro ⟨hle, hlt⟩
    exact absurd hlt (Nat.not_lt_of_le hle)

/-- A line that ends too early has its caret right behind it; the tab in front of it is kept. -/
theorem carets_under_token_lineEnd :
    evaluateWith Arithmetic.float '.' "\t1 +" =
        .error (.expression (.noPrefix .endOfInput "" (some ⟨4, 4⟩))) ∧
      ∃ n t, (Source.line (.ofLine '.' "\t1 +")).endless n = t ∧ t.kind = .endOfInput ∧
        t.place = ⟨4, 4⟩ ∧ Underlines "\t1 +".toList t.place (caretLine "\t1 +" t.place).toList ∧
          ∀ i, (caretLine "\t1 +" t.place).toList[i]? = some '^' ↔ i = 4 := by
  have hfails : evaluateWith Arithmetic.float '.' "\t1 +" =
      .error (.expression (.noPrefix .endOfInput "" (some ⟨4, 4⟩))) := rfl
  obtain ⟨e, n, t, he, hn, hdescribes, hplace, hspan, -, -, -, -, hunder, -, hend⟩ :=
    carets_under_token Arithmetic.float .point "\t1 +" hfails
  cases he
  exact ⟨hfails, n, t, hn, hdescribes.1.symm, (Option.some.inj (hspan.trans hplace)).symm, hunder,
    hend hdescribes.1.symm⟩

end Calculator

end Reckon

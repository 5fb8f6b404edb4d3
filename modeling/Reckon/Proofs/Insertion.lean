/-
**Characters that do not matter.**

A character that starts no token and is not the separator is skipped wherever it stands, and a
number in front of it ends there at the latest.  So such characters can be inserted into a line at
every position that is not inside a token: the tokens in front of the position stay where they are,
and those behind it, the end of the input among them, move on by the number of the characters.  The
value of the line is the same, and so is its error, but for the place that is blamed.

Main definitions:

* `Span.shift` — the stretch of a line after so many characters have been inserted;
* `Lexer.Inserts` — a line with a gap inserted;
* `Calculator.Failure.mapSpan` — a failure with another span.

Main results:

* `Lexer.Walk.insert` — the tokens of the line with the gap;
* `Source.endless_insert` — its stream;
* `Calculator.evaluateWith_insert` — **ignorable characters are transparent**.
-/

import Reckon.Calculator
import Reckon.Proofs.Continuing
import Reckon.Proofs.Relabeling

set_option autoImplicit false
set_option relaxedAutoImplicit false

namespace Reckon

/-- Where a stretch of a line is found after `k` characters have been inserted at `p`: it moves if
it starts there or behind. -/
def Span.shift (p k : Nat) (s : Span) : Span :=
  if p ≤ s.start then ⟨s.start + k, s.stop + k⟩ else s

theorem Span.shift_of_le {p k : Nat} {s : Span} (h : p ≤ s.start) :
    s.shift p k = ⟨s.start + k, s.stop + k⟩ := if_pos h

theorem Span.shift_of_lt {p k : Nat} {s : Span} (h : s.start < p) : s.shift p k = s :=
  if_neg (Nat.not_le_of_lt h)

namespace Lexer

/-- The second line is the first one with `k` characters inserted at the position `p`, none of
which starts a token or is the separator. -/
structure Inserts (separator : Char) (p k : Nat) (chars chars' : List Char) : Prop where
  le_length : p ≤ chars.length
  length_eq : chars'.length = chars.length + k
  before : ∀ i, i < p → chars'[i]? = chars[i]?
  inside : ∀ i c, p ≤ i → i < p + k → chars'[i]? = some c → startsToken c = false ∧ c ≠ separator
  behind : ∀ i, p ≤ i → chars'[i + k]? = chars[i]?

theorem inserts_append {separator : Char} {gap : List Char} (hgap : IsGap separator gap)
    (front back : List Char) :
    Inserts separator front.length gap.length (front ++ back) (front ++ gap ++ back) where
  le_length := by
    rw [List.length_append]
    exact Nat.le_add_right _ _
  length_eq := by
    simp only [List.length_append]
    omega
  before i hi := by
    rw [List.append_assoc, List.getElem?_append_left hi, List.getElem?_append_left hi]
  inside i c hi hlt hc := by
    rw [List.getElem?_append_left (by rwa [List.length_append]),
      List.getElem?_append_right hi] at hc
    exact hgap c (List.mem_of_getElem? hc)
  behind i hi := by
    have hlen : (front ++ gap).length ≤ i + gap.length := by
      rw [List.length_append]
      omega
    rw [List.getElem?_append_right hlen, List.getElem?_append_right hi, List.length_append,
      Nat.add_sub_add_right]

variable {separator : Char} {p k start start' stop : Nat} {chars chars' : List Char} {t : Token}
  {ts : List Token}

/-- A token in front of the gap stays. -/
theorem Inserts.isCut_before (h : Inserts separator p k chars chars')
    (ht : IsCut separator chars t) (hle : t.place.stop ≤ p) :
    IsCut separator chars' (t.mapSpan (Span.shift p k)) := by
  have hstart : t.place.start < p := Nat.lt_of_lt_of_le ht.start_lt hle
  refine ht.move rfl rfl (d := 0) ?_ ?_ ?_
  · rw [Token.span_mapSpan, ht.span_eq, Option.map_some, Span.shift_of_lt hstart]
    rfl
  · intro i hi
    exact h.before i (Nat.lt_of_lt_of_le hi.2 hle)
  · intro c hc
    rw [Nat.add_zero] at hc
    rcases Nat.lt_or_eq_of_le hle with hstop | hstop
    · left
      rwa [h.before _ hstop] at hc
    · rcases Nat.eq_zero_or_pos k with rfl | hk
      · left
        rwa [← h.behind _ (Nat.le_of_eq hstop.symm)]
      · right
        exact h.inside _ c (Nat.le_of_eq hstop.symm) (by omega) hc

/-- A token behind the gap moves on. -/
theorem Inserts.isCut_behind (h : Inserts separator p k chars chars')
    (ht : IsCut separator chars t) (hle : p ≤ t.place.start) :
    IsCut separator chars' (t.mapSpan (Span.shift p k)) := by
  have hlt := ht.start_lt
  refine ht.move rfl rfl (d := k) ?_ ?_ ?_
  · rw [Token.span_mapSpan, ht.span_eq, Option.map_some, Span.shift_of_le hle]
  · intro i hi
    exact h.behind i (Nat.le_trans hle hi.1)
  · intro c hc
    left
    rwa [← h.behind _ (by omega)]

theorem Inserts.blank_before (h : Inserts separator p k chars chars')
    (hb : Blank chars start stop) (hle : stop ≤ p) : Blank chars' start stop := by
  intro i c hi hlt hc
  rw [h.before i (Nat.lt_of_lt_of_le hlt hle)] at hc
  exact hb i c hi hlt hc

/-- Behind the gap or across it, no token can start where none could start before. -/
theorem Inserts.blank (h : Inserts separator p k chars chars') (hb : Blank chars start stop)
    (hle : p ≤ stop) (hstart : start ≤ start') (hmoved : p < start → start + k ≤ start') :
    Blank chars' start' (stop + k) := by
  intro i c hi hlt hc
  rcases Nat.lt_or_ge i p with hip | hip
  · rw [h.before i hip] at hc
    exact hb i c (Nat.le_trans hstart hi) (Nat.lt_of_lt_of_le hip hle) hc
  · rcases Nat.lt_or_ge i (p + k) with hik | hik
    · exact (h.inside i c hip hik hc).1
    · obtain ⟨j, rfl⟩ : ∃ j, i = j + k := ⟨i - k, by omega⟩
      rw [h.behind j (by omega)] at hc
      exact hb j c (by omega) (by omega) hc

/-- The tokens in front of the gap stay, and those behind it move on. -/
theorem Walk.insert (hw : Walk separator chars start ts) (h : Inserts separator p k chars chars')
    (hout : ∀ t ∈ ts, t.place.stop ≤ p ∨ p ≤ t.place.start)
    (hstart : start' = start ∧ start ≤ p ∨ start' = start + k ∧ p ≤ start) :
    Walk separator chars' start' (ts.map (Token.mapSpan (Span.shift p k))) := by
  induction hw generalizing start' with
  | nil hblank =>
      refine .nil ?_
      rw [h.length_eq]
      exact h.blank hblank h.le_length (by omega) (by omega)
  | @cons start t ts hle hblank ht _ ih =>
      obtain ⟨ht', hts⟩ := List.forall_mem_cons.1 hout
      have hlt := ht.start_lt
      have hplace : (t.mapSpan (Span.shift p k)).place = t.place.shift p k := by
        rw [Token.place, Token.span_mapSpan, ht.span_eq]
        rfl
      rw [List.map_cons]
      rcases ht' with hstop | hstart'
      · -- the gap is still to come
        obtain rfl : start' = start := by omega
        have hstay : t.place.shift p k = t.place := Span.shift_of_lt (by omega)
        refine .cons ?_ ?_ (h.isCut_before ht hstop) ?_ <;> rw [hplace, hstay]
        · exact hle
        · exact h.blank_before hblank (by omega)
        · exact ih hts (.inl ⟨rfl, hstop⟩)
      · have hmove := Span.shift_of_le (k := k) hstart'
        refine .cons ?_ ?_ (h.isCut_behind ht hstart') ?_ <;> rw [hplace, hmove]
        · change start' ≤ t.place.start + k
          omega
        · exact h.blank hblank hstart' (by omega) (by omega)
        · exact ih hts (.inr ⟨rfl, by omega⟩)

/-- The tokens of a line with a gap inserted. -/
theorem tokens_insert {front gap back : String} (hgap : IsGap separator gap.toList)
    (hout : ∀ t ∈ (ofLine separator (front ++ back)).tokens,
      t.place.stop ≤ front.length ∨ front.length ≤ t.place.start) :
    (ofLine separator (front ++ gap ++ back)).tokens =
      (ofLine separator (front ++ back)).tokens.map
        (Token.mapSpan (Span.shift front.length gap.length)) := by
  have hinserts := inserts_append hgap front.toList back.toList
  rw [String.length_toList, String.length_toList, ← String.toList_append, ← String.toList_append,
    ← String.toList_append] at hinserts
  have hwalk := (stands_ofLine separator (front ++ back)).walk_tokens
  have hwalk' := (stands_ofLine separator (front ++ gap ++ back)).walk_tokens
  exact hwalk'.unique (hwalk.insert hinserts hout (.inl ⟨rfl, Nat.zero_le _⟩))

end Lexer

/-- The stream of a line with a gap inserted: the end of the input moves on as well. -/
theorem Source.endless_insert {separator : Char} {front gap back : String}
    (hgap : Lexer.IsGap separator gap.toList)
    (hout : ∀ t ∈ (Lexer.ofLine separator (front ++ back)).tokens,
      t.place.stop ≤ front.length ∨ front.length ≤ t.place.start) (n : Nat) :
    (Source.line (.ofLine separator (front ++ gap ++ back))).endless n =
      ((Source.line (.ofLine separator (front ++ back))).endless n).mapSpan
        (Span.shift front.length gap.length) := by
  have hlineEnd : Lexer.lineEnd (front ++ gap ++ back).toList =
      (Lexer.lineEnd (front ++ back).toList).mapSpan (Span.shift front.length gap.length) := by
    have hlen : (front ++ gap ++ back).toList.length =
        (front ++ back).toList.length + gap.length := by
      simp only [String.length_toList, String.length_append]
      omega
    have hle : front.length ≤ (Span.point (front ++ back).toList.length).start := by
      rw [Span.start_point, String.length_toList, String.length_append]
      exact Nat.le_add_right _ _
    rw [Lexer.lineEnd, Lexer.lineEnd, hlen, Token.mapSpan, Token.span_endOfInput,
      Option.map_some, Span.shift_of_le hle]
    rfl
  rw [endless_ofLine, endless_ofLine, Lexer.tokens_insert hgap hout, List.getElem?_map, hlineEnd]
  cases (Lexer.ofLine separator (front ++ back)).tokens[n]? <;> rfl

namespace Calculator

def Failure.mapSpan (f : Span → Span) : Failure → Failure
  | expression cause => expression (cause.mapSpan f)
  | separator c => separator c

@[simp] theorem Failure.span_mapSpan (f : Span → Span) (e : Failure) :
    (e.mapSpan f).span = e.span.map f := by
  cases e with
  | expression cause => exact cause.span_mapSpan f
  | separator c => rfl

variable {α : Type} {front gap back : String}

/-- The same with any depth limit. -/
theorem result?_parse_insert (A : Arithmetic α) {separator : Char} (limit : Nat)
    (hgap : Lexer.IsGap separator gap.toList)
    (hout : ∀ t ∈ (Lexer.ofLine separator (front ++ back)).tokens,
      t.place.stop ≤ front.length ∨ front.length ≤ t.place.start) :
    (parse A separator (front ++ gap ++ back) limit).result? =
      (parse A separator (front ++ back) limit).result?.map
        (Except.mapError (ParseError.mapSpan (Span.shift front.length gap.length))) :=
  Parser.result?_relabels
    (A.relabels_mapSpan grammar (Source.endless_insert hgap hout))
    (parse_ne_unfinished A separator (front ++ back) limit)
    (parse_ne_unfinished A separator (front ++ gap ++ back) limit)

theorem evaluate_insert (A : Arithmetic α) (s : Separator)
    (hgap : Lexer.IsGap s.char gap.toList)
    (hout : ∀ t ∈ (Lexer.ofLine s.char (front ++ back)).tokens,
      t.place.stop ≤ front.length ∨ front.length ≤ t.place.start) :
    evaluate A s (front ++ gap ++ back) =
      (evaluate A s (front ++ back)).mapError
        (ParseError.mapSpan (Span.shift front.length gap.length)) := by
  have hbefore := evaluate_eq_iff.1 (Eq.refl (evaluate A s (front ++ back)))
  rw [evaluate_eq_iff, result?_parse_insert A _ hgap hout, hbefore]
  rfl

/-- **Ignorable characters are transparent.**  Let characters none of which is a digit, a glyph or
the separator be inserted into a line at a position that is not strictly inside the span of a
token.  Then the line has the same value as before, or the same error; but the span of the error
moves on by the number of the characters if it starts at the position or behind it. -/
theorem evaluateWith_insert (A : Arithmetic α) (separator : Char) (front gap back : String)
    (hgap : Lexer.IsGap separator gap.toList)
    (hout : ∀ t ∈ (Lexer.ofLine separator (front ++ back)).tokens, ∀ span, t.span = some span →
      ¬ (span.start < front.length ∧ front.length < span.stop)) :
    evaluateWith A separator (front ++ gap ++ back) =
      (evaluateWith A separator (front ++ back)).mapError
        (Failure.mapSpan (Span.shift front.length gap.length)) := by
  have hplaces : ∀ t ∈ (Lexer.ofLine separator (front ++ back)).tokens,
      t.place.stop ≤ front.length ∨ front.length ≤ t.place.start := by
    intro t ht
    have hcut := (Lexer.stands_ofLine separator (front ++ back)).walk_tokens.isCutting.cut t ht
    have hnot := hout t ht t.place hcut.span_eq
    omega
  cases hacceptable : Separator.isAcceptable separator with
  | false =>
      have hs := Separator.ofChar_eq_none_iff.2 hacceptable
      simp only [evaluateWith, hs]
      rfl
  | true =>
      have hs := Separator.ofChar_char ⟨separator, hacceptable⟩
      simp only [evaluateWith, hs, evaluate_insert A ⟨separator, hacceptable⟩ hgap hplaces]
      cases evaluate A ⟨separator, hacceptable⟩ (front ++ back) <;> rfl

/-- Behind a number, in front of a separator that is skipped: the parenthesis that takes the blame
has moved on. -/
theorem evaluateWith_insert_behindNumber :
    (Lexer.IsGap ',' " a ".toList ∧
      ∀ t ∈ (Lexer.ofLine ',' ("1,5" ++ ",+)")).tokens, ∀ span, t.span = some span →
        ¬ (span.start < "1,5".length ∧ "1,5".length < span.stop)) ∧
    evaluateWith Arithmetic.float ',' ("1,5" ++ ",+)") =
        .error (.expression (.noPrefix .rightParen ")" (some ⟨5, 6⟩))) ∧
      evaluateWith Arithmetic.float ',' ("1,5" ++ " a " ++ ",+)") =
        .error (.expression (.noPrefix .rightParen ")" (some ⟨8, 9⟩))) := by
  have hgap : Lexer.IsGap ',' " a ".toList := by
    intro c hc
    have hmem : c ∈ [' ', 'a', ' '] := hc
    simp only [List.mem_cons, List.not_mem_nil, or_false] at hmem
    rcases hmem with rfl | rfl | rfl <;> decide
  have htokens : (Lexer.ofLine ',' ("1,5" ++ ",+)")).tokens =
      [⟨.number, "1,5", some ⟨0, 3⟩⟩, ⟨.plus, "+", some ⟨4, 5⟩⟩,
        ⟨.rightParen, ")", some ⟨5, 6⟩⟩] := by
    rw [Lexer.tokens_of_not_isEnd rfl, Lexer.tokens_of_not_isEnd rfl,
      Lexer.tokens_of_not_isEnd rfl, Lexer.tokens_of_isEnd rfl]
    rfl
  have hout : ∀ t ∈ (Lexer.ofLine ',' ("1,5" ++ ",+)")).tokens, ∀ span, t.span = some span →
      ¬ (span.start < "1,5".length ∧ "1,5".length < span.stop) := by
    rw [htokens]
    intro t ht span hspan
    simp only [List.mem_cons, List.not_mem_nil, or_false] at ht
    rcases ht with rfl | rfl | rfl <;> cases hspan <;> decide
  have hbefore : evaluateWith Arithmetic.float ',' ("1,5" ++ ",+)") =
      .error (.expression (.noPrefix .rightParen ")" (some ⟨5, 6⟩))) := rfl
  refine ⟨⟨hgap, hout⟩, hbefore, ?_⟩
  rw [evaluateWith_insert Arithmetic.float ',' "1,5" " a " ",+)" hgap hout, hbefore]
  rfl

end Calculator

end Reckon

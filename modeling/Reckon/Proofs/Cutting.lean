/-
**What the tokens of a line are.**

The lexer walks over a line, but the tokens it produces can be told from the line alone.  They
stand in the line one behind the other, each with the characters of its span as its text; outside
their spans there are no glyphs and no digits; a glyph is a token by itself; and a number is digits
with at most one separator among them, which goes on for as long as it can.  These conditions
leave no choice, whatever the separator is: a glyph, a digit and a blank will do.

The proof follows the line.  A *walk* names the tokens from some position on, each with the
position where it starts as the first one at which a token can start, and both the conditions and
the lexer amount to a walk.

Main definitions:

* `Lexer.IsNumber`, `Lexer.EndsNumber` — the form of a number, and where it has to end;
* `Span.Covers`, `Span.slice`, `Token.place` — the positions and the characters of a token;
* `Lexer.IsCut`, `Lexer.IsCutting` — the conditions on one token, and on all of them;
* `Lexer.Walk` — the tokens from a position on, one after another;
* `Lexer.Stands`, `Lexer.Steps` — a lexer on a line, and what its next token may be.

Main results:

* `Lexer.splitNumber_append_of_isNumber`, `Lexer.isNumber_splitNumber` — the longest number;
* `Lexer.Stands.steps_next` — one step of the lexer, its counters included;
* `Lexer.Walk.unique`, `Lexer.isCutting_iff_walk` — the conditions leave no choice;
* `Lexer.Stands.next_after` — every token that is asked for, and the counters behind it;
* `Lexer.isCutting_iff_tokens` — **the specification of the lexer**.
-/

import Mathlib.Data.Nat.Count
import Reckon.Proofs.Endless

set_option autoImplicit false
set_option relaxedAutoImplicit false

namespace Reckon

/-! ### The form of a number -/

namespace Lexer

/-- Digits, and behind them at most one separator with any number of digits. -/
def IsNumber (separator : Char) (text : List Char) : Prop :=
  ∃ whole : List Char, whole ≠ [] ∧ (∀ c ∈ whole, c.isDigit = true) ∧
    (text = whole ∨ ∃ fraction : List Char, (∀ c ∈ fraction, c.isDigit = true) ∧
      text = whole ++ separator :: fraction)

/-- The character behind a number does not continue it: it is no digit, and it is not the
separator if the number has none yet. -/
def EndsNumber (separator : Char) (text : List Char) (next : Option Char) : Prop :=
  ∀ c, next = some c → c.isDigit = false ∧ (separator ∉ text → c ≠ separator)

theorem startsToken_eq_false_iff {c : Char} :
    startsToken c = false ↔ Kind.ofGlyph? c = none ∧ c.isDigit = false := by
  simp [startsToken]

/-- A number begins with a digit. -/
theorem IsNumber.exists_cons {separator : Char} {text : List Char} (h : IsNumber separator text) :
    ∃ c cs, text = c :: cs ∧ c.isDigit = true := by
  obtain ⟨whole, hne, hw, htext⟩ := h
  cases whole with
  | nil => exact absurd rfl hne
  | cons c cs =>
      have hc := hw c (List.mem_cons_self ..)
      rcases htext with rfl | ⟨fraction, -, rfl⟩
      · exact ⟨c, cs, rfl, hc⟩
      · exact ⟨c, cs ++ separator :: fraction, rfl, hc⟩

/-- A number that ends where it has to is the longest one. -/
theorem splitNumber_append_of_isNumber {separator : Char} {text rest : List Char}
    (h : IsNumber separator text) (hend : EndsNumber separator text rest.head?) :
    splitNumber separator (text ++ rest) = (text, rest) := by
  obtain ⟨whole, -, hw, htext⟩ := h
  have hrest : ∀ c, rest.head? = some c → c.isDigit = false := fun c hc => (hend c hc).1
  by_cases hdigit : separator.isDigit = true
  · -- a separator that is a digit only adds to the digits
    have hall : ∀ c ∈ text, c.isDigit = true := by
      rcases htext with rfl | ⟨fraction, hf, rfl⟩
      · exact hw
      · intro c hc
        rcases List.mem_append.1 hc with hc | hc
        · exact hw c hc
        · rcases List.mem_cons.1 hc with rfl | hc
          · exact hdigit
          · exact hf c hc
    obtain ⟨htake, hdrop⟩ := Numeral.takeWhile_isDigit_append rest hall hrest
    rw [splitNumber, htake, hdrop]
    cases rest with
    | nil => rfl
    | cons c cs =>
        have hne : c ≠ separator := by
          rintro rfl
          rw [hrest c rfl] at hdigit
          exact absurd hdigit (by simp)
        exact if_neg hne
  · rcases htext with rfl | ⟨fraction, hf, rfl⟩
    · obtain ⟨htake, hdrop⟩ := Numeral.takeWhile_isDigit_append rest hw hrest
      rw [splitNumber, htake, hdrop]
      cases rest with
      | nil => rfl
      | cons c cs =>
          have hnot : separator ∉ text := fun hmem => hdigit (hw separator hmem)
          exact if_neg ((hend c rfl).2 hnot)
    · have hsep : ∀ c, (separator :: (fraction ++ rest)).head? = some c → c.isDigit = false := by
        rintro c ⟨⟩
        exact Bool.eq_false_iff.2 hdigit
      obtain ⟨htake, hdrop⟩ := Numeral.takeWhile_isDigit_append _ hw hsep
      obtain ⟨htake', hdrop'⟩ := Numeral.takeWhile_isDigit_append rest hf hrest
      rw [List.append_assoc, List.cons_append, splitNumber, htake, hdrop]
      simp only [if_true, htake', hdrop']

/-- The longest number that starts with a digit has the form of a number and ends where it has
to. -/
theorem isNumber_splitNumber (separator : Char) {c : Char} (cs : List Char)
    (h : c.isDigit = true) :
    IsNumber separator (splitNumber separator (c :: cs)).1 ∧
      EndsNumber separator (splitNumber separator (c :: cs)).1
        (splitNumber separator (c :: cs)).2.head? := by
  have hne : (c :: cs).takeWhile Char.isDigit ≠ [] := by simp [h]
  have hw : ∀ d ∈ (c :: cs).takeWhile Char.isDigit, d.isDigit = true :=
    List.all_eq_true.1 List.all_takeWhile
  have hhead := List.head?_dropWhile_not Char.isDigit (c :: cs)
  unfold splitNumber
  cases hd : (c :: cs).dropWhile Char.isDigit with
  | nil => exact ⟨⟨_, hne, hw, .inl rfl⟩, by rintro d ⟨⟩⟩
  | cons d rest =>
      rw [hd] at hhead
      have hdigit : d.isDigit = false := by simpa using hhead
      by_cases hsep : d = separator
      · simp only [hsep, if_true]
        have hf : ∀ e ∈ rest.takeWhile Char.isDigit, e.isDigit = true :=
          List.all_eq_true.1 List.all_takeWhile
        refine ⟨⟨_, hne, hw, .inr ⟨_, hf, rfl⟩⟩, ?_⟩
        intro e he
        have hhead' := List.head?_dropWhile_not Char.isDigit rest
        rw [he] at hhead'
        refine ⟨by simpa using hhead', ?_⟩
        intro hnot
        exact absurd (by simp) hnot
      · simp only [hsep, if_false]
        refine ⟨⟨_, hne, hw, .inl rfl⟩, ?_⟩
        rintro e ⟨⟩
        exact ⟨hdigit, fun _ => hsep⟩

end Lexer

/-! ### Tokens in a line -/

namespace Span

/-- The position belongs to the span. -/
def Covers (s : Span) (i : Nat) : Prop := s.start ≤ i ∧ i < s.stop

instance (s : Span) : DecidablePred s.Covers := fun _ => inferInstanceAs (Decidable (_ ∧ _))

def slice (s : Span) (chars : List Char) : List Char := (chars.drop s.start).take s.length

end Span

def Token.place (t : Token) : Span := t.span.getD (Span.point 0)

namespace Lexer

/-- The token stands in the line, and it is one glyph or a number that ends where it has to. -/
structure IsCut (separator : Char) (chars : List Char) (t : Token) : Prop where
  span_eq : t.span = some t.place
  start_lt : t.place.start < t.place.stop
  stop_le : t.place.stop ≤ chars.length
  text_eq : t.text.toList = t.place.slice chars
  glyph : t.kind ≠ .number → ∃ c, t.kind.glyph? = some c ∧ t.text.toList = [c]
  number : t.kind = .number → IsNumber separator t.text.toList ∧
    EndsNumber separator t.text.toList chars[t.place.stop]?

/-- The tokens are those of the line from the given position on: they stand in the line in this
order, no two of them at one place, and every character outside is neither a glyph nor a digit. -/
structure IsCutting (separator : Char) (chars : List Char) (start : Nat) (ts : List Token) :
    Prop where
  cut : ∀ t ∈ ts, IsCut separator chars t
  start_le : ∀ t ∈ ts, start ≤ t.place.start
  ascending : ts.Pairwise fun t u => t.place.start < u.place.start
  disjoint : ts.Pairwise fun t u => ∀ i, ¬(t.place.Covers i ∧ u.place.Covers i)
  skipped : ∀ i c, start ≤ i → chars[i]? = some c → (∀ t ∈ ts, ¬t.place.Covers i) →
    Kind.ofGlyph? c = none ∧ c.isDigit = false

variable {separator : Char} {chars : List Char} {start i : Nat} {t u : Token} {ts us : List Token}

namespace IsCut

/-- The rest of the line from the token on is its text and the rest behind it. -/
theorem drop_eq (h : IsCut separator chars t) :
    chars.drop t.place.start = t.text.toList ++ chars.drop t.place.stop := by
  have hstop : t.place.stop = t.place.start + t.place.length := by
    have := h.start_lt
    rw [Span.length]
    omega
  rw [h.text_eq, Span.slice, hstop, ← List.drop_drop]
  exact (List.take_append_drop _ _).symm

theorem length_text (h : IsCut separator chars t) : t.text.toList.length = t.place.length := by
  have hlt := h.start_lt
  have hle := h.stop_le
  rw [h.text_eq, Span.slice, List.length_take, List.length_drop, Span.length]
  omega

/-- A glyph is no number, so its first character tells which of the two a token is. -/
theorem cases_first (h : IsCut separator chars t) :
    (∃ c, Kind.ofGlyph? c = some t.kind ∧ c.isDigit = false ∧
        chars.drop t.place.start = c :: chars.drop t.place.stop ∧ t.text.toList = [c]) ∨
      ∃ c cs, t.kind = .number ∧ c.isDigit = true ∧ chars.drop t.place.start = c :: cs ∧
        splitNumber separator (c :: cs) = (t.text.toList, chars.drop t.place.stop) := by
  have hdrop := h.drop_eq
  by_cases hk : t.kind = .number
  · obtain ⟨hnumber, hend⟩ := h.number hk
    obtain ⟨c, cs, htext, hdigit⟩ := hnumber.exists_cons
    refine .inr ⟨c, cs ++ chars.drop t.place.stop, hk, hdigit, by rw [hdrop, htext]; rfl, ?_⟩
    rw [← List.cons_append, ← htext]
    exact splitNumber_append_of_isNumber hnumber (by rwa [List.head?_drop])
  · obtain ⟨c, hc, htext⟩ := h.glyph hk
    have hof := Kind.ofGlyph?_glyph hc
    exact .inl ⟨c, hof, Kind.not_isDigit_of_ofGlyph? hof, by rw [hdrop, htext]; rfl, htext⟩

/-- A token starts with a character that starts tokens. -/
theorem startsToken_start (h : IsCut separator chars t) :
    ∃ c, chars[t.place.start]? = some c ∧ startsToken c = true := by
  rw [← List.head?_drop]
  rcases h.cases_first with ⟨c, hof, -, hdrop, -⟩ | ⟨c, cs, -, hdigit, hdrop, -⟩
  · exact ⟨c, by rw [hdrop]; rfl, by simp [startsToken, hof]⟩
  · exact ⟨c, by rw [hdrop]; rfl, by simp [startsToken, hdigit]⟩

/-- There is at most one token at a place. -/
theorem unique (h : IsCut separator chars t) (h' : IsCut separator chars u)
    (hstart : t.place.start = u.place.start) : t = u := by
  have hkind : t.kind = u.kind ∧ t.text.toList = u.text.toList := by
    rcases h.cases_first with ⟨c, hof, hdigit, hdrop, htext⟩ | ⟨c, cs, hk, hdigit, hdrop, hsplit⟩
    · rw [hstart] at hdrop
      rcases h'.cases_first with ⟨c', hof', -, hdrop', htext'⟩ | ⟨c', cs', -, hdigit', hdrop', -⟩
      · obtain ⟨rfl, -⟩ := List.cons.inj (hdrop.symm.trans hdrop')
        rw [hof, Option.some.injEq] at hof'
        exact ⟨hof', by rw [htext, htext']⟩
      · obtain ⟨rfl, -⟩ := List.cons.inj (hdrop.symm.trans hdrop')
        rw [hdigit] at hdigit'
        exact absurd hdigit' (by simp)
    · rw [hstart] at hdrop
      rcases h'.cases_first with ⟨c', -, hdigit', hdrop', -⟩ | ⟨c', cs', hk', -, hdrop', hsplit'⟩
      · obtain ⟨rfl, -⟩ := List.cons.inj (hdrop.symm.trans hdrop')
        rw [hdigit] at hdigit'
        exact absurd hdigit' (by simp)
      · obtain ⟨rfl, rfl⟩ := List.cons.inj (hdrop.symm.trans hdrop')
        rw [hsplit, Prod.mk.injEq] at hsplit'
        exact ⟨by rw [hk, hk'], hsplit'.1⟩
  obtain ⟨hkind, htext⟩ := hkind
  have hlen := h.length_text
  rw [htext, h'.length_text, Span.length, Span.length] at hlen
  have hstop : t.place.stop = u.place.stop := by
    have := h.start_lt
    have := h'.start_lt
    omega
  have hspan : t.span = u.span := by
    rw [h.span_eq, h'.span_eq]
    generalize t.place = s at hstart hstop
    generalize u.place = s' at hstart hstop
    cases s
    cases s'
    cases hstart
    cases hstop
    rfl
  cases t
  cases u
  cases hkind
  cases hspan
  cases String.toList_inj.1 htext
  rfl

end IsCut

/-! ### Walking over a line -/

/-- No character from one position up to another starts a token. -/
def Blank (chars : List Char) (start stop : Nat) : Prop :=
  ∀ i c, start ≤ i → i < stop → chars[i]? = some c → startsToken c = false

/-- The tokens of the line from the given position on, each of them at the first position where a
token can start. -/
inductive Walk (separator : Char) (chars : List Char) : Nat → List Token → Prop
  | nil {start : Nat} : Blank chars start chars.length → Walk separator chars start []
  | cons {start : Nat} {t : Token} {ts : List Token} :
      start ≤ t.place.start → Blank chars start t.place.start → IsCut separator chars t →
        Walk separator chars t.place.stop ts → Walk separator chars start (t :: ts)

/-- A token cannot start where nothing starts one. -/
theorem Blank.le_start {stop : Nat} (h : Blank chars start stop) (ht : IsCut separator chars t)
    (hle : start ≤ t.place.start) : stop ≤ t.place.start := by
  refine Nat.le_of_not_lt ?_
  intro hlt
  obtain ⟨c, hc, hstarts⟩ := ht.startsToken_start
  rw [h _ c hle hlt hc] at hstarts
  exact absurd hstarts (by simp)

/-- There is one walk from every position. -/
theorem Walk.unique (h : Walk separator chars start ts) (h' : Walk separator chars start us) :
    ts = us := by
  induction h generalizing us with
  | nil hblank =>
      cases h' with
      | nil _ => rfl
      | @cons _ u _ hle _ hu _ =>
          have := hblank.le_start hu hle
          have := hu.start_lt
          have := hu.stop_le
          omega
  | @cons start t ts hle hblank ht _ ih =>
      cases h' with
      | nil hblank' =>
          have := hblank'.le_start ht hle
          have := ht.start_lt
          have := ht.stop_le
          omega
      | @cons _ u _ hle' hblank' hu hrest =>
          have hstart : t.place.start = u.place.start :=
            Nat.le_antisymm (hblank.le_start hu hle') (hblank'.le_start ht hle)
          obtain rfl := ht.unique hu hstart
          rw [ih hrest]

/-- A walk satisfies the conditions. -/
theorem Walk.isCutting (h : Walk separator chars start ts) :
    IsCutting separator chars start ts := by
  induction h with
  | @nil start hblank =>
      refine ⟨by simp, by simp, .nil, .nil, ?_⟩
      intro i c hi hc _
      exact startsToken_eq_false_iff.1 (hblank i c hi (List.getElem?_eq_some_iff.1 hc).1 hc)
  | @cons start t ts hle hblank ht _ ih =>
      have hlt := ht.start_lt
      refine ⟨List.forall_mem_cons.2 ⟨ht, ih.cut⟩, List.forall_mem_cons.2 ⟨hle, ?_⟩,
        List.pairwise_cons.2 ⟨?_, ih.ascending⟩, List.pairwise_cons.2 ⟨?_, ih.disjoint⟩, ?_⟩
      · intro u hu
        have := ih.start_le u hu
        omega
      · intro u hu
        have := ih.start_le u hu
        omega
      · rintro u hu i ⟨⟨-, hi⟩, ⟨hi', -⟩⟩
        have := ih.start_le u hu
        omega
      · intro i c hi hc hout
        obtain ⟨hout, houts⟩ := List.forall_mem_cons.1 hout
        rcases Nat.lt_or_ge i t.place.start with hbefore | hbehind
        · exact startsToken_eq_false_iff.1 (hblank i c hi hbefore hc)
        · refine ih.skipped i c (Nat.le_of_not_lt ?_) hc houts
          intro hcovered
          exact hout ⟨hbehind, hcovered⟩

/-- Tokens that satisfy the conditions make a walk. -/
theorem IsCutting.walk (h : IsCutting separator chars start ts) :
    Walk separator chars start ts := by
  induction ts generalizing start with
  | nil =>
      refine .nil ?_
      intro i c hi _ hc
      exact startsToken_eq_false_iff.2 (h.skipped i c hi hc (by simp))
  | cons t ts ih =>
      obtain ⟨ht, hts⟩ := List.forall_mem_cons.1 h.cut
      obtain ⟨hle, -⟩ := List.forall_mem_cons.1 h.start_le
      obtain ⟨hbefore, hascending⟩ := List.pairwise_cons.1 h.ascending
      obtain ⟨hapart, hdisjoint⟩ := List.pairwise_cons.1 h.disjoint
      have hlt := ht.start_lt
      refine .cons hle ?_ ht (ih ⟨hts, ?_, hascending, hdisjoint, ?_⟩)
      · intro i c hi hstop hc
        refine startsToken_eq_false_iff.2 (h.skipped i c hi hc ?_)
        refine List.forall_mem_cons.2 ⟨fun hcover => ?_, fun u hu hcover => ?_⟩
        · have := hcover.1
          omega
        · have := hcover.1
          have := hbefore u hu
          omega
      · -- were it to start earlier, its first character would belong to both tokens
        intro u hu
        have hu' := hbefore u hu
        have hlt' := (hts u hu).start_lt
        refine Nat.le_of_not_lt ?_
        intro hinside
        exact hapart u hu u.place.start ⟨⟨by omega, hinside⟩, ⟨Nat.le_refl _, hlt'⟩⟩
      · intro i c hi hc houts
        refine h.skipped i c (by omega) hc (List.forall_mem_cons.2 ⟨fun hcover => ?_, houts⟩)
        have := hcover.2
        omega

theorem isCutting_iff_walk :
    IsCutting separator chars start ts ↔ Walk separator chars start ts :=
  ⟨IsCutting.walk, Walk.isCutting⟩

/-! ### The lexer walks -/

def lineEnd (chars : List Char) : Token := Token.endOfInput (some (Span.point chars.length))

@[simp] theorem place_lineEnd (chars : List Char) :
    (lineEnd chars).place = Span.point chars.length := rfl

/-- The token is the first one from the given position on, the end of the input being the last. -/
structure IsFirst (separator : Char) (chars : List Char) (start : Nat) (t : Token) : Prop where
  start_le : start ≤ t.place.start
  blank : Blank chars start t.place.start
  token : IsCut separator chars t ∨ t = lineEnd chars

/-- The lexer has read the line up to its offset. -/
structure Stands (chars : List Char) (l : Lexer) : Prop where
  offset_le : l.offset ≤ chars.length
  rest_eq : l.rest = chars.drop l.offset

/-- The lexer behind a token of the line. -/
def behind (chars : List Char) (t : Token) (l : Lexer) : Lexer :=
  ⟨l.separator, chars.drop t.place.stop, t.place.stop, l.skipped + (t.place.start - l.offset),
    l.produced + 1⟩

/-- One step of the lexer takes the first token that is left. -/
structure Steps (chars : List Char) (l : Lexer) (step : Token × Lexer) : Prop where
  first : IsFirst l.separator chars l.offset step.1
  lexer_eq : step.2 = l.behind chars step.1

/-- A step of the lexer behind a skipped character is a step of the lexer in front of it. -/
theorem Steps.skip {l : Lexer} {step : Token × Lexer} {c : Char} (hc : chars[l.offset]? = some c)
    (hstarts : startsToken c = false)
    (h : Steps chars ⟨l.separator, chars.drop (l.offset + 1), l.offset + 1, l.skipped + 1,
      l.produced⟩ step) : Steps chars l step := by
  obtain ⟨⟨hle, hblank, htoken⟩, hlexer⟩ := h
  have hle' : l.offset + 1 ≤ step.1.place.start := hle
  refine ⟨⟨Nat.le_of_succ_le hle', ?_, htoken⟩, ?_⟩
  · intro i d hi hstop hd
    rcases Nat.eq_or_lt_of_le hi with rfl | hi
    · rw [hc, Option.some.injEq] at hd
      rwa [← hd]
    · exact hblank i d hi hstop hd
  · have hskipped : l.skipped + 1 + (step.1.place.start - (l.offset + 1)) =
        l.skipped + (step.1.place.start - l.offset) := by
      omega
    rw [hlexer, behind, behind, hskipped]

/-- A token right at the offset is the first one. -/
theorem IsCut.isFirst (h : IsCut separator chars t) :
    IsFirst separator chars t.place.start t :=
  ⟨Nat.le_refl _, fun _ _ hi hstop => absurd hi (Nat.not_le_of_lt hstop), .inl h⟩

/-- A character that is a glyph is a token. -/
theorem isCut_glyph {c : Char} {kind : Kind} (hc : chars[i]? = some c)
    (hk : Kind.ofGlyph? c = some kind) :
    IsCut separator chars ⟨kind, String.ofList [c], some ⟨i, i + 1⟩⟩ := by
  obtain ⟨hlt, hget⟩ := List.getElem?_eq_some_iff.1 hc
  refine ⟨rfl, Nat.lt_succ_self i, hlt, ?_, ?_, ?_⟩
  · have hdrop : chars.drop i = c :: chars.drop (i + 1) := by
      rw [List.drop_eq_getElem_cons hlt, hget]
    simp [Token.place, Span.slice, Span.length, hdrop]
  · intro _
    exact ⟨c, Kind.ofGlyph?_eq_some_iff.1 hk, String.toList_ofList⟩
  · rintro rfl
    rw [Kind.ofGlyph?_eq_some_iff] at hk
    exact absurd hk (by simp [Kind.glyph?])

/-- A number that ends where it has to is a token. -/
theorem isCut_number {number rest : List Char} (hdrop : chars.drop i = number ++ rest)
    (hnumber : IsNumber separator number) (hend : EndsNumber separator number rest.head?) :
    IsCut separator chars ⟨.number, String.ofList number, some ⟨i, i + number.length⟩⟩ := by
  obtain ⟨c, cs, rfl, -⟩ := hnumber.exists_cons
  have hrest : chars.drop (i + (c :: cs).length) = rest := by
    rw [← List.drop_drop, hdrop, List.drop_left]
  have hlen := congrArg List.length hdrop
  rw [List.length_append, List.length_drop] at hlen
  refine ⟨rfl, ?_, ?_, ?_, fun hne => absurd rfl hne, ?_⟩
  · simp [Token.place]
  · rw [List.length_cons] at hlen
    simp only [Token.place, Option.getD_some, List.length_cons]
    omega
  · simp [Token.place, Span.slice, Span.length, hdrop]
  · intro _
    simp only [Token.place, Option.getD_some, String.toList_ofList]
    rw [← List.head?_drop, hrest]
    exact ⟨hnumber, hend⟩

/-- **One step of the lexer.** -/
theorem Stands.steps_next {l : Lexer} (h : l.Stands chars) : l.Steps chars l.next := by
  obtain ⟨hle, hrest⟩ := h
  induction hcs : chars.drop l.offset generalizing l with
  | nil =>
      have hoffset : l.offset = chars.length := Nat.le_antisymm hle (List.drop_eq_nil_iff.1 hcs)
      rw [next_of_nil (hrest.trans hcs), hoffset]
      refine ⟨⟨hle, fun i c hi hstop => absurd hi (Nat.not_le_of_lt ?_), .inr rfl⟩, ?_⟩
      · rwa [hoffset]
      · simp [behind, Token.place, hoffset]
  | cons c cs ih =>
      have hc : chars[l.offset]? = some c := by rw [← List.head?_drop, hcs]; rfl
      have htail : cs = chars.drop (l.offset + 1) := by
        rw [← List.drop_drop, hcs, List.drop_one, List.tail_cons]
      cases hk : Kind.ofGlyph? c with
      | some kind =>
          rw [next_of_glyph (hrest.trans hcs) hk, htail]
          exact ⟨(isCut_glyph hc hk).isFirst, by simp [behind, Token.place]⟩
      | none =>
          cases hd : c.isDigit with
          | true =>
              have happ := splitNumber_append l.separator (c :: cs)
              obtain ⟨hnumber, hend⟩ := isNumber_splitNumber l.separator cs hd
              have hdrop := hcs.trans happ.symm
              rw [next_of_digit (hrest.trans hcs) hd]
              refine ⟨(isCut_number hdrop hnumber hend).isFirst, ?_⟩
              simp [behind, Token.place, ← List.drop_drop, hdrop]
          | false =>
              have hstarts := startsToken_eq_false_iff.2 ⟨hk, hd⟩
              rw [next_of_skipped (hrest.trans hcs) hstarts, htail]
              exact .skip hc hstarts (ih (List.getElem?_eq_some_iff.1 hc).1 rfl htail.symm)

/-- Behind a step the lexer still stands on the line. -/
theorem Stands.next {l : Lexer} (h : l.Stands chars) : l.next.2.Stands chars := by
  obtain ⟨hfirst, hlexer⟩ := h.steps_next
  rw [hlexer]
  rcases hfirst.token with hcut | hend
  · exact ⟨hcut.stop_le, rfl⟩
  · rw [hend]
    exact ⟨Nat.le_refl _, rfl⟩

theorem stands_ofLine (separator : Char) (line : String) :
    (ofLine separator line).Stands line.toList :=
  ⟨Nat.zero_le _, rfl⟩

/-- A token that stands in a line is not the end of the input. -/
theorem IsCut.isEnd_eq_false (h : IsCut separator chars t) : t.isEnd = false := by
  by_cases hk : t.kind = .number
  · simp [Token.isEnd, hk]
  · obtain ⟨c, hc, -⟩ := h.glyph hk
    cases hend : t.isEnd with
    | false => rfl
    | true =>
        rw [Token.isEnd, beq_iff_eq] at hend
        exact absurd hc (by simp [hend, Kind.glyph?])

/-- Either some token is left and the step takes it, or none is left and none will be. -/
theorem Stands.cases_tokens {l : Lexer} (h : l.Stands chars) :
    (IsCut l.separator chars l.next.1 ∧ l.tokens = l.next.1 :: l.next.2.tokens) ∨
      (l.next.1 = lineEnd chars ∧ l.tokens = [] ∧ l.next.2.tokens = []) := by
  rcases h.steps_next.first.token with hcut | hend
  · exact .inl ⟨hcut, tokens_of_not_isEnd hcut.isEnd_eq_false⟩
  · have hisEnd : l.next.1.isEnd = true := by rw [hend]; rfl
    refine .inr ⟨hend, tokens_of_isEnd hisEnd, tokens_of_isEnd ?_⟩
    rw [next_of_nil (next_of_isEnd hisEnd).2]
    rfl

/-- The tokens that a lexer produces are a walk. -/
theorem Stands.walk_tokens {l : Lexer} (h : l.Stands chars) :
    Walk l.separator chars l.offset l.tokens := by
  induction hn : l.rest.length using Nat.strong_induction_on generalizing l with
  | _ n ih =>
      obtain ⟨⟨hle, hblank, -⟩, hlexer⟩ := h.steps_next
      rcases h.cases_tokens with ⟨hcut, htokens⟩ | ⟨hend, htokens, -⟩
      · have hlt := length_next_lt hcut.isEnd_eq_false
        have hrest := ih _ (hn ▸ hlt) h.next rfl
        rw [htokens]
        refine .cons hle hblank hcut ?_
        have hoffset : l.next.2.offset = l.next.1.place.stop := by rw [hlexer]; rfl
        rwa [separator_next, hoffset] at hrest
      · rw [hend] at hblank
        rw [htokens]
        exact .nil hblank

/-! ### Counting -/

/-- How many of the first positions belong to none of the tokens. -/
def uncovered (ts : List Token) (stop : Nat) : Nat :=
  Nat.count (fun i => ∀ t ∈ ts, ¬t.place.Covers i) stop

theorem count_of_forall {P : Nat → Prop} [DecidablePred P] {a b : Nat} (hab : a ≤ b)
    (h : ∀ i, a ≤ i → i < b → P i) : Nat.count P b = Nat.count P a + (b - a) := by
  obtain ⟨d, rfl⟩ := Nat.exists_eq_add_of_le hab
  have hd : Nat.count (fun i => P (a + i)) d = d :=
    Nat.count_iff_forall.2 fun i hi => h (a + i) (Nat.le_add_right a i) (by omega)
  rw [Nat.count_add, hd, Nat.add_sub_cancel_left]

theorem count_of_forall_not {P : Nat → Prop} [DecidablePred P] {a b : Nat} (hab : a ≤ b)
    (h : ∀ i, a ≤ i → i < b → ¬P i) : Nat.count P b = Nat.count P a := by
  obtain ⟨d, rfl⟩ := Nat.exists_eq_add_of_le hab
  have hd : Nat.count (fun i => P (a + i)) d = 0 :=
    Nat.count_iff_forall_not.2 fun i hi => h (a + i) (Nat.le_add_right a i) (by omega)
  rw [Nat.count_add, hd, Nat.add_zero]

theorem produced_after (l : Lexer) (n : Nat) : (l.after n).produced = l.produced + n := by
  induction n generalizing l with
  | zero => rfl
  | succ n ih => rw [after, ih, produced_next, Nat.add_assoc, Nat.add_comm 1 n]

section Counting

variable {P : Nat → Prop} {l : Lexer}

/-- The property tells which positions, from the offset of the lexer on, belong to none of the
tokens that are left. -/
def Tells (P : Nat → Prop) (l : Lexer) : Prop :=
  ∀ i, l.offset ≤ i → (P i ↔ ∀ t ∈ l.tokens, ¬t.place.Covers i)

theorem Stands.offset_next (h : l.Stands chars) : l.next.2.offset = l.next.1.place.stop := by
  rw [h.steps_next.lexer_eq]
  rfl

theorem Stands.tells_next (h : l.Stands chars) (hP : Tells P l) : Tells P l.next.2 := by
  intro i hi
  have hle := h.steps_next.first.start_le
  rw [h.offset_next] at hi
  rcases h.cases_tokens with ⟨hcut, htokens⟩ | ⟨hend, htokens, htokens'⟩
  · have hlt := hcut.start_lt
    have hout : ¬l.next.1.place.Covers i := fun hcover => absurd hcover.2 (Nat.not_lt_of_le hi)
    rw [hP i (by omega), htokens, List.forall_mem_cons]
    exact and_iff_right hout
  · rw [hend] at hle hi
    rw [hP i (Nat.le_trans hle hi), htokens, htokens']

/-- One step counts the positions in front of the token. -/
theorem Stands.skipped_next [DecidablePred P] (h : l.Stands chars) (hP : Tells P l) :
    l.next.2.skipped + Nat.count P l.offset =
      l.skipped + Nat.count P l.next.1.place.stop := by
  have hle := h.steps_next.first.start_le
  have hgap : Nat.count P l.next.1.place.start =
      Nat.count P l.offset + (l.next.1.place.start - l.offset) := by
    refine count_of_forall hle ?_
    intro i hi hstop
    refine (hP i hi).2 ?_
    rcases h.cases_tokens with ⟨hcut, htokens⟩ | ⟨-, htokens, -⟩
    · have hlt := hcut.start_lt
      have hwalk := h.next.walk_tokens.isCutting
      rw [htokens]
      refine List.forall_mem_cons.2 ⟨fun hcover => ?_, fun t ht hcover => ?_⟩
      · exact absurd hcover.1 (Nat.not_le_of_lt hstop)
      · have := hwalk.start_le t ht
        rw [h.offset_next] at this
        exact absurd hcover.1 (by omega)
    · rw [htokens]
      simp
  have hcovered : Nat.count P l.next.1.place.stop = Nat.count P l.next.1.place.start := by
    rcases h.cases_tokens with ⟨hcut, htokens⟩ | ⟨hend, -, -⟩
    · refine count_of_forall_not (Nat.le_of_lt hcut.start_lt) ?_
      intro i hi hstop hout
      have := (hP i (Nat.le_trans hle hi)).1 hout
      exact this _ (htokens ▸ List.mem_cons_self ..) ⟨hi, hstop⟩
    · rw [hend]
      rfl
  have hskipped : l.next.2.skipped = l.skipped + (l.next.1.place.start - l.offset) := by
    rw [h.steps_next.lexer_eq]
    rfl
  omega

/-- The token that is asked for after `n` others is the one whose turn it is, or the end of the
input when there are no more; behind it, the offset is where it ends, and the positions without a
token in front of that have been skipped. -/
theorem Stands.next_after [DecidablePred P] (h : l.Stands chars) (hP : Tells P l) (n : Nat) :
    (l.after n).next.1 = l.tokens[n]?.getD (lineEnd chars) ∧
      (l.after (n + 1)).offset = (l.after n).next.1.place.stop ∧
        (l.after (n + 1)).skipped + Nat.count P l.offset =
          l.skipped + Nat.count P (l.after n).next.1.place.stop := by
  induction n generalizing l with
  | zero =>
      refine ⟨?_, h.offset_next, h.skipped_next hP⟩
      rcases h.cases_tokens with ⟨-, htokens⟩ | ⟨hend, htokens, -⟩
      · rw [htokens]
        rfl
      · rw [htokens]
        exact hend
  | succ n ih =>
      obtain ⟨htoken, hoffset, hskipped⟩ := ih h.next (h.tells_next hP)
      have hone := h.skipped_next hP
      refine ⟨?_, hoffset, ?_⟩
      · rw [after, htoken]
        rcases h.cases_tokens with ⟨-, htokens⟩ | ⟨-, htokens, htokens'⟩
        · rw [htokens, List.getElem?_cons_succ]
        · rw [htokens, htokens', List.getElem?_nil, List.getElem?_nil]
      · rw [h.offset_next] at hskipped
        simp only [after] at hskipped ⊢
        omega

end Counting

/-- The same from the start of a line, where nothing has been counted yet. -/
theorem next_after_ofLine (separator : Char) (line : String) (n : Nat) :
    ((ofLine separator line).after n).next.1 =
        (ofLine separator line).tokens[n]?.getD (lineEnd line.toList) ∧
      ((ofLine separator line).after (n + 1)).produced = n + 1 ∧
      ((ofLine separator line).after (n + 1)).offset =
        ((ofLine separator line).after n).next.1.place.stop ∧
      ((ofLine separator line).after (n + 1)).skipped =
        uncovered (ofLine separator line).tokens
          ((ofLine separator line).after n).next.1.place.stop := by
  have htells : Tells (fun i => ∀ t ∈ (ofLine separator line).tokens, ¬t.place.Covers i)
      (ofLine separator line) := fun _ _ => Iff.rfl
  obtain ⟨htoken, hoffset, hskipped⟩ := (stands_ofLine separator line).next_after htells n
  have hproduced := produced_after (ofLine separator line) (n + 1)
  have hzero : (ofLine separator line).offset = 0 ∧ (ofLine separator line).skipped = 0 ∧
      (ofLine separator line).produced = 0 := ⟨rfl, rfl, rfl⟩
  obtain ⟨ho, hs, hp⟩ := hzero
  rw [ho, hs, Nat.count_zero, Nat.add_zero, Nat.zero_add] at hskipped
  rw [hp, Nat.zero_add] at hproduced
  exact ⟨htoken, hproduced, hoffset, hskipped⟩

/-- **The specification of the lexer.**  Whatever the line and the separator are, the tokens that
the lexer produces satisfy the conditions, and no other tokens do; the lexer yields them one after
another and counts the tokens, the characters up to the end of the last one, and the positions
among these that belong to no token; and then it yields the end of the input for ever. -/
theorem isCutting_iff_tokens (separator : Char) (line : String) :
    (∀ ts, IsCutting separator line.toList 0 ts ↔ ts = (ofLine separator line).tokens) ∧
    (∀ n t, (ofLine separator line).tokens[n]? = some t →
      ((ofLine separator line).after n).next.1 = t ∧
      ((ofLine separator line).after (n + 1)).produced = n + 1 ∧
      ((ofLine separator line).after (n + 1)).offset = t.place.stop ∧
      ((ofLine separator line).after (n + 1)).skipped =
        uncovered (ofLine separator line).tokens t.place.stop) ∧
    ∀ n, (ofLine separator line).tokens.length ≤ n →
      ((ofLine separator line).after n).next.1 =
        Token.endOfInput (some ⟨line.length, line.length⟩) ∧
      ((ofLine separator line).after (n + 1)).produced = n + 1 ∧
      ((ofLine separator line).after (n + 1)).offset = line.length ∧
      ((ofLine separator line).after (n + 1)).skipped =
        uncovered (ofLine separator line).tokens line.length := by
  refine ⟨?_, ?_, ?_⟩
  · intro ts
    have hwalk := (stands_ofLine separator line).walk_tokens
    rw [isCutting_iff_walk]
    constructor
    · intro h
      exact h.unique hwalk
    · rintro rfl
      exact hwalk
  · intro n t ht
    obtain ⟨htoken, hproduced, hoffset, hskipped⟩ := next_after_ofLine separator line n
    rw [ht, Option.getD_some] at htoken
    rw [htoken] at hoffset hskipped
    exact ⟨htoken, hproduced, hoffset, hskipped⟩
  · intro n hn
    obtain ⟨htoken, hproduced, hoffset, hskipped⟩ := next_after_ofLine separator line n
    rw [List.getElem?_eq_none hn, Option.getD_none] at htoken
    rw [htoken, place_lineEnd, Span.stop_point, String.length_toList] at hoffset hskipped
    rw [lineEnd, String.length_toList] at htoken
    exact ⟨htoken, hproduced, hoffset, hskipped⟩

end Lexer

end Reckon

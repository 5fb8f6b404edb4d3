/-
**Cutting a line into tokens.**

The lexer walks over a line from left to right.  A glyph is a token of one character.  A digit
starts a number: all the digits that follow, then, if the separator comes next, the separator and
all the digits after it.  Every other character is skipped.  Behind the last token the line yields
the end of the input, as often as it is asked.  The lexer accepts every line; it also accepts a
separator that is itself a digit, a glyph or a blank, and the rules above say what happens then.

Main definitions:

* `Lexer` — the unread characters and what has been counted so far;
* `Lexer.splitNumber` — the longest number at the start of the unread characters;
* `Lexer.next` — the next token and the lexer behind it;
* `Lexer.tokens` — the tokens of a line, up to the end of the input.

Main results:

* `Lexer.splitNumber_append` — the number and the rest are the unread characters again;
* `Lexer.next_of_glyph`, `Lexer.next_of_digit`, `Lexer.next_of_skipped`, `Lexer.next_of_nil` —
  the rule for each kind of character;
* `Lexer.length_next_lt` — every token but the end of the input uses up characters;
* `Lexer.next_of_isEnd` — the end of the input comes only when nothing is left;
* `Lexer.toList_text_next` — what the text of a token is.
-/

import Reckon.Token

set_option autoImplicit false
set_option relaxedAutoImplicit false

namespace Reckon

/-- A line of which `offset` characters have been read.  Of these `skipped` belong to no token;
`produced` counts the tokens, the ends of the input included. -/
structure Lexer where
  separator : Char
  rest : List Char
  offset : Nat
  skipped : Nat
  produced : Nat
deriving DecidableEq, Repr

namespace Lexer

def ofLine (separator : Char) (line : String) : Lexer := ⟨separator, line.toList, 0, 0, 0⟩

/-! ### Numbers -/

/-- Splits the unread characters behind the longest number they start with: digits, and then the
separator and more digits if the separator comes next. -/
def splitNumber (separator : Char) (cs : List Char) : List Char × List Char :=
  let whole := cs.takeWhile Char.isDigit
  match cs.dropWhile Char.isDigit with
  | [] => (whole, [])
  | c :: rest =>
      if c = separator then
        (whole ++ c :: rest.takeWhile Char.isDigit, rest.dropWhile Char.isDigit)
      else (whole, c :: rest)

/-- Splitting loses nothing. -/
theorem splitNumber_append (separator : Char) (cs : List Char) :
    (splitNumber separator cs).1 ++ (splitNumber separator cs).2 = cs := by
  have hcs := List.takeWhile_append_dropWhile (p := Char.isDigit) (l := cs)
  unfold splitNumber
  cases hd : cs.dropWhile Char.isDigit with
  | nil =>
      rw [hd] at hcs
      simpa using hcs
  | cons c rest =>
      rw [hd] at hcs
      by_cases hc : c = separator
      · simp only [hc, if_true]
        rw [List.append_assoc, List.cons_append, List.takeWhile_append_dropWhile, ← hc]
        exact hcs
      · simp only [hc, if_false]
        exact hcs

/-- A number that starts with a digit is not empty, so less is left behind it. -/
theorem length_splitNumber_lt (separator : Char) {c : Char} (cs : List Char)
    (h : c.isDigit = true) :
    (splitNumber separator (c :: cs)).2.length < (c :: cs).length := by
  have happ := congrArg List.length (splitNumber_append separator (c :: cs))
  have hpos : 0 < (splitNumber separator (c :: cs)).1.length := by
    unfold splitNumber
    cases (c :: cs).dropWhile Char.isDigit with
    | nil => simp [h]
    | cons d rest =>
        by_cases hd : d = separator <;> simp [hd, h]
  rw [List.length_append] at happ
  omega

/-! ### Tokens -/

def startsToken (c : Char) : Bool := (Kind.ofGlyph? c).isSome || c.isDigit

/-- The next token, and the lexer behind it. -/
def next (l : Lexer) : Token × Lexer :=
  -- the characters before the token are skipped
  let gap := (l.rest.takeWhile (fun c => !startsToken c)).length
  let start := l.offset + gap
  match l.rest.dropWhile (fun c => !startsToken c) with
  | [] =>
      (Token.endOfInput (some (Span.point start)),
        ⟨l.separator, [], start, l.skipped + gap, l.produced + 1⟩)
  | c :: cs =>
      match Kind.ofGlyph? c with
      | some kind =>
          (⟨kind, String.ofList [c], some ⟨start, start + 1⟩⟩,
            ⟨l.separator, cs, start + 1, l.skipped + gap, l.produced + 1⟩)
      | none =>
          let number := (splitNumber l.separator (c :: cs)).1
          let stop := start + number.length
          (⟨.number, String.ofList number, some ⟨start, stop⟩⟩,
            ⟨l.separator, (splitNumber l.separator (c :: cs)).2, stop, l.skipped + gap,
              l.produced + 1⟩)

@[simp] theorem separator_next (l : Lexer) : l.next.2.separator = l.separator := by
  unfold next
  repeat' split
  all_goals rfl

@[simp] theorem produced_next (l : Lexer) : l.next.2.produced = l.produced + 1 := by
  unfold next
  repeat' split
  all_goals rfl

/-- Every token of a line knows its place. -/
theorem isSome_span_next (l : Lexer) : l.next.1.span.isSome = true := by
  unfold next
  repeat' split
  all_goals rfl

/-- At the end of the line stands the end of the input. -/
theorem next_of_nil {l : Lexer} (h : l.rest = []) :
    l.next = (Token.endOfInput (some (Span.point l.offset)),
      ⟨l.separator, [], l.offset, l.skipped, l.produced + 1⟩) := by
  simp [next, h]

/-- A glyph is a token of one character. -/
theorem next_of_glyph {l : Lexer} {c : Char} {cs : List Char} {kind : Kind}
    (h : l.rest = c :: cs) (hk : Kind.ofGlyph? c = some kind) :
    l.next = (⟨kind, String.ofList [c], some ⟨l.offset, l.offset + 1⟩⟩,
      ⟨l.separator, cs, l.offset + 1, l.skipped, l.produced + 1⟩) := by
  have hs : startsToken c = true := by simp [startsToken, hk]
  simp [next, h, hs, hk]

/-- A digit starts the longest number that stands there. -/
theorem next_of_digit {l : Lexer} {c : Char} {cs : List Char}
    (h : l.rest = c :: cs) (hd : c.isDigit = true) :
    l.next =
      (⟨.number, String.ofList (splitNumber l.separator (c :: cs)).1,
          some ⟨l.offset, l.offset + (splitNumber l.separator (c :: cs)).1.length⟩⟩,
        ⟨l.separator, (splitNumber l.separator (c :: cs)).2,
          l.offset + (splitNumber l.separator (c :: cs)).1.length, l.skipped, l.produced + 1⟩) := by
  have hs : startsToken c = true := by simp [startsToken, hd]
  simp [next, h, hs, Kind.ofGlyph?_eq_none_of_isDigit hd]

/-- Any other character is skipped. -/
theorem next_of_skipped {l : Lexer} {c : Char} {cs : List Char}
    (h : l.rest = c :: cs) (hs : startsToken c = false) :
    l.next = next ⟨l.separator, cs, l.offset + 1, l.skipped + 1, l.produced⟩ := by
  have hgap : ∀ n : Nat, n + ((cs.takeWhile (fun c => !startsToken c)).length + 1) =
      n + 1 + (cs.takeWhile (fun c => !startsToken c)).length := by
    intro n
    omega
  simp [next, h, hs, hgap]

/-- Every token but the end of the input uses up characters. -/
theorem length_next_lt {l : Lexer} (h : l.next.1.isEnd = false) :
    l.next.2.rest.length < l.rest.length := by
  have happ := congrArg List.length
    (List.takeWhile_append_dropWhile (p := fun c => !startsToken c) (l := l.rest))
  rw [List.length_append] at happ
  unfold next at h ⊢
  cases hd : l.rest.dropWhile (fun c => !startsToken c) with
  | nil => simp [hd, Token.isEnd] at h
  | cons c cs =>
      rw [hd, List.length_cons] at happ
      cases hk : Kind.ofGlyph? c with
      | some kind =>
          simp only [hk]
          omega
      | none =>
          have hhead := List.head?_dropWhile_not (fun c => !startsToken c) l.rest
          rw [hd] at hhead
          have hdigit : c.isDigit = true := by simpa [startsToken, hk] using hhead
          have hlt := length_splitNumber_lt l.separator cs hdigit
          simp only [hk]
          rw [List.length_cons] at hlt
          omega

/-- The end of the input comes only when no unread character starts a token, and nothing is left
behind it. -/
theorem next_of_isEnd {l : Lexer} (h : l.next.1.isEnd = true) :
    (∀ c ∈ l.rest, startsToken c = false) ∧ l.next.2.rest = [] := by
  unfold next at h ⊢
  cases hd : l.rest.dropWhile (fun c => !startsToken c) with
  | nil =>
      refine ⟨fun c hc => ?_, rfl⟩
      rw [← List.takeWhile_append_dropWhile (p := fun c => !startsToken c) (l := l.rest), hd,
        List.append_nil] at hc
      simpa using List.all_eq_true.1 List.all_takeWhile c hc
  | cons c cs =>
      cases hk : Kind.ofGlyph? c with
      | none => simp [hd, hk, Token.isEnd] at h
      | some kind =>
          simp only [hd, hk, Token.isEnd, beq_iff_eq] at h
          subst h
          rw [Kind.ofGlyph?_eq_some_iff] at hk
          exact absurd hk (by simp [Kind.glyph?])

/-- The text of a token is its glyph.  Only a number is written otherwise, and the end of the input
has neither a glyph nor a text. -/
theorem toList_text_next {l : Lexer} (h : l.next.1.kind ≠ .number) :
    l.next.1.text.toList = l.next.1.kind.glyph?.toList := by
  unfold next at h ⊢
  cases hd : l.rest.dropWhile (fun c => !startsToken c) with
  | nil => simp [Kind.glyph?]
  | cons c cs =>
      cases hk : Kind.ofGlyph? c with
      | none => exact absurd (by simp [hd, hk]) h
      | some kind => simp [hk, Kind.ofGlyph?_eq_some_iff.1 hk]

/-- The tokens of the rest of a line, up to and without the end of the input. -/
def tokens (l : Lexer) : List Token :=
  if l.next.1.isEnd = false then l.next.1 :: tokens l.next.2 else []
termination_by l.rest.length
decreasing_by exact length_next_lt ‹_›

theorem tokens_of_isEnd {l : Lexer} (h : l.next.1.isEnd = true) : l.tokens = [] := by
  rw [tokens, if_neg (by simp [h])]

theorem tokens_of_not_isEnd {l : Lexer} (h : l.next.1.isEnd = false) :
    l.tokens = l.next.1 :: l.next.2.tokens := by
  rw [tokens, if_pos h]

end Lexer

end Reckon

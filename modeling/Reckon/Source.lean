/-
**Where tokens come from.**

A parser draws its tokens from a finite list or from a line that is cut into tokens on demand.  A
list runs dry; a line yields the end of the input for ever.

Main definitions:

* `Source`, `Source.next` — the two origins, and drawing one token;
* `Source.size` — a bound on the number of tokens, the ends of the input not counted, that can
  still be drawn;
* `Source.head`, `Source.stream` — the tokens to come without end, ends of the input being made up
  behind a list.

Main results:

* `Source.size_next_lt` — a token other than the end of the input lowers the bound;
* `Source.size_next_le` — and nothing raises it.
-/

import Reckon.Lexer

set_option autoImplicit false
set_option relaxedAutoImplicit false

namespace Reckon

/-- The origin of a parser's tokens, a list of them or a line. -/
inductive Source where
  | list (tokens : List Token)
  | line (lexer : Lexer)
deriving DecidableEq, Repr

namespace Source

/-- Draws the next token, or nothing when a list has run dry. -/
def next : Source → Option Token × Source
  | list [] => (none, list [])
  | list (t :: ts) => (some t, list ts)
  | line l => (some l.next.1, line l.next.2)

@[simp] theorem next_list_nil : (list []).next = (none, list []) := rfl

@[simp] theorem next_list_cons (t : Token) (ts : List Token) :
    (list (t :: ts)).next = (some t, list ts) := rfl

@[simp] theorem next_line (l : Lexer) : (line l).next = (some l.next.1, line l.next.2) := rfl

/-- How many tokens, the ends of the input not counted, can still be drawn at most: the length of
the list, or the number of unread characters. -/
def size : Source → Nat
  | list ts => ts.length
  | line l => l.rest.length

@[simp] theorem size_list (ts : List Token) : (list ts).size = ts.length := rfl

@[simp] theorem size_line (l : Lexer) : (line l).size = l.rest.length := rfl

/-- A token other than the end of the input lowers the bound. -/
theorem size_next_lt {s : Source} {t : Token} (h : s.next.1 = some t) (ht : t.isEnd = false) :
    s.next.2.size < s.size := by
  cases s with
  | list ts =>
      cases ts with
      | nil => simp at h
      | cons u us => simp
  | line l =>
      simp only [next_line, Option.some.injEq] at h
      rw [← h] at ht
      exact Lexer.length_next_lt ht

/-- Drawing never raises the bound. -/
theorem size_next_le (s : Source) : s.next.2.size ≤ s.size := by
  cases s with
  | list ts =>
      cases ts with
      | nil => simp
      | cons u us => simp
  | line l =>
      cases hend : l.next.1.isEnd with
      | false => exact Nat.le_of_lt (Lexer.length_next_lt hend)
      | true => simp [(Lexer.next_of_isEnd hend).2]

/-! ### Endless streams -/

/-- The place that the end of the input has after token `t`. -/
def endAfter (place : Option Span) (t : Token) : Option Span :=
  match t.span with
  | some s => some (Span.point s.stop)
  | none => place

/-- The token that comes next; an end of the input at `place` once a list has run dry. -/
def head (s : Source) (place : Option Span) : Token :=
  match s.next.1 with
  | some t => t
  | none => Token.endOfInput place

/-- The token that comes after `n` others, where an end of the input would now be at `place`. -/
def stream (s : Source) (place : Option Span) : Nat → Token
  | 0 => s.head place
  | n + 1 => s.next.2.stream (endAfter place (s.head place)) n

@[simp] theorem head_list_nil (place : Option Span) :
    (list []).head place = Token.endOfInput place := rfl

@[simp] theorem head_list_cons (t : Token) (ts : List Token) (place : Option Span) :
    (list (t :: ts)).head place = t := rfl

@[simp] theorem head_line (l : Lexer) (place : Option Span) : (line l).head place = l.next.1 := rfl

end Source

end Reckon

/-
**The tokens ahead of a parser.**

Whatever a parser has drawn and whatever it has yet to draw, ahead of it lies one endless stream of
tokens: first those that are pending, then those of the source.  Looking ahead reads the stream at
a distance and leaves it as it is; consuming takes its first token.  Nothing else about the buffer
can be observed through the tokens.

Main definitions:

* `Parser.stream` — the token at a distance.

Main results:

* `Parser.stream_fill` — drawing tokens does not change the stream;
* `Parser.peek_fst`, `Parser.stream_peek` — looking ahead;
* `Parser.consume_fst`, `Parser.stream_consume` — consuming;
* `Parser.precedence_fst` — the precedence that is seen.
-/

import Reckon.Parser.Climb

set_option autoImplicit false
set_option relaxedAutoImplicit false

namespace Reckon

namespace Parser

/-- A stream with some tokens put in front. -/
def precede (later : Nat → Token) : List Token → Nat → Token
  | [], n => later n
  | t :: _, 0 => t
  | _ :: ts, n + 1 => precede later ts n

/-- The token that comes after `n` others. -/
def stream (p : Parser) : Nat → Token := precede (p.source.stream p.endSpan) p.pending

theorem precede_append (later : Nat → Token) (ts us : List Token) :
    precede later (ts ++ us) = precede (precede later us) ts := by
  induction ts with
  | nil => rfl
  | cons t ts ih =>
      funext n
      cases n with
      | zero => rfl
      | succ n => exact congrFun ih n

theorem precede_eq_of_getElem? {later : Nat → Token} {ts : List Token} {n : Nat} {t : Token}
    (h : ts[n]? = some t) : precede later ts n = t := by
  induction ts generalizing n with
  | nil => simp at h
  | cons u us ih =>
      cases n with
      | zero => simpa [precede] using h
      | succ n => exact ih (by simpa using h)

/-- A stream is its first token and the rest. -/
theorem precede_singleton (s : Source) (place : Option Span) :
    precede (s.next.2.stream (Source.endAfter place (s.head place))) [s.head place] =
      s.stream place := by
  funext n
  cases n with
  | zero => rfl
  | succ n => rfl

/-! ### Drawing -/

@[simp] theorem stream_draw (p : Parser) : p.draw.stream = p.stream := by
  rw [stream, pending_draw, precede_append]
  exact congrArg (fun later => precede later p.pending) (precede_singleton p.source p.endSpan)

@[simp] theorem stream_drawMany (n : Nat) (p : Parser) : (drawMany n p).stream = p.stream := by
  induction n generalizing p with
  | zero => rfl
  | succ n ih => rw [drawMany, ih, stream_draw]

/-- Drawing tokens does not change the stream. -/
@[simp] theorem stream_fill (count : Nat) (p : Parser) : (p.fill count).stream = p.stream :=
  stream_drawMany (count - p.pending.length) p

/-! ### Steps -/

/-- Looking ahead reads the stream at a distance. -/
@[simp] theorem peek_fst (distance : Nat) (p : Parser) (h : InReach distance) :
    (p.peek distance h).1 = p.stream distance := by
  rw [← stream_fill (distance + 1) p]
  exact (precede_eq_of_getElem? (p.getElem?_pending_peek h)).symm

/-- Looking ahead leaves the stream as it is. -/
@[simp] theorem stream_peek (distance : Nat) (p : Parser) (h : InReach distance) :
    (p.peek distance h).2.stream = p.stream :=
  stream_fill (distance + 1) p

/-- Consuming yields the first token of the stream. -/
@[simp] theorem consume_fst (p : Parser) : p.consume.1 = p.stream 0 := by
  obtain ⟨t, ts, h⟩ := exists_pending_fill 0 p
  rw [consume_eq h, ← stream_fill 1 p, stream, h]
  rfl

/-- Consuming leaves the rest of the stream. -/
theorem stream_consume (p : Parser) (n : Nat) : p.consume.2.stream n = p.stream (n + 1) := by
  obtain ⟨t, ts, h⟩ := exists_pending_fill 0 p
  rw [consume_eq h, ← stream_fill 1 p]
  simp only [stream, h]
  rfl

/-- The precedence that is seen is that of the first token. -/
@[simp] theorem precedence_fst (g : Grammar) (p : Parser) :
    (p.precedence g).1 = g.precedenceOf (p.stream 0).kind := by
  rw [← peek_fst 0 p inReach_zero]
  rfl

@[simp] theorem stream_precedence (g : Grammar) (p : Parser) :
    (p.precedence g).2.stream = p.stream :=
  stream_peek 0 p inReach_zero

/-! ### What leaves the stream alone -/

@[simp] theorem stream_enter (p : Parser) : p.enter.stream = p.stream := rfl

@[simp] theorem stream_leave (p : Parser) : p.leave.stream = p.stream := rfl

@[simp] theorem stream_countPrefix (p : Parser) : p.countPrefix.stream = p.stream := rfl

@[simp] theorem stream_countInfix (p : Parser) : p.countInfix.stream = p.stream := rfl

end Parser

end Reckon

/-
**The endless stream of a source.**

Behind the tokens of a list there are made-up ends of the input, all at the place where the last
token that knows its place ended, and a line yields its own end for ever.  So every source stands
for an endless stream of tokens, and a new parser has this stream ahead of it.

Main definitions:

* `Source.endless` — the stream that a source stands for.

Main results:

* `Source.stream_list`, `Source.stream_line` — the tokens to come, for a list and for a line;
* `Parser.stream_ofSource`, `Parser.follows_ofSource` — a new parser stands at the start of the
  stream of its source.
-/

import Reckon.Proofs.Refinement

set_option autoImplicit false
set_option relaxedAutoImplicit false

namespace Reckon

def Lexer.after : Nat → Lexer → Lexer
  | 0, l => l
  | n + 1, l => after n l.next.2

namespace Source

/-- The end of the last token with a known place. -/
def lastPlace (ts : List Token) : Option Span :=
  (ts.filterMap Token.span).getLast?.map (fun s => Span.point s.stop)

/-- The stream that a source stands for: the tokens of a list and then ends of the input, or
whatever a line yields. -/
def endless : Source → Tape
  | list ts => fun n => ts[n]?.getD (Token.endOfInput (lastPlace ts))
  | line l => fun n => (l.after n).next.1

/-- Made-up ends of the input do not move. -/
def Still (place : Option Span) : Prop := endAfter place (Token.endOfInput place) = place

theorem still_none : Still none := rfl

theorem still_endAfter {place : Option Span} (h : Still place) (t : Token) :
    Still (endAfter place t) := by
  unfold endAfter
  cases t.span with
  | none => exact h
  | some s => rfl

theorem stream_list_nil {place : Option Span} (h : Still place) (n : Nat) :
    (list []).stream place n = Token.endOfInput place := by
  induction n with
  | zero => rfl
  | succ n ih =>
      rw [stream, head_list_nil, h]
      exact ih

theorem stream_list {place : Option Span} (h : Still place) (ts : List Token) (n : Nat) :
    (list ts).stream place n = ts[n]?.getD (Token.endOfInput (ts.foldl endAfter place)) := by
  induction ts generalizing place n with
  | nil => exact stream_list_nil h n
  | cons t ts ih =>
      cases n with
      | zero => rfl
      | succ n => exact ih (still_endAfter h t) n

theorem stream_line (l : Lexer) (place : Option Span) (n : Nat) :
    (line l).stream place n = (l.after n).next.1 := by
  induction n generalizing l place with
  | zero => rfl
  | succ n ih => exact ih l.next.2 _

theorem foldl_endAfter (place : Option Span) (ts : List Token) :
    ts.foldl endAfter place =
      match lastPlace ts with
      | some s => some s
      | none => place := by
  induction ts generalizing place with
  | nil => rfl
  | cons t ts ih =>
      rw [List.foldl_cons, ih, lastPlace, lastPlace]
      cases ht : t.span with
      | none => simp only [List.filterMap_cons, ht, endAfter]
      | some s =>
          simp only [List.filterMap_cons, ht, endAfter, List.getLast?_cons]
          cases (ts.filterMap Token.span).getLast? <;> rfl

end Source

namespace Parser

/-- A new parser has the stream of its source ahead of it. -/
theorem stream_ofSource (s : Source) (limit : Nat) : (ofSource s limit).stream = s.endless := by
  funext n
  cases s with
  | list ts =>
      have hplace : ts.foldl Source.endAfter none = Source.lastPlace ts := by
        rw [Source.foldl_endAfter]
        cases Source.lastPlace ts <;> rfl
      rw [Source.endless, ← hplace]
      exact Source.stream_list Source.still_none ts n
  | line l => exact Source.stream_line l none n

theorem follows_ofSource (s : Source) (limit : Nat) :
    (ofSource s limit).Follows s.endless limit 0 0 := by
  refine ⟨?_, rfl, rfl, rfl⟩
  intro n
  rw [stream_ofSource, Nat.zero_add]

end Parser

end Reckon

/-
**The errors of a line.**

Of all the errors that the engine and its operations know, a line can have three.  Its numbers can
always be read, whatever the separator is, and the rules of the calculator name an operation for
every operator; so what is left are a token that starts no expression, a token in the place of a
right parenthesis, and an expression beyond the depth limit.  Each of them is found at a token of
the line, its end included, and so it has a place.

Main definitions:

* `Calculator.startless` — the kinds of token that start no expression;
* `Calculator.Refusal` — the errors that a line can have.

Main results:

* `Calculator.prefixRule?_eq_none_iff` — those are the kinds without a rule in front;
* `Calculator.parse_yields_or_refuses` — **a line has a value or one of these errors**.
-/

import Reckon.Proofs.Evaluation

set_option autoImplicit false
set_option relaxedAutoImplicit false

namespace Reckon

namespace Calculator

/-- The kinds of token that start no expression. -/
def startless : List Kind := [.rightParen, .asterisk, .slash, .caret, .tilde, .bang, .endOfInput]

theorem prefixRule?_eq_none_iff {k : Kind} : grammar.prefixRule? k = none ↔ k ∈ startless := by
  cases k <;> decide

/-- The errors that a line can have when it is read with a depth limit, each at a place: a token
that starts no expression, with its glyph as text, a group that is not closed, or an expression one
level too deep. -/
inductive Refusal (limit : Nat) : ParseError → Prop
  | noPrefix {kind : Kind} {text : String} {span : Span} :
      kind ∈ startless → text.toList = kind.glyph?.toList →
        Refusal limit (.noPrefix kind text (some span))
  | expected {found : Kind} {span : Span} :
      found ≠ .rightParen → Refusal limit (.expected .rightParen found (some span))
  | tooDeep (span : Span) : Refusal limit (.tooDeep limit (some span))

/-- An error about a token of a line. -/
theorem refusal_of_refuses {l : Lexer} {limit : Nat} {e : ParseError}
    (h : Tape.Refuses grammar (Source.line l).endless limit e) : Refusal limit e := by
  have hspan : ∀ n, ∃ span, ((Source.line l).endless n).span = some span :=
    fun n => Option.isSome_iff_exists.1 (Lexer.isSome_span_next (l.after n))
  cases h with
  | @noPrefix i hr =>
      obtain ⟨span, hs⟩ := hspan i
      have hk : ((Source.line l).endless i).kind ≠ .number := by
        intro hk
        rw [hk] at hr
        exact absurd hr (by decide)
      rw [hs]
      exact .noPrefix (prefixRule?_eq_none_iff.1 hr) (Lexer.toList_text_next hk)
  | @expected i hne =>
      obtain ⟨span, hs⟩ := hspan i
      rw [hs]
      exact .expected hne
  | tooDeep i =>
      obtain ⟨span, hs⟩ := hspan i
      rw [hs]
      exact .tooDeep span

variable {α : Type}

/-- **A line has a value or one of three errors.**  Whatever the separator is, a digit, a blank or a
glyph included, and whatever the depth limit: the calculator ends with a value, or at a token that
starts no expression, at one in the place of a right parenthesis, or at the depth limit; and the
place of the token is always known.  So no number of a line fails to be read, no operator of it
stands for no operation, and no rule is refused. -/
theorem parse_yields_or_refuses (A : Arithmetic α) (separator : Char) (line : String)
    (limit : Nat) :
    (∃ a q, parse A separator line limit = .value a q) ∨
      ∃ e q, parse A separator line limit = .failure e q ∧ Refusal limit e := by
  cases hrun : parse A separator line limit with
  | value a q => exact .inl ⟨a, q, rfl⟩
  | failure e q => exact .inr ⟨e, q, rfl, refusal_of_refuses (refuses_of_failure hrun)⟩
  | unfinished => exact absurd hrun (parse_ne_unfinished A separator line limit)

end Calculator

end Reckon

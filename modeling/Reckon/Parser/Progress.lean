/-
**Reading ends when the end of the input is no operator.**

In a grammar that gives the end of the input no rule, every dispatch of the engine consumes a token
that is not an end, and only finitely many of those are still to come.  Hence the bound of
`Parser.parseExpression` is never reached.

Main definitions:

* `Grammar.StopsAtEnd` — the end of the input has no rule in either place;
* `Outcome.Finishes` — a run has ended without making up tokens that were not there.

Main results:

* `Parser.parse_finishes` — how large a bound is large enough;
* `Parser.parseExpression_ne_unfinished` — the bound computed from the input is.
-/

import Reckon.Parser.Climb

set_option autoImplicit false
set_option relaxedAutoImplicit false

namespace Reckon

/-- The end of the input has no rule in either place. -/
structure Grammar.StopsAtEnd (g : Grammar) : Prop where
  prefixRule_eq : g.prefixRule? .endOfInput = none
  infixRule_eq : g.infixRule? .endOfInput = none

namespace Grammar.StopsAtEnd

variable {g : Grammar}

/-- A token with a rule at the start of an expression is not the end. -/
theorem isEnd_of_prefixRule {t : Token} {rule : PrefixRule} (h : g.StopsAtEnd)
    (hr : g.prefixRule? t.kind = some rule) : t.isEnd = false := by
  cases hk : t.isEnd with
  | false => rfl
  | true =>
      rw [Token.isEnd, beq_iff_eq] at hk
      rw [hk, h.prefixRule_eq] at hr
      exact absurd hr (by simp)

/-- A token with a rule behind an expression is not the end. -/
theorem isEnd_of_infixRule {t : Token} {rule : InfixRule} (h : g.StopsAtEnd)
    (hr : g.infixRule? t.kind = some rule) : t.isEnd = false := by
  cases hk : t.isEnd with
  | false => rfl
  | true =>
      rw [Token.isEnd, beq_iff_eq] at hk
      rw [hk, h.infixRule_eq] at hr
      exact absurd hr (by simp)

end Grammar.StopsAtEnd

/-- The run has ended, and behind a value no more tokens than `limit` are to come. -/
def Outcome.Finishes {α : Type} (limit : Nat) (o : Outcome α) : Prop :=
  o ≠ .unfinished ∧ ∀ a p, o = .value a p → p.remaining ≤ limit

namespace Outcome.Finishes

variable {α β : Type} {limit limit' : Nat}

theorem value {a : α} {p : Parser} (h : p.remaining ≤ limit) :
    Finishes limit (Outcome.value a p) := by
  refine ⟨by simp, ?_⟩
  intro b q hq
  cases hq
  exact h

theorem failure (e : ParseError) (p : Parser) :
    Finishes limit (Outcome.failure e p : Outcome α) :=
  ⟨by simp, by intro a q hq; cases hq⟩

theorem ofExcept {r : Except ParseError α} {p : Parser} (h : p.remaining ≤ limit) :
    Finishes limit (Outcome.ofExcept r p) := by
  cases r with
  | ok a => exact value h
  | error e => exact failure e p

theorem andThen {o : Outcome α} {next : α → Parser → Outcome β} (h : Finishes limit o)
    (hn : ∀ a p, p.remaining ≤ limit → Finishes limit' (next a p)) :
    Finishes limit' (o.andThen next) := by
  cases o with
  | value a p => exact hn a p (h.2 a p rfl)
  | failure e p => exact failure e p
  | unfinished => exact absurd rfl h.1

theorem mapLeave {o : Outcome α} (h : Finishes limit o) :
    Finishes limit (o.mapParser Parser.leave) := by
  cases o with
  | value a p => exact value (h.2 a p rfl)
  | failure e p => exact failure e _
  | unfinished => exact absurd rfl h.1

theorem mono {o : Outcome α} (h : Finishes limit o) (hl : limit ≤ limit') : Finishes limit' o :=
  ⟨h.1, fun a p hp => Nat.le_trans (h.2 a p hp) hl⟩

end Outcome.Finishes

open Outcome (Finishes)

theorem Parser.remaining_expect_le (wanted : Kind) (p : Parser) :
    (p.expect wanted).2.remaining ≤ p.remaining := by
  have hpeek := p.remaining_peek_le
  by_cases h : (p.peek 0).1.kind = wanted
  · rw [Parser.expect_of_eq h]
    exact Nat.le_trans (Parser.remaining_consume_le _) hpeek
  · rw [Parser.expect_of_ne h]
    exact hpeek

/-- A rule ends if reading its operands does. -/
theorem PrefixRule.run_finishes {α : Type} {I : Interpretation α}
    {operand : Nat → Parser → Outcome α} {limit : Nat}
    (h : ∀ threshold p, p.remaining ≤ limit → Finishes limit (operand threshold p))
    (rule : PrefixRule) (t : Token) {p : Parser} (hp : p.remaining ≤ limit) :
    Finishes limit (rule.run I operand t p) := by
  cases rule with
  | atom => exact Finishes.ofExcept hp
  | group =>
      refine (h 0 p hp).andThen ?_
      intro inner q hq
      have hle := Parser.remaining_expect_le .rightParen q
      generalize q.expect .rightParen = next at hle
      obtain ⟨r, q'⟩ := next
      cases r with
      | ok closing => exact Finishes.value (Nat.le_trans hle hq)
      | error e => exact Finishes.failure e q'
  | unary threshold => exact (h threshold p hp).andThen (fun _ _ hq => Finishes.ofExcept hq)

/-- A rule ends if reading its operands does. -/
theorem InfixRule.run_finishes {α : Type} {I : Interpretation α}
    {operand : Nat → Parser → Outcome α} {limit : Nat}
    (h : ∀ threshold p, p.remaining ≤ limit → Finishes limit (operand threshold p))
    (rule : InfixRule) (left : α) (t : Token) {p : Parser} (hp : p.remaining ≤ limit) :
    Finishes limit (rule.run I operand left t p) := by
  cases rule with
  | binary prec assoc => exact (h _ p hp).andThen (fun _ _ hq => Finishes.ofExcept hq)
  | postfixed prec => exact Finishes.ofExcept hp

namespace Parser

variable {α : Type} {g : Grammar}

theorem finishes_of_bound (hg : g.StopsAtEnd) (I : Interpretation α) (n : Nat) :
    (∀ limit threshold p, p.remaining ≤ limit → limit + 2 ≤ n →
        Finishes limit (parse g I n threshold p)) ∧
      ∀ limit threshold left p, p.remaining ≤ limit → limit + 2 ≤ n →
        Finishes limit (climb g I n threshold left p) := by
  induction n with
  | zero => exact ⟨fun _ _ _ _ h => absurd h (by omega), fun _ _ _ _ _ h => absurd h (by omega)⟩
  | succ n ih =>
      obtain ⟨ihp, ihc⟩ := ih
      constructor
      · intro limit threshold p hp hn
        rcases Nat.lt_or_ge p.depth p.maxDepth with h | h
        · cases hr : g.prefixRule? p.enter.consume.1.kind with
          | none =>
              rw [parse_of_noPrefix h hr]
              exact Finishes.failure _ _
          | some rule =>
              have hlt := remaining_consume_lt (hg.isEnd_of_prefixRule hr)
              rw [remaining_enter] at hlt
              obtain ⟨m, rfl⟩ : ∃ m, limit = m + 1 := ⟨limit - 1, by omega⟩
              have hrun : Finishes m (rule.run I (parse g I n) p.enter.consume.1
                  p.enter.consume.2.countPrefix) :=
                rule.run_finishes (fun θ q hq => ihp m θ q hq (by omega)) _
                  (by rw [remaining_countPrefix]; omega)
              rw [parse_of_prefixRule h hr]
              exact (hrun.andThen (fun a q hq => ihc m threshold a q hq (by omega))).mapLeave.mono
                (Nat.le_succ m)
        · rw [parse_of_tooDeep h]
          exact Finishes.failure _ _
      · intro limit threshold left p hp hn
        have hpeek : (p.precedence g).2.remaining ≤ p.remaining := p.remaining_peek_le
        rcases Nat.lt_or_ge threshold (p.precedence g).1 with h | h
        · cases hr : g.infixRule? (p.precedence g).2.consume.1.kind with
          | none =>
              rw [climb_of_unknown h hr]
              exact Finishes.failure _ _
          | some rule =>
              have hlt := remaining_consume_lt (hg.isEnd_of_infixRule hr)
              obtain ⟨m, rfl⟩ : ∃ m, limit = m + 1 := ⟨limit - 1, by omega⟩
              have hrun : Finishes m (rule.run I (parse g I n) left (p.precedence g).2.consume.1
                  (p.precedence g).2.consume.2.countInfix) :=
                rule.run_finishes (fun θ q hq => ihp m θ q hq (by omega)) _ _
                  (by rw [remaining_countInfix]; omega)
              rw [climb_of_lt h hr]
              exact (hrun.andThen (fun a q hq => ihc m threshold a q hq (by omega))).mono
                (Nat.le_succ m)
        · rw [climb_of_le h]
          exact Finishes.value (Nat.le_trans hpeek hp)

/-- A bound above the number of tokens to come is large enough for the engine. -/
theorem parse_finishes (hg : g.StopsAtEnd) (I : Interpretation α) {n threshold : Nat} {p : Parser}
    (h : p.remaining + 2 ≤ n) : Finishes p.remaining (parse g I n threshold p) :=
  (finishes_of_bound hg I n).1 p.remaining threshold p (Nat.le_refl _) h

theorem remaining_le_bound (p : Parser) : p.remaining + 2 ≤ p.bound := by
  have h := List.length_filter_le (fun t : Token => !t.isEnd) p.pending
  simp only [remaining, bound]
  omega

/-- The bound computed from the input is large enough. -/
theorem parseExpression_ne_unfinished (hg : g.StopsAtEnd) (I : Interpretation α) (threshold : Nat)
    (p : Parser) : parseExpression g I threshold p ≠ .unfinished :=
  (parse_finishes hg I p.remaining_le_bound).1

end Parser

end Reckon

/-
**Raising the depth limit.**

Two parsers that differ in their depth limits only take the same steps until the one with the lower
limit meets it.  Up to then they are in the same state but for the limit, whatever the table of
rules and the tokens are; from then on the other one only moves forward.  So what a parser yields
without meeting its limit it yields under every higher one, and where it meets the higher limit it
has met the lower one before.

Main definitions:

* `Parser.withLimit` — the parser with another depth limit;
* `Outcome.Beyond` — a run leaves a parser that has consumed at least so many tokens;
* `Outcome.Outlasts` — a run with a higher limit ends as one with a lower limit does, or that one
  has met its limit earlier.

Main results:

* `Parser.parse_beyond` — no run gives tokens back;
* `Parser.parse_outlasts` — **two runs in lock step**, with any bound;
* `Parser.higher_limit_removes_tooDeep` — **a higher limit only removes errors of depth**.
-/

import Reckon.Calculator
import Reckon.Proofs.Bounds
import Reckon.Proofs.Invariants

set_option autoImplicit false
set_option relaxedAutoImplicit false

namespace Reckon

namespace Parser

def withLimit (limit : Nat) (p : Parser) : Parser := { p with maxDepth := limit }

section Steps

variable {limit : Nat} {p : Parser}

@[simp] theorem maxDepth_withLimit : (p.withLimit limit).maxDepth = limit := rfl

@[simp] theorem depth_withLimit : (p.withLimit limit).depth = p.depth := rfl

@[simp] theorem stats_withLimit : (p.withLimit limit).stats = p.stats := rfl

@[simp] theorem pending_withLimit : (p.withLimit limit).pending = p.pending := rfl

@[simp] theorem source_withLimit : (p.withLimit limit).source = p.source := rfl

/-! No step but the start of an expression looks at the limit. -/

@[simp] theorem drawMany_withLimit (n : Nat) :
    drawMany n (p.withLimit limit) = (drawMany n p).withLimit limit := by
  induction n generalizing p with
  | zero => rfl
  | succ n ih => exact ih (p := p.draw)

@[simp] theorem fill_withLimit (count : Nat) :
    (p.withLimit limit).fill count = (p.fill count).withLimit limit := by
  simp only [fill, pending_withLimit, drawMany_withLimit]
  rfl

@[simp] theorem consume_withLimit :
    (p.withLimit limit).consume = (p.consume.1, p.consume.2.withLimit limit) := by
  obtain ⟨t, ts, h⟩ := exists_pending_fill 0 p
  have h' : ((p.withLimit limit).fill 1).pending = t :: ts := by
    rw [fill_withLimit]
    exact h
  rw [consume_eq h, consume_eq h', fill_withLimit]
  rfl

@[simp] theorem peek_withLimit :
    (p.withLimit limit).peek 0 = ((p.peek 0).1, (p.peek 0).2.withLimit limit) := by
  simp only [peek, fill_withLimit]
  rfl

@[simp] theorem precedence_withLimit (g : Grammar) :
    (p.withLimit limit).precedence g =
      ((p.precedence g).1, (p.precedence g).2.withLimit limit) := by
  simp only [precedence, peek_withLimit]

@[simp] theorem expect_withLimit (wanted : Kind) :
    (p.withLimit limit).expect wanted =
      ((p.expect wanted).1, (p.expect wanted).2.withLimit limit) := by
  have hpeek : ((p.withLimit limit).peek 0).1 = (p.peek 0).1 := by rw [peek_withLimit]
  by_cases h : (p.peek 0).1.kind = wanted
  · rw [expect_of_eq h, expect_of_eq (by rwa [hpeek]), peek_withLimit, consume_withLimit]
  · rw [expect_of_ne h, expect_of_ne (by rwa [hpeek]), peek_withLimit]

@[simp] theorem enter_withLimit : (p.withLimit limit).enter = p.enter.withLimit limit := rfl

@[simp] theorem leave_withLimit : (p.withLimit limit).leave = p.leave.withLimit limit := rfl

@[simp] theorem countPrefix_withLimit :
    (p.withLimit limit).countPrefix = p.countPrefix.withLimit limit := rfl

@[simp] theorem countInfix_withLimit :
    (p.withLimit limit).countInfix = p.countInfix.withLimit limit := rfl

end Steps

end Parser

/-! ### Tokens are not given back -/

/-- The parser that is left, if any is, has consumed at least `c` tokens. -/
def Outcome.Beyond {α : Type} (c : Nat) (o : Outcome α) : Prop :=
  o.Leaves fun q => c ≤ q.stats.consumed

open Outcome (Beyond Leaves)

theorem Outcome.Beyond.andThen {α β : Type} {c : Nat} {o : Outcome α}
    {next : α → Parser → Outcome β} (h : Beyond c o)
    (hn : ∀ a q, Beyond q.stats.consumed (next a q)) : Beyond c (o.andThen next) :=
  Leaves.andThen h fun a q hq => (hn a q).mono fun _ hle => Nat.le_trans hq hle

theorem Outcome.Beyond.mapLeave {α : Type} {c : Nat} {o : Outcome α} (h : Beyond c o) :
    Beyond c (o.mapParser Parser.leave) :=
  Leaves.mapParser h fun _ hq => hq

namespace Parser

variable {α : Type}

theorem parse_beyond (g : Grammar) (I : Interpretation α) (n θ : Nat) (p : Parser) :
    Beyond p.stats.consumed (parse g I n θ p) :=
  parse_leaves (kept_consumed _) g I n θ (Nat.le_refl _)

theorem climb_beyond (g : Grammar) (I : Interpretation α) (n θ : Nat) (left : α) (p : Parser) :
    Beyond p.stats.consumed (climb g I n θ left p) :=
  climb_leaves (kept_consumed _) g I n θ left (Nat.le_refl _)

end Parser

/-! ### Lock step -/

/-- The first run has the limit `d`, the second one the limit `d'`.  They end alike, and but for
the limit in the same state; or the first one has met its limit, and the second one has gone at
least as far. -/
inductive Outcome.Outlasts {α : Type} (d d' : Nat) : Outcome α → Outcome α → Prop
  | value {a : α} {q : Parser} :
      Outlasts d d' (.value a (q.withLimit d)) (.value a (q.withLimit d'))
  | failure {e : ParseError} {q : Parser} :
      Outlasts d d' (.failure e (q.withLimit d)) (.failure e (q.withLimit d'))
  | unfinished : Outlasts d d' .unfinished .unfinished
  | tooDeep {span : Option Span} {q : Parser} {o : Outcome α} :
      o.Beyond q.stats.consumed → Outlasts d d' (.failure (.tooDeep d span) q) o

namespace Outcome.Outlasts

variable {α β : Type} {d d' : Nat} {o o' : Outcome α}

theorem ofExcept (r : Except ParseError α) (q : Parser) :
    Outlasts d d' (.ofExcept r (q.withLimit d)) (.ofExcept r (q.withLimit d')) := by
  cases r with
  | ok a => exact .value
  | error e => exact .failure

theorem andThen {next next' : α → Parser → Outcome β} (h : Outlasts d d' o o')
    (hbeyond : ∀ a q, Beyond q.stats.consumed (next' a q))
    (hn : ∀ a (q : Parser), Outlasts d d' (next a (q.withLimit d)) (next' a (q.withLimit d'))) :
    Outlasts d d' (o.andThen next) (o'.andThen next') := by
  cases h with
  | value => exact hn _ _
  | failure => exact .failure
  | unfinished => exact .unfinished
  | tooDeep hq => exact .tooDeep (hq.andThen hbeyond)

theorem mapLeave (h : Outlasts d d' o o') :
    Outlasts d d' (o.mapParser Parser.leave) (o'.mapParser Parser.leave) := by
  cases h with
  | value => exact .value (q := Parser.leave _)
  | failure => exact .failure (q := Parser.leave _)
  | unfinished => exact .unfinished
  | @tooDeep span q _ hq => exact .tooDeep (q := q.leave) hq.mapLeave

/-- A run that has ended before its limit ends alike under a higher limit. -/
theorem eq_mapParser (h : Outlasts d d' o o') (hd : ¬ o.IsTooDeep) :
    o' = o.mapParser (Parser.withLimit d') := by
  cases h with
  | value => rfl
  | failure => rfl
  | unfinished => rfl
  | tooDeep _ => exact absurd ⟨_, _, _, rfl⟩ hd

/-- A run that has met its limit has met every lower limit, and no later. -/
theorem exists_tooDeep {limit : Nat} {span : Option Span} {q : Parser}
    (h : Outlasts d d' o (.failure (.tooDeep limit span) q)) :
    ∃ limit' span' q', o = .failure (.tooDeep limit' span') q' ∧
      q'.stats.consumed ≤ q.stats.consumed := by
  cases h with
  | failure => exact ⟨_, _, _, rfl, Nat.le_refl _⟩
  | tooDeep hq => exact ⟨_, _, _, rfl, hq q rfl⟩

end Outcome.Outlasts

open Outcome (Outlasts)

section Rules

variable {α : Type} {I : Interpretation α} {d d' : Nat}
  {operand operand' : Nat → Parser → Outcome α}

theorem PrefixRule.run_outlasts (rule : PrefixRule)
    (h : ∀ θ (q : Parser),
      Outlasts d d' (operand θ (q.withLimit d)) (operand' θ (q.withLimit d')))
    (t : Token) (p : Parser) :
    Outlasts d d' (rule.run I operand t (p.withLimit d))
      (rule.run I operand' t (p.withLimit d')) := by
  cases rule with
  | atom => exact .ofExcept _ p
  | group =>
      refine (h 0 p).andThen (fun inner q =>
        close_leaves t inner ((Parser.kept_consumed _).expect _ (Nat.le_refl _))) ?_
      intro inner q
      simp only [Parser.expect_withLimit]
      cases (q.expect .rightParen).1 with
      | ok closing => exact .value
      | error e => exact .failure
  | unary m =>
      exact (h m p).andThen (fun _ _ => Leaves.ofExcept _ (Nat.le_refl _))
        (fun _ q => .ofExcept _ q)

theorem InfixRule.run_outlasts (rule : InfixRule)
    (h : ∀ θ (q : Parser),
      Outlasts d d' (operand θ (q.withLimit d)) (operand' θ (q.withLimit d')))
    (left : α) (t : Token) (p : Parser) :
    Outlasts d d' (rule.run I operand left t (p.withLimit d))
      (rule.run I operand' left t (p.withLimit d')) := by
  cases rule with
  | binary prec assoc =>
      exact (h _ p).andThen (fun _ _ => Leaves.ofExcept _ (Nat.le_refl _))
        (fun _ q => .ofExcept _ q)
  | postfixed prec => exact .ofExcept _ p

end Rules

namespace Parser

variable {α : Type} {d d' : Nat}

/-- The limit is looked at only where an expression starts.  The run with the lower limit either
goes on there with the other one, or has met its limit. -/
theorem outlasts_of_bound (g : Grammar) (I : Interpretation α) (h : d ≤ d') (n : Nat) :
    (∀ θ (p : Parser),
        Outlasts d d' (parse g I n θ (p.withLimit d)) (parse g I n θ (p.withLimit d'))) ∧
      ∀ θ left (p : Parser), Outlasts d d' (climb g I n θ left (p.withLimit d))
        (climb g I n θ left (p.withLimit d')) := by
  induction n with
  | zero => exact ⟨fun _ _ => .unfinished, fun _ _ _ => .unfinished⟩
  | succ n ih =>
      obtain ⟨ihp, ihc⟩ := ih
      constructor
      · intro θ p
        rcases Nat.lt_or_ge p.depth d with hd | hd
        · have hd' : p.depth < d' := Nat.lt_of_lt_of_le hd h
          cases hr : g.prefixRule? p.enter.consume.1.kind with
          | none =>
              have hr₁ : g.prefixRule? (p.withLimit d).enter.consume.1.kind = none := by
                simpa using hr
              have hr₂ : g.prefixRule? (p.withLimit d').enter.consume.1.kind = none := by
                simpa using hr
              rw [parse_of_noPrefix hd hr₁, parse_of_noPrefix hd' hr₂]
              simp only [enter_withLimit, consume_withLimit, leave_withLimit]
              exact .failure
          | some rule =>
              have hr₁ : g.prefixRule? (p.withLimit d).enter.consume.1.kind = some rule := by
                simpa using hr
              have hr₂ : g.prefixRule? (p.withLimit d').enter.consume.1.kind = some rule := by
                simpa using hr
              rw [parse_of_prefixRule hd hr₁, parse_of_prefixRule hd' hr₂]
              simp only [enter_withLimit, consume_withLimit, countPrefix_withLimit]
              have hrule := rule.run_outlasts (I := I) ihp p.enter.consume.1
                p.enter.consume.2.countPrefix
              exact (hrule.andThen (climb_beyond g I n θ) (ihc θ)).mapLeave
        · rw [parse_of_tooDeep (show (p.withLimit d).maxDepth ≤ (p.withLimit d).depth from hd)]
          refine .tooDeep ?_
          have hbeyond := parse_beyond g I (n + 1) θ (p.withLimit d')
          rwa [consumed_peek]
      · intro θ left p
        rcases Nat.lt_or_ge θ (p.precedence g).1 with hlt | hle
        · have hlt₁ : θ < ((p.withLimit d).precedence g).1 := by simpa using hlt
          have hlt₂ : θ < ((p.withLimit d').precedence g).1 := by simpa using hlt
          cases hr : g.infixRule? (p.precedence g).2.consume.1.kind with
          | none =>
              rw [climb_of_unknown hlt₁ (by simpa using hr),
                climb_of_unknown hlt₂ (by simpa using hr)]
              simp only [precedence_withLimit, consume_withLimit]
              exact .failure
          | some rule =>
              rw [climb_of_lt hlt₁ (by simpa using hr), climb_of_lt hlt₂ (by simpa using hr)]
              simp only [precedence_withLimit, consume_withLimit, countInfix_withLimit]
              have hrule := rule.run_outlasts (I := I) ihp left (p.precedence g).2.consume.1
                (p.precedence g).2.consume.2.countInfix
              exact hrule.andThen (climb_beyond g I n θ) (ihc θ)
        · rw [climb_of_le (by simpa using hle), climb_of_le (by simpa using hle)]
          simp only [precedence_withLimit]
          exact .value

/-- Two runs that differ in the limit only, with any bound. -/
theorem parse_outlasts (g : Grammar) (I : Interpretation α) (h : d ≤ d') (n θ : Nat)
    (p : Parser) :
    Outlasts d d' (parse g I n θ (p.withLimit d)) (parse g I n θ (p.withLimit d')) :=
  (outlasts_of_bound g I h n).1 θ p

/-- **A higher limit only removes errors of depth.**  Whatever the table of rules, the tokens, the
threshold and the state of the parser are: if its run under the limit `d` ends with a value, or with
an error other than that of depth, then under every higher limit `d'` it ends with the same value
or error, and leaves the same parser but for the limit, all counters and tokens to come included.
And if the run under `d'` stops at the limit, then so does the one under `d`, and it has consumed
no more tokens; for this the operations of the rules must not report errors of depth themselves. -/
theorem higher_limit_removes_tooDeep (g : Grammar) (I : Interpretation α) (θ : Nat) (p : Parser)
    (h : d ≤ d') :
    ((p.withLimit d).parseExpression g I θ ≠ .unfinished →
      ¬ ((p.withLimit d).parseExpression g I θ).IsTooDeep →
        (p.withLimit d').parseExpression g I θ =
          ((p.withLimit d).parseExpression g I θ).mapParser (withLimit d')) ∧
    (I.Sincere → ∀ limit span q,
      (p.withLimit d').parseExpression g I θ = .failure (.tooDeep limit span) q →
        ∃ limit' span' q',
          (p.withLimit d).parseExpression g I θ = .failure (.tooDeep limit' span') q' ∧
            q'.stats.consumed ≤ q.stats.consumed) := by
  have hlock := parse_outlasts g I h (p.withLimit d').bound θ p
  constructor
  · intro hfinished hdeep
    have hbound : (p.withLimit d).bound ≤ (p.withLimit d').bound := by
      simp only [bound, maxDepth_withLimit, pending_withLimit, source_withLimit]
      omega
    rw [parse_stable hbound hfinished] at hlock
    exact hlock.eq_mapParser hdeep
  · intro hI limit span q hq
    rw [parseExpression] at hq
    rw [hq] at hlock
    obtain ⟨limit', span', q', hq', hle⟩ := hlock.exists_tooDeep
    exact ⟨limit', span', q', parseExpression_eq_of_tooDeep hI hq', hle⟩

theorem higher_limit_removes_tooDeep_nested :
    (1 ≤ 2 ∧ Arithmetic.float.interpretation.Sincere) ∧
    (Calculator.parse Arithmetic.float '.' "2)" 1 ≠ .unfinished ∧
      ¬ (Calculator.parse Arithmetic.float '.' "2)" 1).IsTooDeep ∧
        Calculator.parse Arithmetic.float '.' "2)" 2 =
          (Calculator.parse Arithmetic.float '.' "2)" 1).mapParser (withLimit 2)) ∧
    ∃ q, Calculator.parse Arithmetic.float '.' "((2))" 2 =
        .failure (.tooDeep 2 (some ⟨2, 3⟩)) q ∧
      ∃ limit' span' q', Calculator.parse Arithmetic.float '.' "((2))" 1 =
          .failure (.tooDeep limit' span') q' ∧ q'.stats.consumed ≤ q.stats.consumed := by
  have hI := Arithmetic.float.interpretation_sincere
  have hvalue : ∃ a q, Calculator.parse Arithmetic.float '.' "2)" 1 = .value a q := ⟨_, _, rfl⟩
  have hfinished : Calculator.parse Arithmetic.float '.' "2)" 1 ≠ .unfinished := by
    obtain ⟨a, q, hq⟩ := hvalue
    simp [hq]
  have hdeep : ¬ (Calculator.parse Arithmetic.float '.' "2)" 1).IsTooDeep := by
    obtain ⟨a, q, hq⟩ := hvalue
    rw [hq]
    exact Outcome.not_isTooDeep_of_result rfl
  have hnested : ∃ q, Calculator.parse Arithmetic.float '.' "((2))" 2 =
      .failure (.tooDeep 2 (some ⟨2, 3⟩)) q := ⟨_, rfl⟩
  obtain ⟨q, hq⟩ := hnested
  refine ⟨⟨by decide, hI⟩, ⟨hfinished, hdeep, ?_⟩, q, hq, ?_⟩
  · exact (higher_limit_removes_tooDeep Calculator.grammar Arithmetic.float.interpretation 0
      (Calculator.parser '.' "2)" 0) (by decide : 1 ≤ 2)).1 hfinished hdeep
  · exact (higher_limit_removes_tooDeep Calculator.grammar Arithmetic.float.interpretation 0
      (Calculator.parser '.' "((2))" 0) (by decide : 1 ≤ 2)).2 hI 2 _ q hq

end Parser

end Reckon

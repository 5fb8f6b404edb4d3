/-
**What no step of the engine changes.**

All that the engine does to a parser is to look at the next token, to consume it, to count a use of
a rule for it, and to go one level deeper or back.  A property that each of these steps keeps holds
of the parser that any run leaves, behind an error as well as behind a value, if it held of the one
that the run has started with.

The counters are told by such properties.  The tokens that have been drawn are those that have been
consumed and those that are pending, and as the engine never looks further than to the next token,
at most one token is pending at a time.

Main definitions:

* `Outcome.Leaves` — a run leaves a parser with a property;
* `Parser.Kept` — the property is kept by every step of the engine;
* `Parser.Balanced`, `Parser.Narrow` — drawn tokens are consumed or pending; at most one token has
  been pending at once.

Main results:

* `Parser.parse_leaves`, `Parser.climb_leaves` — **what every step keeps, every run keeps**;
* `Parser.stats_fill`, `Parser.stats_consume` — what the steps do to the counters;
* `Parser.kept_balanced`, `Parser.kept_narrow`, `Parser.kept_drawn`, `Parser.kept_consumed` — the
  properties of the counters.
-/

import Reckon.Proofs.Refinement

set_option autoImplicit false
set_option relaxedAutoImplicit false

namespace Reckon

/-! ### The parser that is left -/

/-- The parser that is left, if any is, has the property. -/
def Outcome.Leaves {α : Type} (P : Parser → Prop) (o : Outcome α) : Prop :=
  ∀ q, o.parser? = some q → P q

namespace Outcome.Leaves

variable {α β : Type} {P P' : Parser → Prop} {o : Outcome α}

theorem value {a : α} {q : Parser} (h : P q) : Leaves P (.value a q) := by
  rintro q' ⟨⟩
  exact h

theorem failure {e : ParseError} {q : Parser} (h : P q) : Leaves P (.failure e q : Outcome α) := by
  rintro q' ⟨⟩
  exact h

theorem unfinished : Leaves P (.unfinished : Outcome α) := by
  rintro q' ⟨⟩

theorem ofExcept (r : Except ParseError α) {q : Parser} (h : P q) : Leaves P (.ofExcept r q) := by
  cases r with
  | ok a => exact value h
  | error e => exact failure h

theorem mono (h : Leaves P o) (hP : ∀ q, P q → P' q) : Leaves P' o := fun q hq => hP q (h q hq)

theorem andThen {next : α → Parser → Outcome β} (h : Leaves P o)
    (hn : ∀ a q, P q → Leaves P (next a q)) : Leaves P (o.andThen next) := by
  cases o with
  | value a q => exact hn a q (h q rfl)
  | failure e q => exact failure (h q rfl)
  | unfinished => exact unfinished

theorem mapParser {f : Parser → Parser} (h : Leaves P o) (hf : ∀ q, P q → P' (f q)) :
    Leaves P' (o.mapParser f) := by
  cases o with
  | value a q => exact value (hf q (h q rfl))
  | failure e q => exact failure (hf q (h q rfl))
  | unfinished => exact unfinished

end Outcome.Leaves

open Outcome (Leaves)

/-! ### Properties that every step keeps -/

/-- Every step of the engine keeps the property.  A use of a rule is counted together with the
token that it is used for. -/
structure Parser.Kept (P : Parser → Prop) : Prop where
  peek : ∀ p, P p → P (p.peek 0).2
  consume : ∀ p, P p → P p.consume.2
  countPrefix : ∀ p, P p → P p.consume.2.countPrefix
  countInfix : ∀ p, P p → P p.consume.2.countInfix
  enter : ∀ p, P p → P p.enter
  leave : ∀ p, P p → P p.leave

theorem Parser.Kept.expect {P : Parser → Prop} (hP : Kept P) (wanted : Kind) {p : Parser}
    (hp : P p) : P (p.expect wanted).2 := by
  by_cases h : (p.peek 0).1.kind = wanted
  · rw [expect_of_eq h]
    exact hP.consume _ (hP.peek p hp)
  · rw [expect_of_ne h]
    exact hP.peek p hp

theorem Parser.Kept.accept {P : Parser → Prop} (hP : Kept P) (wanted : Kind) {p : Parser}
    (hp : P p) : P (p.accept wanted).2 := by
  by_cases h : (p.peek 0).1.kind = wanted
  · rw [accept_of_eq h]
    exact hP.consume _ (hP.peek p hp)
  · rw [accept_of_ne h]
    exact hP.peek p hp

section Rules

variable {α : Type} {I : Interpretation α} {operand : Nat → Parser → Outcome α}
  {P : Parser → Prop} {p : Parser}

/-- What a group does behind the expression inside is to ask for a right parenthesis. -/
theorem PrefixRule.close_leaves (opening : Token) (inner : α)
    (h : P (p.expect .rightParen).2) :
    Leaves P (match p.expect .rightParen with
      | (.ok closing, q) => .value (I.group opening inner closing) q
      | (.error e, q) => .failure e q) := by
  generalize p.expect .rightParen = next at h
  obtain ⟨r, q⟩ := next
  cases r with
  | ok closing => exact .value h
  | error e => exact .failure h

theorem PrefixRule.run_leaves (hP : Parser.Kept P) (rule : PrefixRule)
    (h : ∀ θ q, P q → Leaves P (operand θ q)) (t : Token) (hp : P p) :
    Leaves P (rule.run I operand t p) := by
  cases rule with
  | atom => exact .ofExcept _ hp
  | group => exact (h 0 p hp).andThen (fun inner _ hq => close_leaves t inner (hP.expect _ hq))
  | unary m => exact (h m p hp).andThen (fun _ _ hq => .ofExcept _ hq)

theorem InfixRule.run_leaves (rule : InfixRule) (h : ∀ θ q, P q → Leaves P (operand θ q))
    (left : α) (t : Token) (hp : P p) : Leaves P (rule.run I operand left t p) := by
  cases rule with
  | binary prec assoc => exact (h _ p hp).andThen (fun _ _ hq => .ofExcept _ hq)
  | postfixed prec => exact .ofExcept _ hp

end Rules

namespace Parser

variable {α : Type} {P : Parser → Prop}

theorem leaves_of_bound (hP : Kept P) (g : Grammar) (I : Interpretation α) (n : Nat) :
    (∀ θ p, P p → Leaves P (parse g I n θ p)) ∧
      ∀ θ left p, P p → Leaves P (climb g I n θ left p) := by
  induction n with
  | zero => exact ⟨fun _ _ _ => .unfinished, fun _ _ _ _ => .unfinished⟩
  | succ n ih =>
      obtain ⟨ihp, ihc⟩ := ih
      constructor
      · intro θ p hp
        rcases Nat.lt_or_ge p.depth p.maxDepth with h | h
        · have henter := hP.enter p hp
          cases hr : g.prefixRule? p.enter.consume.1.kind with
          | none =>
              rw [parse_of_noPrefix h hr]
              exact .failure (hP.leave _ (hP.consume _ henter))
          | some rule =>
              rw [parse_of_prefixRule h hr]
              exact ((rule.run_leaves hP ihp _ (hP.countPrefix _ henter)).andThen
                (ihc θ)).mapParser hP.leave
        · rw [parse_of_tooDeep h]
          exact .failure (hP.peek p hp)
      · intro θ left p hp
        have hnext : P (p.precedence g).2 := hP.peek p hp
        rcases Nat.lt_or_ge θ (p.precedence g).1 with h | h
        · cases hr : g.infixRule? (p.precedence g).2.consume.1.kind with
          | none =>
              rw [climb_of_unknown h hr]
              exact .failure (hP.consume _ hnext)
          | some rule =>
              rw [climb_of_lt h hr]
              exact (rule.run_leaves ihp left _ (hP.countInfix _ hnext)).andThen (ihc θ)
        · rw [climb_of_le h]
          exact .value hnext

/-- What every step keeps, every run keeps. -/
theorem parse_leaves (hP : Kept P) (g : Grammar) (I : Interpretation α) (n θ : Nat) {p : Parser}
    (hp : P p) : Leaves P (parse g I n θ p) :=
  (leaves_of_bound hP g I n).1 θ p hp

/-- So does the loop. -/
theorem climb_leaves (hP : Kept P) (g : Grammar) (I : Interpretation α) (n θ : Nat) (left : α)
    {p : Parser} (hp : P p) : Leaves P (climb g I n θ left p) :=
  (leaves_of_bound hP g I n).2 θ left p hp

/-! ### The counters -/

theorem stats_drawMany (n : Nat) (p : Parser) :
    (drawMany n p).stats = { p.stats with drawn := p.stats.drawn + n } := by
  induction n generalizing p with
  | zero => rfl
  | succ n ih =>
      rw [drawMany, ih]
      simp only [draw, Stats.mk.injEq, and_true]
      omega

/-- Filling draws what is missing, and notes how many tokens are pending then. -/
theorem stats_fill (count : Nat) (p : Parser) :
    (p.fill count).stats = { p.stats with
      drawn := p.stats.drawn + (count - p.pending.length)
      widest := max p.stats.widest (max p.pending.length count) } := by
  have hlen := length_pending_fill count p
  simp only [fill, stats_drawMany] at hlen ⊢
  rw [hlen]

theorem stats_peek (distance : Nat) (p : Parser) (h : InReach distance) :
    (p.peek distance h).2.stats = (p.fill (distance + 1)).stats := rfl

theorem length_pending_peek (distance : Nat) (p : Parser) (h : InReach distance) :
    (p.peek distance h).2.pending.length = max p.pending.length (distance + 1) :=
  length_pending_fill (distance + 1) p

/-- Consuming fills first. -/
theorem stats_consume (p : Parser) :
    p.consume.2.stats =
      { (p.fill 1).stats with consumed := (p.fill 1).stats.consumed + 1 } := by
  obtain ⟨t, ts, h⟩ := exists_pending_fill 0 p
  rw [consume_eq h]

theorem length_pending_consume (p : Parser) :
    p.consume.2.pending.length = max p.pending.length 1 - 1 := by
  obtain ⟨t, ts, h⟩ := exists_pending_fill 0 p
  have hlen := length_pending_fill 1 p
  rw [h, List.length_cons] at hlen
  rw [consume_eq h]
  exact Nat.eq_sub_of_add_eq hlen

/-- Every token that has been drawn has been consumed or is pending. -/
def Balanced (p : Parser) : Prop := p.stats.drawn = p.stats.consumed + p.pending.length

/-- At most one token is pending, and never have more been. -/
structure Narrow (p : Parser) : Prop where
  pending_le : p.pending.length ≤ p.stats.widest
  widest_le : p.stats.widest ≤ 1

theorem Balanced.peek {p : Parser} (h : p.Balanced) : (p.peek 0).2.Balanced := by
  rw [Balanced] at h ⊢
  rw [length_pending_peek, stats_peek, stats_fill]
  simp only
  omega

theorem Balanced.consume {p : Parser} (h : p.Balanced) : p.consume.2.Balanced := by
  rw [Balanced] at h ⊢
  rw [length_pending_consume, stats_consume, stats_fill]
  simp only
  omega

theorem kept_balanced : Kept Balanced where
  peek _ h := h.peek
  consume _ h := h.consume
  countPrefix _ h := h.consume
  countInfix _ h := h.consume
  enter _ h := h
  leave _ h := h

theorem Narrow.peek {p : Parser} (h : p.Narrow) : (p.peek 0).2.Narrow := by
  have hpending := h.pending_le
  have hwidest := h.widest_le
  constructor <;> simp only [length_pending_peek, stats_peek, stats_fill] <;> omega

theorem Narrow.consume {p : Parser} (h : p.Narrow) : p.consume.2.Narrow := by
  have hpending := h.pending_le
  have hwidest := h.widest_le
  constructor <;> simp only [length_pending_consume, stats_consume, stats_fill] <;> omega

theorem kept_narrow : Kept Narrow where
  peek _ h := h.peek
  consume _ h := h.consume
  countPrefix _ h := ⟨h.consume.pending_le, h.consume.widest_le⟩
  countInfix _ h := ⟨h.consume.pending_le, h.consume.widest_le⟩
  enter _ h := ⟨h.pending_le, h.widest_le⟩
  leave _ h := ⟨h.pending_le, h.widest_le⟩

theorem drawn_le_peek (p : Parser) : p.stats.drawn ≤ (p.peek 0).2.stats.drawn := by
  rw [stats_peek, stats_fill]
  exact Nat.le_add_right _ _

theorem drawn_le_consume (p : Parser) : p.stats.drawn ≤ p.consume.2.stats.drawn := by
  rw [stats_consume, stats_fill]
  exact Nat.le_add_right _ _

/-- No token that has been drawn is put back. -/
theorem kept_drawn (k : Nat) : Kept fun p => k ≤ p.stats.drawn where
  peek p h := Nat.le_trans h p.drawn_le_peek
  consume p h := Nat.le_trans h p.drawn_le_consume
  countPrefix p h := Nat.le_trans h p.drawn_le_consume
  countInfix p h := Nat.le_trans h p.drawn_le_consume
  enter _ h := h
  leave _ h := h

theorem consumed_le_consume (p : Parser) : p.stats.consumed ≤ p.consume.2.stats.consumed := by
  rw [consumed_consume]
  exact Nat.le_succ _

/-- No token that has been consumed is given back. -/
theorem kept_consumed (c : Nat) : Kept fun p => c ≤ p.stats.consumed where
  peek p h := by rwa [consumed_peek]
  consume p h := Nat.le_trans h p.consumed_le_consume
  countPrefix p h := Nat.le_trans h p.consumed_le_consume
  countInfix p h := Nat.le_trans h p.consumed_le_consume
  enter _ h := h
  leave _ h := h

end Parser

end Reckon

/-
**Reading above a lower threshold.**

The threshold of a run only says where its loop stops: the operands in front of that place are read
in the same way, whatever the threshold is.  So a run above a lower threshold is the run above a
higher one, and behind its value the loop goes on: where the higher threshold fails or never ends,
so does the lower one, and where it stops, the lower one has still to read what binds between the
two.  If nothing does, the runs are the same.

The loop stops only after it has looked at the next token, and so it can be taken up again where it
has stopped without a trace in the counters.

Main definitions:

* `Parser.Rests` — the next token has been looked at and does not bind tighter than a threshold.

Main results:

* `Parser.climb_lowered`, `Parser.parse_lowered` — **the run above a lower threshold is the run
  above a higher one, continued**;
* `Parser.climb_rests`, `Parser.parse_rests` — where a run with a value stops;
* `Parser.lower_threshold_extends` — errors, values and consumed tokens under two thresholds.
-/

import Reckon.Proofs.HigherLimit
import Reckon.Proofs.Precedence

set_option autoImplicit false
set_option relaxedAutoImplicit false

namespace Reckon

/-! ### Going on behind a value -/

namespace Outcome

variable {α β : Type}

/-- What goes on behind each value goes on behind the whole, with a bound that the value decides. -/
theorem exists_andThen_andThen {next next' : α → Parser → Outcome β}
    {more : Nat → β → Parser → Outcome β}
    (h : ∀ a q, ∃ k, next a q = (next' a q).andThen (more k)) (o : Outcome α) :
    ∃ k, o.andThen next = (o.andThen next').andThen (more k) := by
  cases o with
  | value a q => exact h a q
  | failure e q => exact ⟨0, rfl⟩
  | unfinished => exact ⟨0, rfl⟩

end Outcome

namespace Parser

/-! ### Looking twice -/

/-- Where enough tokens are pending, and have been counted, filling changes nothing. -/
theorem fill_eq_self {count : Nat} {p : Parser} (hlen : count ≤ p.pending.length)
    (hwidest : p.pending.length ≤ p.stats.widest) : p.fill count = p := by
  rw [fill, Nat.sub_eq_zero_of_le hlen, drawMany, Nat.max_eq_left hwidest]

theorem length_pending_fill_le_widest (count : Nat) (p : Parser) :
    (p.fill count).pending.length ≤ (p.fill count).stats.widest := by
  rw [length_pending_fill, stats_fill]
  exact Nat.le_max_right _ _

@[simp] theorem fill_fill (count : Nat) (p : Parser) :
    (p.fill count).fill count = p.fill count := by
  refine fill_eq_self ?_ (length_pending_fill_le_widest count p)
  rw [length_pending_fill]
  exact Nat.le_max_right _ _

@[simp] theorem peek_peek (p : Parser) : (p.peek 0).2.peek 0 = p.peek 0 := by
  simp [peek]

@[simp] theorem precedence_precedence (g : Grammar) (p : Parser) :
    (p.precedence g).2.precedence g = p.precedence g := by
  simp [precedence]

/-! ### Where the loop stops -/

/-- The next token has been drawn and counted, and does not bind tighter than the threshold. -/
structure Rests (g : Grammar) (θ : Nat) (p : Parser) : Prop where
  precedence_le : g.precedenceOf (p.stream 0).kind ≤ θ
  pending_pos : 1 ≤ p.pending.length
  pending_le : p.pending.length ≤ p.stats.widest

section Rests

variable {α : Type} {g : Grammar} {I : Interpretation α} {n θ : Nat} {p q : Parser} {left a : α}

theorem Rests.leave (h : p.Rests g θ) : p.leave.Rests g θ :=
  ⟨h.precedence_le, h.pending_pos, h.pending_le⟩

/-- Looking at the next token once more changes nothing. -/
theorem Rests.precedence_snd (h : p.Rests g θ) : (p.precedence g).2 = p :=
  fill_eq_self h.pending_pos h.pending_le

theorem rests_precedence (h : (p.precedence g).1 ≤ θ) : (p.precedence g).2.Rests g θ := by
  constructor
  · rwa [stream_precedence, ← precedence_fst]
  · rw [Parser.precedence, length_pending_peek]
    exact Nat.le_max_right _ _
  · exact length_pending_fill_le_widest 1 p

theorem enter_leave (h : 0 < p.depth) : p.leave.enter = p := by
  rw [Parser.leave, Parser.enter, Nat.sub_add_cancel h]

/-- The loop has nothing to do where it has stopped, or would stop, before. -/
theorem Rests.climb_eq (h : p.Rests g θ) : climb g I (n + 1) θ left p = .value left p := by
  have hle : (p.precedence g).1 ≤ θ := by
    rw [precedence_fst]
    exact h.precedence_le
  rw [climb_of_le hle, h.precedence_snd]

/-- The loop may find the next token looked at. -/
theorem climb_precedence :
    climb g I (n + 1) θ left (p.precedence g).2 = climb g I (n + 1) θ left p := by
  rw [climb, climb, precedence_precedence]

/-- With a value the loop stops at a token that does not bind tighter. -/
theorem climb_rests (h : climb g I n θ left p = .value a q) : q.Rests g θ := by
  induction n generalizing left p with
  | zero => cases h
  | succ n ih =>
      rcases Nat.lt_or_ge θ (p.precedence g).1 with hlt | hle
      · cases hr : g.infixRule? (p.precedence g).2.consume.1.kind with
        | none =>
            rw [climb_of_unknown hlt hr] at h
            cases h
        | some rule =>
            rw [climb_of_lt hlt hr] at h
            obtain ⟨b, r, -, hb⟩ := Outcome.andThen_eq_value h
            exact ih hb
      · rw [climb_of_le hle] at h
        cases h
        exact rests_precedence hle

/-- So does a whole run. -/
theorem parse_rests (h : parse g I n θ p = .value a q) : q.Rests g θ := by
  cases n with
  | zero => cases h
  | succ n =>
      rcases Nat.lt_or_ge p.depth p.maxDepth with hlt | hge
      · cases hr : g.prefixRule? p.enter.consume.1.kind with
        | none =>
            rw [parse_of_noPrefix hlt hr] at h
            cases h
        | some rule =>
            rw [parse_of_prefixRule hlt hr] at h
            obtain ⟨r, hbody, rfl⟩ := Outcome.mapParser_eq_value h
            obtain ⟨b, s, -, hclimb⟩ := Outcome.andThen_eq_value hbody
            exact (climb_rests hclimb).leave
      · rw [parse_of_tooDeep hge] at h
        cases h

end Rests

/-! ### One run as the continuation of another -/

section Lowered

variable {α : Type} {m m' : Nat}

/-- Above the lower threshold the loop does what it does above the higher one, and goes on behind
the value that it has then. -/
theorem climb_lowered (g : Grammar) (I : Interpretation α) (hm : m ≤ m') (n : Nat) (left : α)
    (p : Parser) :
    ∃ k, climb g I n m left p = (climb g I n m' left p).andThen (climb g I (k + 1) m) := by
  induction n generalizing left p with
  | zero => exact ⟨0, rfl⟩
  | succ n ih =>
      rcases Nat.lt_or_ge m' (p.precedence g).1 with hlt | hle
      · have hlt' : m < (p.precedence g).1 := Nat.lt_of_le_of_lt hm hlt
        cases hr : g.infixRule? (p.precedence g).2.consume.1.kind with
        | none =>
            rw [climb_of_unknown hlt hr, climb_of_unknown hlt' hr]
            exact ⟨0, rfl⟩
        | some rule =>
            -- both loops apply the rule; what differs is how they go on behind its value
            rw [climb_of_lt hlt hr, climb_of_lt hlt' hr]
            exact Outcome.exists_andThen_andThen ih _
      · refine ⟨n, ?_⟩
        rw [climb_of_le hle, Outcome.andThen_value, climb_precedence]

/-- What follows the first token leaves a value one level deeper than the run has started. -/
theorem depth_of_body {g : Grammar} {I : Interpretation α} {n θ : Nat} {p q : Parser}
    {rule : PrefixRule} {a : α}
    (h : (rule.run I (parse g I n) p.enter.consume.1 p.enter.consume.2.countPrefix).andThen
      (climb g I n θ) = .value a q) : q.depth = p.depth + 1 := by
  have hp := p.enter.follows_tape
  obtain ⟨hparse, hclimb⟩ := landsOn_of_bound g I p.enter.tape p.enter.maxDepth n
  have hrun := rule.run_landsOn (I := I) (fun θ j q hq => hparse p.enter.depth θ j q hq)
    hp.consume.countPrefix
  have hbody := hrun.andThen fun a q j hq => hclimb p.enter.depth θ a j q hq
  rw [← hp.consume_fst, h] at hbody
  obtain ⟨j, -, hq⟩ := hbody.exists_place
  exact hq.depth_eq

/-- **The run above a lower threshold is the run above a higher one, continued.**  Where the higher
threshold ends with an error or never, the lower one ends so too; behind its value the loop goes on
one level deeper. -/
theorem parse_lowered (g : Grammar) (I : Interpretation α) (hm : m ≤ m') (n : Nat) (p : Parser) :
    ∃ k, parse g I n m p = (parse g I n m' p).andThen fun a q =>
      (climb g I (k + 1) m a q.enter).mapParser leave := by
  cases n with
  | zero => exact ⟨0, rfl⟩
  | succ n =>
      rcases Nat.lt_or_ge p.depth p.maxDepth with h | h
      · cases hr : g.prefixRule? p.enter.consume.1.kind with
        | none =>
            rw [parse_of_noPrefix h hr, parse_of_noPrefix h hr]
            exact ⟨0, rfl⟩
        | some rule =>
            rw [parse_of_prefixRule h hr, parse_of_prefixRule h hr]
            obtain ⟨k, hk⟩ := Outcome.exists_andThen_andThen (climb_lowered g I hm n)
              (rule.run I (parse g I n) p.enter.consume.1 p.enter.consume.2.countPrefix)
            refine ⟨k, ?_⟩
            rw [hk]
            cases hbody : (rule.run I (parse g I n) p.enter.consume.1
                p.enter.consume.2.countPrefix).andThen (climb g I n m') with
            | value a q =>
                have hpos : 0 < q.depth := by
                  rw [depth_of_body hbody]
                  exact Nat.succ_pos _
                rw [Outcome.andThen_value, Outcome.mapParser_value, Outcome.andThen_value,
                  enter_leave hpos]
            | failure e q => rfl
            | unfinished => rfl
      · rw [parse_of_tooDeep h, parse_of_tooDeep h]
        exact ⟨0, rfl⟩

end Lowered

/-! ### Errors, values and consumed tokens -/

/-- Of two states behind `p`, the one that has consumed less has taken a part of what the other one
has taken. -/
theorem Took.initial {p q r : Parser} {v w : List Token} (hv : p.Took v q) (hw : p.Took w r)
    (hle : q.stats.consumed ≤ r.stats.consumed) : v <+: w := by
  rw [hv.consumed_eq, hw.consumed_eq, Nat.add_le_add_iff_left] at hle
  have htake := hw.spells.take hle
  rw [Nat.zero_add] at htake
  rw [hv.spells.unique htake]
  exact List.take_prefix v.length w

/-- **A lower threshold extends the parse of a higher one.**  Whatever the table of rules, the
state of the parser and the operations are: an error above the higher threshold `m'` is also that
above the lower one, and leaves the same parser.  Where the lower threshold has a value and has
consumed `w`, the higher one has a value, has consumed the first tokens of `w`, and stops in front
of a token of precedence at most `m'`.  And if that precedence is at most `m`, the runs are the
same. -/
theorem lower_threshold_extends {α : Type} (g : Grammar) (I : Interpretation α) (p : Parser)
    {m m' : Nat} (hm : m ≤ m') :
    (∀ e q, p.parseExpression g I m' = .failure e q → p.parseExpression g I m = .failure e q) ∧
    (∀ b r, p.parseExpression g I m = .value b r →
      ∃ w, p.Took w r ∧ ∃ a q v, p.parseExpression g I m' = .value a q ∧ p.Took v q ∧
        v <+: w ∧ (q.precedence g).1 ≤ m') ∧
    ∀ a q, p.parseExpression g I m' = .value a q → (q.precedence g).1 ≤ m →
      p.parseExpression g I m = .value a q := by
  obtain ⟨k, hk⟩ : ∃ k, p.parseExpression g I m =
      (p.parseExpression g I m').andThen fun a q =>
        (climb g I (k + 1) m a q.enter).mapParser leave := parse_lowered g I hm p.bound p
  refine ⟨?_, ?_, ?_⟩
  · intro e q h
    rw [hk, h, Outcome.andThen_failure]
  · intro b r h
    obtain ⟨e, -, -, hw⟩ := exists_leads_of_value h
    rw [hk] at h
    obtain ⟨a, q, ha, hcont⟩ := Outcome.andThen_eq_value h
    obtain ⟨f, -, -, hv⟩ := exists_leads_of_value ha
    obtain ⟨s, hclimb, rfl⟩ := Outcome.mapParser_eq_value hcont
    have hle : q.stats.consumed ≤ s.stats.consumed :=
      climb_beyond g I (k + 1) m a q.enter s (by rw [hclimb]; rfl)
    have hrests := (parse_rests ha).precedence_le
    rw [← precedence_fst] at hrests
    exact ⟨_, hw, a, q, _, ha, hv, hv.initial hw hle, hrests⟩
  · intro a q h hle
    have hrests : q.enter.Rests g m := by
      obtain ⟨-, hpos, hwidest⟩ := parse_rests h
      rw [precedence_fst] at hle
      exact ⟨hle, hpos, hwidest⟩
    have hdepth : q.enter.leave = q := rfl
    rw [hk, h, Outcome.andThen_value, hrests.climb_eq, Outcome.mapParser_value, hdepth]

/-- Above the threshold of sums only the product is read; above zero, the sum behind it as well.
At a right parenthesis both stop, and a missing operand fails for both. -/
theorem lower_threshold_extends_product :
    (0 ≤ 3 ∧ ∃ b r, Calculator.parse Arithmetic.float '.' "1*2+3" 5 = .value b r ∧
      ∃ w, (Calculator.parser '.' "1*2+3" 5).Took w r ∧ ∃ a q v,
        (Calculator.parser '.' "1*2+3" 5).parseExpression Calculator.grammar
          Arithmetic.float.interpretation 3 = .value a q ∧
        (Calculator.parser '.' "1*2+3" 5).Took v q ∧ v <+: w ∧
          (q.precedence Calculator.grammar).1 ≤ 3) ∧
    (∃ e q, (Calculator.parser '.' "1*)" 5).parseExpression Calculator.grammar
        Arithmetic.float.interpretation 3 = .failure e q ∧
      Calculator.parse Arithmetic.float '.' "1*)" 5 = .failure e q) ∧
    ∃ a q, (Calculator.parser '.' "1*2)" 5).parseExpression Calculator.grammar
        Arithmetic.float.interpretation 3 = .value a q ∧
      (q.precedence Calculator.grammar).1 ≤ 0 ∧
        Calculator.parse Arithmetic.float '.' "1*2)" 5 = .value a q := by
  have hm : 0 ≤ 3 := by decide
  have hsum : ∃ b r, Calculator.parse Arithmetic.float '.' "1*2+3" 5 = .value b r := ⟨_, _, rfl⟩
  have hgap : ∃ e q, (Calculator.parser '.' "1*)" 5).parseExpression Calculator.grammar
      Arithmetic.float.interpretation 3 = .failure e q := ⟨_, _, rfl⟩
  have hproduct : ∃ a q, (Calculator.parser '.' "1*2)" 5).parseExpression Calculator.grammar
      Arithmetic.float.interpretation 3 = .value a q ∧
        (q.precedence Calculator.grammar).1 ≤ 0 := ⟨_, _, rfl, by decide⟩
  obtain ⟨b, r, hb⟩ := hsum
  obtain ⟨e, q, hq⟩ := hgap
  obtain ⟨a, s, ha, hle⟩ := hproduct
  refine ⟨⟨hm, b, r, hb, ?_⟩, ⟨e, q, hq, ?_⟩, a, s, ha, hle, ?_⟩
  · exact (lower_threshold_extends Calculator.grammar Arithmetic.float.interpretation
      (Calculator.parser '.' "1*2+3" 5) hm).2.1 b r hb
  · exact (lower_threshold_extends Calculator.grammar Arithmetic.float.interpretation
      (Calculator.parser '.' "1*)" 5) hm).1 e q hq
  · exact (lower_threshold_extends Calculator.grammar Arithmetic.float.interpretation
      (Calculator.parser '.' "1*2)" 5) hm).2.2 a s ha hle

end Parser

end Reckon

/-
**The parser reads its tape.**

The tokens ahead of a parser form a tape, and the number of tokens it has consumed is a place on
it.  However many tokens the parser has drawn in advance, and however deep the expression nests
that it is reading, every step of the engine does on the parser what the reader does on the tape:
the answer is the same, the place that is reached is the same, and the depth is what it was before
— behind an error as well as behind a value.

Main definitions:

* `Parser.Follows` — the parser stands at a place of a tape;
* `Parser.tape` — the tape of a parser in any state;
* `Outcome.LandsOn` — a run of the parser and a run of the reader end alike;
* `Parser.Took` — exactly the given tokens have been consumed.

Main results:

* `Parser.Follows.consume`, `Parser.Follows.peek`, `Parser.Follows.expect_of_eq` and the like —
  the steps that read no expression;
* `Parser.parse_landsOn`, `Parser.parseExpression_landsOn` — **the engine simulates the reader**;
* `Parser.took_iff` — what has been consumed is what stands before the place reached;
* `Parser.Follows.endsAt` — behind the last token of the source the tape holds only ends of the
  input.
-/

import Reckon.Parser.Stream
import Reckon.Proofs.Tape

set_option autoImplicit false
set_option relaxedAutoImplicit false

namespace Reckon

namespace Parser

/-! ### Places on a tape -/

/-- The parser stands at `place` on the tape `S`, reading `depth` expressions inside one another
with `limit` as the most that are allowed. -/
structure Follows (S : Tape) (limit depth place : Nat) (p : Parser) : Prop where
  stream_eq : ∀ n, p.stream n = S (place + n)
  consumed_eq : p.stats.consumed = place
  maxDepth_eq : p.maxDepth = limit
  depth_eq : p.depth = depth

/-- The tape on which a parser stands at the place given by its counter. -/
def tape (p : Parser) : Tape := fun k => p.stream (k - p.stats.consumed)

theorem follows_tape (p : Parser) : p.Follows p.tape p.maxDepth p.depth p.stats.consumed := by
  refine ⟨?_, rfl, rfl, rfl⟩
  intro n
  rw [tape, Nat.add_sub_cancel_left]

@[simp] theorem consumed_drawMany (n : Nat) (p : Parser) :
    (drawMany n p).stats.consumed = p.stats.consumed := by
  induction n generalizing p with
  | zero => rfl
  | succ n ih =>
      rw [drawMany, ih]
      rfl

@[simp] theorem consumed_fill (count : Nat) (p : Parser) :
    (p.fill count).stats.consumed = p.stats.consumed :=
  consumed_drawMany (count - p.pending.length) p

@[simp] theorem consumed_peek (distance : Nat) (p : Parser) (h : InReach distance) :
    (p.peek distance h).2.stats.consumed = p.stats.consumed :=
  consumed_fill (distance + 1) p

@[simp] theorem consumed_consume (p : Parser) :
    p.consume.2.stats.consumed = p.stats.consumed + 1 := by
  obtain ⟨t, ts, h⟩ := exists_pending_fill 0 p
  rw [consume_eq h]
  exact congrArg (· + 1) (consumed_fill 1 p)

namespace Follows

variable {S : Tape} {limit depth place : Nat} {p : Parser}

theorem stream_zero (h : p.Follows S limit depth place) : p.stream 0 = S place := h.stream_eq 0

theorem peek_fst (h : p.Follows S limit depth place) (distance : Nat)
    (hd : InReach distance) : (p.peek distance hd).1 = S (place + distance) := by
  rw [Parser.peek_fst, h.stream_eq]

theorem peek (h : p.Follows S limit depth place) (distance : Nat)
    (hd : InReach distance := by exact Reckon.Parser.inReach_zero) :
    (p.peek distance hd).2.Follows S limit depth place where
  stream_eq n := by rw [stream_peek, h.stream_eq]
  consumed_eq := by rw [consumed_peek, h.consumed_eq]
  maxDepth_eq := by rw [maxDepth_peek, h.maxDepth_eq]
  depth_eq := by rw [depth_peek, h.depth_eq]

theorem consume_fst (h : p.Follows S limit depth place) : p.consume.1 = S place := by
  rw [Parser.consume_fst, h.stream_zero]

theorem consume (h : p.Follows S limit depth place) :
    p.consume.2.Follows S limit depth (place + 1) where
  stream_eq n := by rw [stream_consume, h.stream_eq, Nat.add_right_comm, Nat.add_assoc]
  consumed_eq := by rw [consumed_consume, h.consumed_eq]
  maxDepth_eq := by rw [maxDepth_consume, h.maxDepth_eq]
  depth_eq := by rw [depth_consume, h.depth_eq]

theorem precedence_fst (h : p.Follows S limit depth place) (g : Grammar) :
    (p.precedence g).1 = g.precedenceOf (S place).kind := by
  rw [Parser.precedence_fst, h.stream_zero]

theorem precedence (h : p.Follows S limit depth place) (g : Grammar) :
    (p.precedence g).2.Follows S limit depth place := h.peek 0

/-- A token of the wanted kind is taken. -/
theorem expect_of_eq (h : p.Follows S limit depth place) {wanted : Kind}
    (hk : (S place).kind = wanted) :
    ∃ q, p.expect wanted = (.ok (S place), q) ∧ q.Follows S limit depth (place + 1) := by
  refine ⟨(p.peek 0).2.consume.2, ?_, (h.peek 0).consume⟩
  rw [Parser.expect_of_eq (by rwa [h.peek_fst]), (h.peek 0).consume_fst]

/-- A token of another kind stays. -/
theorem expect_of_ne (h : p.Follows S limit depth place) {wanted : Kind}
    (hk : (S place).kind ≠ wanted) :
    ∃ q, p.expect wanted = (.error (.expected wanted (S place).kind (S place).span), q) ∧
      q.Follows S limit depth place := by
  refine ⟨(p.peek 0).2, ?_, h.peek 0⟩
  rw [Parser.expect_of_ne (by rwa [h.peek_fst]), h.peek_fst, Nat.add_zero]

theorem accept_of_eq (h : p.Follows S limit depth place) {wanted : Kind}
    (hk : (S place).kind = wanted) :
    ∃ q, p.accept wanted = (true, q) ∧ q.Follows S limit depth (place + 1) :=
  ⟨(p.peek 0).2.consume.2, Parser.accept_of_eq (by rwa [h.peek_fst]), (h.peek 0).consume⟩

theorem accept_of_ne (h : p.Follows S limit depth place) {wanted : Kind}
    (hk : (S place).kind ≠ wanted) :
    ∃ q, p.accept wanted = (false, q) ∧ q.Follows S limit depth place :=
  ⟨(p.peek 0).2, Parser.accept_of_ne (by rwa [h.peek_fst]), h.peek 0⟩

theorem enter (h : p.Follows S limit depth place) :
    p.enter.Follows S limit (depth + 1) place where
  stream_eq := h.stream_eq
  consumed_eq := h.consumed_eq
  maxDepth_eq := h.maxDepth_eq
  depth_eq := congrArg (· + 1) h.depth_eq

theorem leave (h : p.Follows S limit (depth + 1) place) :
    p.leave.Follows S limit depth place where
  stream_eq := h.stream_eq
  consumed_eq := h.consumed_eq
  maxDepth_eq := h.maxDepth_eq
  depth_eq := congrArg (· - 1) h.depth_eq

theorem countPrefix (h : p.Follows S limit depth place) :
    p.countPrefix.Follows S limit depth place :=
  ⟨h.stream_eq, h.consumed_eq, h.maxDepth_eq, h.depth_eq⟩

theorem countInfix (h : p.Follows S limit depth place) :
    p.countInfix.Follows S limit depth place :=
  ⟨h.stream_eq, h.consumed_eq, h.maxDepth_eq, h.depth_eq⟩

end Follows

end Parser

/-! ### Runs that end alike -/

/-- The parser's run ends as the reader's does, and leaves a parser at the place reached. -/
inductive Outcome.LandsOn {α : Type} (S : Tape) (limit depth : Nat) :
    Outcome α → Landing α → Prop
  | value {a : α} {q : Parser} {j : Nat} :
      q.Follows S limit depth j → LandsOn S limit depth (.value a q) (.value a j)
  | failure {e : ParseError} {q : Parser} {j : Nat} :
      q.Follows S limit depth j → LandsOn S limit depth (.failure e q) (.failure e j)
  | unfinished : LandsOn S limit depth .unfinished .unfinished

namespace Outcome.LandsOn

variable {α β : Type} {S : Tape} {limit depth : Nat} {o : Outcome α} {l : Landing α}

theorem ofExcept (r : Except ParseError α) {q : Parser} {j : Nat}
    (h : q.Follows S limit depth j) :
    LandsOn S limit depth (Outcome.ofExcept r q) (Landing.ofExcept r j) := by
  cases r with
  | ok a => exact .value h
  | error e => exact .failure h

theorem andThen {next : α → Parser → Outcome β} {next' : α → Nat → Landing β}
    (h : LandsOn S limit depth o l)
    (hn : ∀ a q j, q.Follows S limit depth j → LandsOn S limit depth (next a q) (next' a j)) :
    LandsOn S limit depth (o.andThen next) (l.andThen next') := by
  cases h with
  | value hq => exact hn _ _ _ hq
  | failure hq => exact .failure hq
  | unfinished => exact .unfinished

theorem mapLeave (h : LandsOn S limit (depth + 1) o l) :
    LandsOn S limit depth (o.mapParser Parser.leave) l := by
  cases h with
  | value hq => exact .value hq.leave
  | failure hq => exact .failure hq.leave
  | unfinished => exact .unfinished

theorem exists_value {a : α} {j : Nat} (h : LandsOn S limit depth o (.value a j)) :
    ∃ q, o = .value a q ∧ q.Follows S limit depth j := by
  cases h with
  | value hq => exact ⟨_, rfl, hq⟩

theorem exists_failure {e : ParseError} {j : Nat} (h : LandsOn S limit depth o (.failure e j)) :
    ∃ q, o = .failure e q ∧ q.Follows S limit depth j := by
  cases h with
  | failure hq => exact ⟨_, rfl, hq⟩

theorem exists_place {a : α} {q : Parser} (h : LandsOn S limit depth (.value a q) l) :
    ∃ j, l = .value a j ∧ q.Follows S limit depth j := by
  cases h with
  | value hq => exact ⟨_, rfl, hq⟩

theorem exists_failure_place {e : ParseError} {q : Parser}
    (h : LandsOn S limit depth (.failure e q) l) :
    ∃ j, l = .failure e j ∧ q.Follows S limit depth j := by
  cases h with
  | failure hq => exact ⟨_, rfl, hq⟩

theorem eq_unfinished (h : LandsOn S limit depth .unfinished l) : l = .unfinished := by
  cases h with
  | unfinished => rfl

end Outcome.LandsOn

open Outcome (LandsOn)

section Rules

variable {α : Type} {I : Interpretation α} {S : Tape} {limit depth : Nat}
  {operand : Nat → Parser → Outcome α} {operand' : Nat → Nat → Landing α}

theorem PrefixRule.run_landsOn (rule : PrefixRule)
    (h : ∀ m j q, q.Follows S limit depth j → LandsOn S limit depth (operand m q) (operand' m j))
    {i : Nat} {p : Parser} (hp : p.Follows S limit depth (i + 1)) :
    LandsOn S limit depth (rule.run I operand (S i) p) (rule.read I S operand' i) := by
  cases rule with
  | atom => exact .ofExcept _ hp
  | group =>
      refine (h 0 _ p hp).andThen ?_
      intro inner q j hq
      by_cases hk : (S j).kind = .rightParen
      · obtain ⟨q', hq', hf⟩ := hq.expect_of_eq hk
        simp only [hq', if_pos hk]
        exact .value hf
      · obtain ⟨q', hq', hf⟩ := hq.expect_of_ne hk
        simp only [hq', if_neg hk]
        exact .failure hf
  | unary m => exact (h m _ p hp).andThen (fun _ _ _ hq => .ofExcept _ hq)

theorem InfixRule.run_landsOn (rule : InfixRule)
    (h : ∀ m j q, q.Follows S limit depth j → LandsOn S limit depth (operand m q) (operand' m j))
    (left : α) {i : Nat} {p : Parser} (hp : p.Follows S limit depth (i + 1)) :
    LandsOn S limit depth (rule.run I operand left (S i) p) (rule.read I S operand' left i) := by
  cases rule with
  | binary prec assoc => exact (h _ _ p hp).andThen (fun _ _ _ hq => .ofExcept _ hq)
  | postfixed prec => exact .ofExcept _ hp

end Rules

namespace Parser

variable {α : Type}

/-- The engine and its loop do what the reader and its loop do, with the same bound. -/
theorem landsOn_of_bound (g : Grammar) (I : Interpretation α) (S : Tape) (limit n : Nat) :
    (∀ depth threshold i p, p.Follows S limit depth i →
        LandsOn S limit depth (parse g I n threshold p)
          (Tape.read g I S limit n depth threshold i)) ∧
      ∀ depth threshold left i p, p.Follows S limit depth i →
        LandsOn S limit depth (climb g I n threshold left p)
          (Tape.extend g I S limit n depth threshold left i) := by
  induction n with
  | zero => exact ⟨fun _ _ _ _ _ => .unfinished, fun _ _ _ _ _ _ => .unfinished⟩
  | succ n ih =>
      obtain ⟨ihp, ihc⟩ := ih
      constructor
      · intro depth threshold i p hp
        rcases Nat.lt_or_ge depth limit with h | h
        · have hdepth : p.depth < p.maxDepth := by rwa [hp.depth_eq, hp.maxDepth_eq]
          have ht := hp.enter.consume_fst
          cases hr : g.prefixRule? (S i).kind with
          | none =>
              rw [parse_of_noPrefix hdepth (by rwa [ht]), Tape.read_of_noPrefix h hr, ht]
              exact .failure hp.enter.consume.leave
          | some rule =>
              rw [parse_of_prefixRule hdepth (by rwa [ht]), Tape.read_of_prefixRule h hr, ht]
              have hrun := rule.run_landsOn (I := I) (fun m j q hq => ihp (depth + 1) m j q hq)
                hp.enter.consume.countPrefix
              exact (hrun.andThen fun a q j hq => ihc (depth + 1) threshold a j q hq).mapLeave
        · rw [parse_of_tooDeep (by rwa [hp.depth_eq, hp.maxDepth_eq]), Tape.read_of_tooDeep h,
            hp.maxDepth_eq, hp.peek_fst]
          exact .failure (hp.peek 0)
      · intro depth threshold left i p hp
        have hprec := hp.precedence_fst g
        have hnext := hp.precedence g
        rcases Nat.lt_or_ge threshold (g.precedenceOf (S i).kind) with h | h
        · obtain ⟨rule, hr, hlt⟩ := Grammar.exists_infixRule_of_lt h
          have ht := hnext.consume_fst
          rw [climb_of_lt (by rwa [hprec]) (by rwa [ht]), Tape.extend_of_lt hr hlt, ht]
          have hrun := rule.run_landsOn (I := I) (fun m j q hq => ihp depth m j q hq) left
            hnext.consume.countInfix
          exact hrun.andThen fun a q j hq => ihc depth threshold a j q hq
        · rw [climb_of_le (by rwa [hprec]), Tape.extend_of_le h]
          exact .value hnext

theorem parse_landsOn {S : Tape} {limit depth i : Nat} {p : Parser} (g : Grammar)
    (I : Interpretation α) (n threshold : Nat) (h : p.Follows S limit depth i) :
    LandsOn S limit depth (parse g I n threshold p)
      (Tape.read g I S limit n depth threshold i) :=
  (landsOn_of_bound g I S limit n).1 depth threshold i p h

theorem parseExpression_landsOn {S : Tape} {limit depth i : Nat} {p : Parser} (g : Grammar)
    (I : Interpretation α) (threshold : Nat) (h : p.Follows S limit depth i) :
    LandsOn S limit depth (parseExpression g I threshold p)
      (Tape.read g I S limit p.bound depth threshold i) :=
  parse_landsOn g I p.bound threshold h

/-! ### What has been consumed -/

/-- Between the states `p` and `q` exactly the tokens `w` have been consumed. -/
structure Took (p : Parser) (w : List Token) (q : Parser) : Prop where
  spells : Tape.Spells p.stream 0 w w.length
  stream_eq : ∀ n, q.stream n = p.stream (w.length + n)
  consumed_eq : q.stats.consumed = p.stats.consumed + w.length

/-- What has been taken can be told from the state that is left. -/
theorem Took.unique {p q : Parser} {w w' : List Token} (h : p.Took w q) (h' : p.Took w' q) :
    w = w' := by
  have hlen := h.consumed_eq
  rw [h'.consumed_eq] at hlen
  have hw := h'.spells
  rw [Nat.add_left_cancel hlen] at hw
  exact h.spells.unique hw

theorem tape_add (p : Parser) (n : Nat) : p.tape (p.stats.consumed + n) = p.stream n := by
  rw [tape, Nat.add_sub_cancel_left]

theorem spells_tape {p : Parser} {i j : Nat} {w : List Token} :
    p.tape.Spells (p.stats.consumed + i) w (p.stats.consumed + j) ↔
      Tape.Spells p.stream i w j :=
  Tape.spells_add p.tape_add

/-- A parser that has come to a later place of the tape has taken the tokens before it. -/
theorem took_iff {p q : Parser} {limit depth j : Nat} {w : List Token}
    (h : q.Follows p.tape limit depth j) :
    p.Took w q ↔ p.tape.Spells p.stats.consumed w j := by
  constructor
  · rintro ⟨hw, -, hc⟩
    rw [h.consumed_eq] at hc
    rw [hc]
    exact spells_tape.2 hw
  · intro hw
    obtain rfl := hw.eq_add
    refine ⟨spells_tape.1 hw, ?_, h.consumed_eq⟩
    intro n
    rw [h.stream_eq, Nat.add_assoc, tape_add]

/-! ### Behind the last token -/

end Parser

theorem Source.size_next_le_pred (s : Source) : s.next.2.size ≤ s.size - 1 := by
  cases s with
  | list ts => cases ts <;> simp
  | line l =>
      cases hend : l.next.1.isEnd with
      | false => exact Nat.le_sub_one_of_lt (Lexer.length_next_lt hend)
      | true => simp [(Lexer.next_of_isEnd hend).2]

/-- Behind the last token of a source come only ends of the input, which have no text. -/
theorem Source.exists_stream_of_le {s : Source} {place : Option Span} {n : Nat} (h : s.size ≤ n) :
    ∃ span, s.stream place n = Token.endOfInput span := by
  induction n generalizing s place with
  | zero =>
      cases s with
      | list ts =>
          obtain rfl := List.length_eq_zero_iff.1 (Nat.le_zero.1 h)
          exact ⟨place, rfl⟩
      | line l =>
          have hl := List.length_eq_zero_iff.1 (Nat.le_zero.1 h)
          rw [stream, head_line, Lexer.next_of_nil hl]
          exact ⟨_, rfl⟩
  | succ n ih =>
      have := s.size_next_le_pred
      exact ih (by omega)

namespace Parser

theorem precede_length_add (later : Nat → Token) (ts : List Token) (n : Nat) :
    precede later ts (ts.length + n) = later n := by
  induction ts with
  | nil => rw [List.length_nil, Nat.zero_add, precede]
  | cons t ts ih => rw [List.length_cons, Nat.add_right_comm, precede, ih]

/-- Behind the last token of the source the tape holds only ends of the input. -/
theorem Follows.endsAt {S : Tape} {limit depth place : Nat} {p : Parser}
    (h : p.Follows S limit depth place) :
    S.EndsAt (place + (p.pending.length + p.source.size)) := by
  intro k hk
  obtain ⟨n, rfl⟩ := Nat.exists_eq_add_of_le hk
  rw [Nat.add_assoc, ← h.stream_eq, Nat.add_assoc, stream, precede_length_add]
  exact Source.exists_stream_of_le (Nat.le_add_right _ n)

end Parser

end Reckon

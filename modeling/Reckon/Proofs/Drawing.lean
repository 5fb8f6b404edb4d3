/-
**What a parse depends on.**

A parser draws a token only to look at it, and the engine looks at every token that it draws.  So
two parsers go on in lock step, on different streams and by different tables of rules, for as long
as the tokens that the first one has drawn are the same on both streams and have the same rules in
both tables.  Neither what comes behind these tokens nor a rule for any other kind has a part in
what the parser yields and counts.

Main definitions:

* `Grammar.SameAt` — two tables have the same rules for a kind;
* `Tape.Shares` — two tapes hold the same tokens up to a place, with the same rules;
* `Parser.Twin` — two parsers stand at the same place of their tapes and count the same;
* `Outcome.Parallel` — two runs end alike, or the first one has drawn too many tokens.

Main results:

* `Parser.parse_draws`, `Parser.climb_draws` — every run looks at the next token;
* `Parser.parse_parallel` — **two runs in lock step**;
* `Parser.parse_depends_on_drawn` — **a parse depends only on what it has drawn**.
-/

import Reckon.Calculator
import Reckon.Expr
import Reckon.Proofs.Bounds
import Reckon.Proofs.Endless
import Reckon.Proofs.Invariants

set_option autoImplicit false
set_option relaxedAutoImplicit false

namespace Reckon

/-- The two tables have the same rules for the kind. -/
structure Grammar.SameAt (g g' : Grammar) (k : Kind) : Prop where
  prefixRule_eq : g'.prefixRule? k = g.prefixRule? k
  infixRule_eq : g'.infixRule? k = g.infixRule? k

theorem Grammar.SameAt.precedenceOf_eq {g g' : Grammar} {k : Kind} (h : g.SameAt g' k) :
    g'.precedenceOf k = g.precedenceOf k := by
  rw [precedenceOf, precedenceOf, h.infixRule_eq]

/-- The tapes hold the same tokens before the place `k`, and the tables have the same rules for
them. -/
structure Tape.Shares (S S' : Tape) (g g' : Grammar) (k : Nat) : Prop where
  token_eq : ∀ n, n < k → S' n = S n
  sameAt : ∀ n, n < k → g.SameAt g' (S n).kind

/-! ### Every run looks at the next token -/

open Outcome (Leaves)

namespace Parser

variable {α : Type} {p : Parser}

theorem Balanced.lt_drawn_peek (h : p.Balanced) :
    p.stats.consumed < (p.peek 0).2.stats.drawn := by
  have hb := h.peek
  rw [Balanced, consumed_peek, length_pending_peek] at hb
  omega

theorem Balanced.lt_drawn_consume (h : p.Balanced) :
    p.stats.consumed < p.consume.2.stats.drawn := by
  have hb := h.consume
  rw [Balanced, consumed_consume] at hb
  omega

theorem Balanced.lt_drawn_expect (h : p.Balanced) (wanted : Kind) :
    p.stats.consumed < (p.expect wanted).2.stats.drawn := by
  by_cases hk : (p.peek 0).1.kind = wanted
  · rw [expect_of_eq hk]
    exact Nat.lt_of_lt_of_le h.lt_drawn_peek (drawn_le_consume _)
  · rw [expect_of_ne hk]
    exact h.lt_drawn_peek

/-- A run of the engine draws the next token, if it has not been drawn before. -/
theorem parse_draws (h : p.Balanced) (g : Grammar) (I : Interpretation α) (n θ : Nat) :
    (parse g I n θ p).Leaves fun q => p.stats.consumed < q.stats.drawn := by
  cases n with
  | zero => exact .unfinished
  | succ n =>
      have hkept := kept_drawn (p.stats.consumed + 1)
      rcases Nat.lt_or_ge p.depth p.maxDepth with hd | hd
      · have hconsume : p.enter.stats.consumed < p.enter.consume.2.stats.drawn :=
          (show p.enter.Balanced from h).lt_drawn_consume
        cases hr : g.prefixRule? p.enter.consume.1.kind with
        | none =>
            rw [parse_of_noPrefix hd hr]
            exact .failure hconsume
        | some rule =>
            rw [parse_of_prefixRule hd hr]
            have hrun := rule.run_leaves (I := I) hkept
              (fun θ' q hq => parse_leaves hkept g I n θ' hq) p.enter.consume.1
              (p := p.enter.consume.2.countPrefix) hconsume
            exact (hrun.andThen fun a q hq => climb_leaves hkept g I n θ a hq).mapParser
              hkept.leave
      · rw [parse_of_tooDeep hd]
        exact .failure h.lt_drawn_peek

/-- So does a run of the loop. -/
theorem climb_draws (h : p.Balanced) (g : Grammar) (I : Interpretation α) (n θ : Nat) (left : α) :
    (climb g I n θ left p).Leaves fun q => p.stats.consumed < q.stats.drawn := by
  cases n with
  | zero => exact .unfinished
  | succ n =>
      have hkept := kept_drawn (p.stats.consumed + 1)
      have hnext : p.stats.consumed < (p.precedence g).2.stats.drawn := h.lt_drawn_peek
      have hconsume := hkept.consume _ hnext
      rcases Nat.lt_or_ge θ (p.precedence g).1 with hlt | hle
      · cases hr : g.infixRule? (p.precedence g).2.consume.1.kind with
        | none =>
            rw [climb_of_unknown hlt hr]
            exact .failure hconsume
        | some rule =>
            rw [climb_of_lt hlt hr]
            have hrun := rule.run_leaves (I := I)
              (fun θ' q hq => parse_leaves hkept g I n θ' hq) left
              (p.precedence g).2.consume.1 (p := (p.precedence g).2.consume.2.countInfix) hconsume
            exact hrun.andThen fun a q hq => climb_leaves hkept g I n θ a hq
      · rw [climb_of_le hle]
        exact .value hnext

end Parser

/-- Behind a value some token is pending. -/
def Outcome.Awaits {α : Type} (o : Outcome α) : Prop :=
  ∀ a q, o = .value a q → 0 < q.pending.length

namespace Outcome.Awaits

variable {α β : Type}

theorem value {a : α} {q : Parser} (h : 0 < q.pending.length) : Awaits (.value a q) := by
  rintro b q' ⟨⟩
  exact h

theorem failure (e : ParseError) (q : Parser) : Awaits (.failure e q : Outcome α) := by
  rintro b q' ⟨⟩

theorem unfinished : Awaits (.unfinished : Outcome α) := by
  rintro b q' ⟨⟩

/-- What has come before the last part does not matter. -/
theorem andThen (o : Outcome α) {next : α → Parser → Outcome β} (h : ∀ a q, Awaits (next a q)) :
    Awaits (o.andThen next) := by
  cases o with
  | value a q => exact h a q
  | failure e q => exact failure e q
  | unfinished => exact unfinished

theorem mapLeave {o : Outcome α} (h : Awaits o) : Awaits (o.mapParser Parser.leave) := by
  cases o with
  | value a q => exact value (q := q.leave) (h a q rfl)
  | failure e q => exact failure e q.leave
  | unfinished => exact unfinished

end Outcome.Awaits

open Outcome (Awaits)

namespace Parser

variable {α : Type} {p : Parser}

/-- The loop ends at a token that it has looked at and leaves. -/
theorem climb_awaits (g : Grammar) (I : Interpretation α) (n θ : Nat) (left : α) (p : Parser) :
    Awaits (climb g I n θ left p) := by
  induction n generalizing left p with
  | zero => exact .unfinished
  | succ n ih =>
      rcases Nat.lt_or_ge θ (p.precedence g).1 with h | h
      · cases hr : g.infixRule? (p.precedence g).2.consume.1.kind with
        | none =>
            rw [climb_of_unknown h hr]
            exact .failure _ _
        | some rule =>
            rw [climb_of_lt h hr]
            exact .andThen _ ih
      · rw [climb_of_le h]
        refine .value ?_
        rw [precedence, length_pending_peek]
        exact Nat.lt_of_lt_of_le Nat.zero_lt_one (Nat.le_max_right _ _)

/-- So does the engine, whose last step is the loop. -/
theorem parse_awaits (g : Grammar) (I : Interpretation α) (n θ : Nat) (p : Parser) :
    Awaits (parse g I n θ p) := by
  cases n with
  | zero => exact .unfinished
  | succ n =>
      rcases Nat.lt_or_ge p.depth p.maxDepth with h | h
      · cases hr : g.prefixRule? p.enter.consume.1.kind with
        | none =>
            rw [parse_of_noPrefix h hr]
            exact .failure _ _
        | some rule =>
            rw [parse_of_prefixRule h hr]
            exact (Awaits.andThen _ (climb_awaits g I n θ)).mapLeave
      · rw [parse_of_tooDeep h]
        exact .failure _ _

/-! ### Two parsers in lock step -/

/-- The parsers stand at the same place, each on its own tape, and count the same. -/
structure Twin (S S' : Tape) (limit depth place : Nat) (p p' : Parser) : Prop where
  left : p.Follows S limit depth place
  right : p'.Follows S' limit depth place
  balanced : p.Balanced
  stats_eq : p'.stats = p.stats
  length_eq : p'.pending.length = p.pending.length

namespace Twin

variable {S S' : Tape} {limit depth place : Nat} {p' : Parser}

theorem stats_fill_eq (h : Twin S S' limit depth place p p') (count : Nat) :
    (p'.fill count).stats = (p.fill count).stats := by
  rw [stats_fill, stats_fill, h.stats_eq, h.length_eq]

theorem peek (h : Twin S S' limit depth place p p') :
    Twin S S' limit depth place (p.peek 0).2 (p'.peek 0).2 where
  left := h.left.peek 0
  right := h.right.peek 0
  balanced := h.balanced.peek
  stats_eq := h.stats_fill_eq 1
  length_eq := by rw [length_pending_peek, length_pending_peek, h.length_eq]

theorem consume (h : Twin S S' limit depth place p p') :
    Twin S S' limit depth (place + 1) p.consume.2 p'.consume.2 where
  left := h.left.consume
  right := h.right.consume
  balanced := h.balanced.consume
  stats_eq := by rw [stats_consume, stats_consume, h.stats_fill_eq]
  length_eq := by rw [length_pending_consume, length_pending_consume, h.length_eq]

theorem enter (h : Twin S S' limit depth place p p') :
    Twin S S' limit (depth + 1) place p.enter p'.enter :=
  ⟨h.left.enter, h.right.enter, h.balanced, h.stats_eq, h.length_eq⟩

theorem leave (h : Twin S S' limit (depth + 1) place p p') :
    Twin S S' limit depth place p.leave p'.leave :=
  ⟨h.left.leave, h.right.leave, h.balanced, h.stats_eq, h.length_eq⟩

theorem countPrefix (h : Twin S S' limit depth place p p') :
    Twin S S' limit depth place p.countPrefix p'.countPrefix where
  left := h.left.countPrefix
  right := h.right.countPrefix
  balanced := h.balanced
  stats_eq := by rw [Parser.countPrefix, Parser.countPrefix, h.stats_eq]
  length_eq := h.length_eq

theorem countInfix (h : Twin S S' limit depth place p p') :
    Twin S S' limit depth place p.countInfix p'.countInfix where
  left := h.left.countInfix
  right := h.right.countInfix
  balanced := h.balanced
  stats_eq := by rw [Parser.countInfix, Parser.countInfix, h.stats_eq]
  length_eq := h.length_eq

/-- Where the tapes hold the same token, asking for a kind has the same answer. -/
theorem expect (h : Twin S S' limit depth place p p') (hS : S' place = S place) (wanted : Kind) :
    (p'.expect wanted).1 = (p.expect wanted).1 ∧
      ∃ place', Twin S S' limit depth place' (p.expect wanted).2 (p'.expect wanted).2 := by
  have hp : (p.peek 0).1 = S place := h.left.peek_fst 0 (by decide)
  have hp' : (p'.peek 0).1 = S place := by rw [h.right.peek_fst, ← hS, Nat.add_zero]
  by_cases hk : (S place).kind = wanted
  · rw [expect_of_eq (p := p) (by rwa [hp]), expect_of_eq (p := p') (by rwa [hp']),
      h.peek.left.consume_fst, h.peek.right.consume_fst, hS]
    exact ⟨rfl, _, h.peek.consume⟩
  · rw [expect_of_ne (p := p) (by rwa [hp]), expect_of_ne (p := p') (by rwa [hp']), hp, hp']
    exact ⟨rfl, _, h.peek⟩

end Twin

/-- Two parsers that have drawn nothing yet. -/
theorem twin_ofSource (s s' : Source) (limit : Nat) :
    Twin s.endless s'.endless limit 0 0 (ofSource s limit) (ofSource s' limit) :=
  ⟨follows_ofSource s limit, follows_ofSource s' limit, rfl, rfl, rfl⟩

end Parser

open Reckon.Parser (Twin)

/-- The runs end alike and leave parsers in lock step; or the first one has drawn more than `k`
tokens. -/
inductive Outcome.Parallel {α : Type} (S S' : Tape) (limit depth k : Nat) :
    Outcome α → Outcome α → Prop
  | value {a : α} {q q' : Parser} {place : Nat} :
      Twin S S' limit depth place q q' → Parallel S S' limit depth k (.value a q) (.value a q')
  | failure {e : ParseError} {q q' : Parser} {place : Nat} :
      Twin S S' limit depth place q q' →
        Parallel S S' limit depth k (.failure e q) (.failure e q')
  | unfinished : Parallel S S' limit depth k .unfinished .unfinished
  | beyond {o o' : Outcome α} :
      (o.Leaves fun q => k < q.stats.drawn) → Parallel S S' limit depth k o o'

namespace Outcome.Parallel

variable {α β : Type} {S S' : Tape} {limit depth k place : Nat} {o o' : Outcome α}

theorem ofExcept (r : Except ParseError α) {q q' : Parser} (h : Twin S S' limit depth place q q') :
    Parallel S S' limit depth k (.ofExcept r q) (.ofExcept r q') := by
  cases r with
  | ok a => exact .value h
  | error e => exact .failure h

theorem andThen {next next' : α → Parser → Outcome β} (h : Parallel S S' limit depth k o o')
    (hbeyond : ∀ a q, k < q.stats.drawn → (next a q).Leaves fun q => k < q.stats.drawn)
    (hn : ∀ a q q' place, Twin S S' limit depth place q q' →
      Parallel S S' limit depth k (next a q) (next' a q')) :
    Parallel S S' limit depth k (o.andThen next) (o'.andThen next') := by
  cases h with
  | value hq => exact hn _ _ _ _ hq
  | failure hq => exact .failure hq
  | unfinished => exact .unfinished
  | beyond hq => exact .beyond (hq.andThen hbeyond)

theorem mapLeave (h : Parallel S S' limit (depth + 1) k o o') :
    Parallel S S' limit depth k (o.mapParser Parser.leave) (o'.mapParser Parser.leave) := by
  cases h with
  | value hq => exact .value hq.leave
  | failure hq => exact .failure hq.leave
  | unfinished => exact .unfinished
  | beyond hq => exact .beyond (hq.mapParser fun _ hk => hk)

/-- A run that has drawn no more than `k` tokens is accompanied to its end. -/
theorem exists_twin (h : Parallel S S' limit depth k o o') {q : Parser}
    (hq : o.parser? = some q) (hk : q.stats.drawn ≤ k) :
    ∃ q', o'.parser? = some q' ∧ q'.stats = q.stats ∧ o'.result? = o.result? := by
  cases h with
  | value htwin =>
      cases hq
      exact ⟨_, rfl, htwin.stats_eq, rfl⟩
  | failure htwin =>
      cases hq
      exact ⟨_, rfl, htwin.stats_eq, rfl⟩
  | unfinished => cases hq
  | beyond hbeyond => exact absurd (hbeyond q hq) (Nat.not_lt_of_le hk)

end Outcome.Parallel

open Outcome (Parallel)

section Rules

variable {α : Type} {I : Interpretation α} {S S' : Tape} {limit depth k place : Nat}
  {operand operand' : Nat → Parser → Outcome α} {p p' : Parser}

/-- What a group does behind the expression inside: the next token is the same for both parsers,
or the first one draws too many. -/
theorem PrefixRule.close_parallel (hS : ∀ n, n < k → S' n = S n) (opening : Token) (inner : α)
    (h : Twin S S' limit depth place p p') :
    Parallel S S' limit depth k
      (match p.expect .rightParen with
        | (.ok closing, q) => .value (I.group opening inner closing) q
        | (.error e, q) => .failure e q)
      (match p'.expect .rightParen with
        | (.ok closing, q) => .value (I.group opening inner closing) q
        | (.error e, q) => .failure e q) := by
  rcases Nat.lt_or_ge place k with hk | hk
  · obtain ⟨hr, place', htwin⟩ := h.expect (hS place hk) .rightParen
    generalize p.expect .rightParen = next at hr htwin ⊢
    generalize p'.expect .rightParen = next' at hr htwin ⊢
    obtain ⟨r, q⟩ := next
    obtain ⟨r', q'⟩ := next'
    obtain rfl : r' = r := hr
    cases r' with
    | ok closing => exact .value htwin
    | error e => exact .failure htwin
  · refine .beyond (close_leaves opening inner ?_)
    have hlt := h.balanced.lt_drawn_expect .rightParen
    rw [h.left.consumed_eq] at hlt
    exact Nat.lt_of_le_of_lt hk hlt

theorem PrefixRule.run_parallel (hS : ∀ n, n < k → S' n = S n) (rule : PrefixRule)
    (h : ∀ θ q q' j, Twin S S' limit depth j q q' →
      Parallel S S' limit depth k (operand θ q) (operand' θ q'))
    (t : Token) (hp : Twin S S' limit depth place p p') :
    Parallel S S' limit depth k (rule.run I operand t p) (rule.run I operand' t p') := by
  cases rule with
  | atom => exact .ofExcept _ hp
  | group =>
      refine (h 0 p p' place hp).andThen ?_ ?_
      · intro inner q hq
        exact close_leaves t inner ((Parser.kept_drawn (k + 1)).expect _ hq)
      · intro inner q q' j hq
        exact close_parallel hS t inner hq
  | unary m =>
      exact (h m p p' place hp).andThen (fun _ _ hq => .ofExcept _ hq)
        (fun _ _ _ _ hq => .ofExcept _ hq)

theorem InfixRule.run_parallel (rule : InfixRule)
    (h : ∀ θ q q' j, Twin S S' limit depth j q q' →
      Parallel S S' limit depth k (operand θ q) (operand' θ q'))
    (left : α) (t : Token) (hp : Twin S S' limit depth place p p') :
    Parallel S S' limit depth k (rule.run I operand left t p) (rule.run I operand' left t p') := by
  cases rule with
  | binary prec assoc =>
      exact (h _ p p' place hp).andThen (fun _ _ hq => .ofExcept _ hq)
        (fun _ _ _ _ hq => .ofExcept _ hq)
  | postfixed prec => exact .ofExcept _ hp

end Rules

namespace Parser

variable {α : Type} {S S' : Tape} {g g' : Grammar} {k : Nat}

/-- Every token that decides how to go on is one that the first parser has drawn. -/
theorem parallel_of_bound (h : S.Shares S' g g' k) (I : Interpretation α) (limit n : Nat) :
    (∀ depth θ place p p', Twin S S' limit depth place p p' →
        Parallel S S' limit depth k (parse g I n θ p) (parse g' I n θ p')) ∧
      ∀ depth θ left place p p', Twin S S' limit depth place p p' →
        Parallel S S' limit depth k (climb g I n θ left p) (climb g' I n θ left p') := by
  have hclimb : ∀ m θ (a : α) q, k < q.stats.drawn →
      (climb g I m θ a q).Leaves fun q => k < q.stats.drawn :=
    fun m θ a q hq => climb_leaves (kept_drawn (k + 1)) g I m θ a hq
  induction n with
  | zero => exact ⟨fun _ _ _ _ _ _ => .unfinished, fun _ _ _ _ _ _ _ => .unfinished⟩
  | succ n ih =>
      obtain ⟨ihp, ihc⟩ := ih
      constructor
      · intro depth θ place p p' hp
        rcases Nat.lt_or_ge place k with hk | hk
        · have hS := h.token_eq place hk
          have hrule := (h.sameAt place hk).prefixRule_eq
          have ht : p.enter.consume.1 = S place := hp.enter.left.consume_fst
          have ht' : p'.enter.consume.1 = S place := by rw [hp.enter.right.consume_fst, hS]
          rcases Nat.lt_or_ge depth limit with hd | hd
          · have hd₁ : p.depth < p.maxDepth := by rwa [hp.left.depth_eq, hp.left.maxDepth_eq]
            have hd₂ : p'.depth < p'.maxDepth := by
              rwa [hp.right.depth_eq, hp.right.maxDepth_eq]
            cases hr : g.prefixRule? (S place).kind with
            | none =>
                rw [hr] at hrule
                rw [parse_of_noPrefix hd₁ (by rwa [ht]), parse_of_noPrefix hd₂ (by rwa [ht']),
                  ht, ht']
                exact .failure hp.enter.consume.leave
            | some rule =>
                rw [hr] at hrule
                rw [parse_of_prefixRule hd₁ (by rwa [ht]), parse_of_prefixRule hd₂ (by rwa [ht']),
                  ht, ht']
                have hrun := rule.run_parallel (I := I) h.token_eq
                  (fun m q q' j hq => ihp (depth + 1) m j q q' hq) (S place)
                  hp.enter.consume.countPrefix
                exact (hrun.andThen (hclimb n θ)
                  fun a q q' j hq => ihc (depth + 1) θ a j q q' hq).mapLeave
          · have hpeek : (p.peek 0).1 = S place := hp.left.peek_fst 0 (by decide)
            have hpeek' : (p'.peek 0).1 = S place := by
              rw [hp.right.peek_fst, ← hS, Nat.add_zero]
            rw [parse_of_tooDeep (by rwa [hp.left.depth_eq, hp.left.maxDepth_eq]),
              parse_of_tooDeep (by rwa [hp.right.depth_eq, hp.right.maxDepth_eq]),
              hp.left.maxDepth_eq, hp.right.maxDepth_eq, hpeek, hpeek']
            exact .failure hp.peek
        · refine .beyond ((parse_draws hp.balanced g I (n + 1) θ).mono ?_)
          intro q hq
          rw [hp.left.consumed_eq] at hq
          exact Nat.lt_of_le_of_lt hk hq
      · intro depth θ left place p p' hp
        rcases Nat.lt_or_ge place k with hk | hk
        · have hS := h.token_eq place hk
          have hrule := (h.sameAt place hk).infixRule_eq
          have hprec : (p.precedence g).1 = g.precedenceOf (S place).kind :=
            hp.left.precedence_fst g
          have hprec' : (p'.precedence g').1 = g.precedenceOf (S place).kind := by
            rw [hp.right.precedence_fst, hS, (h.sameAt place hk).precedenceOf_eq]
          have hnext : Twin S S' limit depth place (p.precedence g).2 (p'.precedence g').2 :=
            hp.peek
          rcases Nat.lt_or_ge θ (g.precedenceOf (S place).kind) with hlt | hle
          · obtain ⟨rule, hr, -⟩ := Grammar.exists_infixRule_of_lt hlt
            rw [hr] at hrule
            have ht := hnext.left.consume_fst
            have ht' : (p'.precedence g').2.consume.1 = S place := by
              rw [hnext.right.consume_fst, hS]
            rw [climb_of_lt (by rwa [hprec]) (by rwa [ht]),
              climb_of_lt (by rwa [hprec']) (by rwa [ht']), ht, ht']
            have hrun := rule.run_parallel (I := I)
              (fun m q q' j hq => ihp depth m j q q' hq) left (S place) hnext.consume.countInfix
            exact hrun.andThen (hclimb n θ) fun a q q' j hq => ihc depth θ a j q q' hq
          · rw [climb_of_le (by rwa [hprec]), climb_of_le (by rwa [hprec'])]
            exact .value hnext
        · refine .beyond ((climb_draws hp.balanced g I (n + 1) θ left).mono ?_)
          intro q hq
          rw [hp.left.consumed_eq] at hq
          exact Nat.lt_of_le_of_lt hk hq

/-- Two runs in lock step, with any bound. -/
theorem parse_parallel (h : S.Shares S' g g' k) (I : Interpretation α) (n θ : Nat)
    {limit depth place : Nat} {p p' : Parser} (hp : Twin S S' limit depth place p p') :
    Parallel S S' limit depth k (parse g I n θ p) (parse g' I n θ p') :=
  (parallel_of_bound h I limit n).1 depth θ place p p' hp

variable {I : Interpretation α} {s : Source} {limit θ : Nat} {q : Parser}

/-- What a parser that had drawn nothing before has drawn is consumed or pending, and never more
than one token of it has been pending. -/
theorem balanced_narrow_of_parse
    (h : ((ofSource s limit).parseExpression g I θ).parser? = some q) : q.Balanced ∧ q.Narrow :=
  ⟨parse_leaves kept_balanced g I _ θ (p := ofSource s limit) rfl q h,
    parse_leaves kept_narrow g I _ θ (p := ofSource s limit)
      ⟨Nat.le_refl 0, Nat.zero_le 1⟩ q h⟩

/-- **A parse depends only on what it has drawn.**  Let a parser that has drawn nothing yet read an
expression, by any table of rules, with any threshold and limit, and let it have drawn `k` tokens
in the end.  Then at most one token has been pending at a time, and all tokens that have been drawn
have been consumed but for at most one; behind a value, but for exactly one.  And with every source
that holds the same first `k` tokens, by every table that has the same rules for their kinds, the
parser yields the same value or error, and all its counters are the same.  The operations may be any
that fail, if they do, for the sake of their token alone, as those do that compute
(`Arithmetic.interpretation_uniform`) and those that build trees (`Expr.interpretation_uniform`). -/
theorem parse_depends_on_drawn (hI : I.Uniform) (g : Grammar) (s : Source) (limit θ : Nat)
    (h : ((ofSource s limit).parseExpression g I θ).parser? = some q) :
    q.pending.length ≤ q.stats.widest ∧ q.stats.widest ≤ 1 ∧
    (q.stats.drawn = q.stats.consumed ∨ q.stats.drawn = q.stats.consumed + 1) ∧
    (∀ a, (ofSource s limit).parseExpression g I θ = .value a q →
      q.stats.drawn = q.stats.consumed + 1) ∧
    ∀ (s' : Source) (g' : Grammar), s.endless.Shares s'.endless g g' q.stats.drawn →
      ∃ q', ((ofSource s' limit).parseExpression g' I θ).parser? = some q' ∧
        q'.stats = q.stats ∧
        ((ofSource s' limit).parseExpression g' I θ).result? =
          ((ofSource s limit).parseExpression g I θ).result? := by
  obtain ⟨hbalanced, hpending, hwidest⟩ := balanced_narrow_of_parse h
  refine ⟨hpending, hwidest, ?_, ?_, ?_⟩
  · rw [hbalanced]
    omega
  · intro a ha
    have hpos := parse_awaits g I _ θ (ofSource s limit) a q ha
    rw [hbalanced]
    omega
  · intro s' g' hshares
    -- a bound that is large enough for both runs
    have hfinished : (ofSource s limit).parseExpression g I θ ≠ .unfinished := by
      intro hu
      rw [hu] at h
      cases h
    have hrun := parse_stable (Nat.le_max_left (ofSource s limit).bound (ofSource s' limit).bound)
      hfinished
    have hparallel := parse_parallel hshares I
      (max (ofSource s limit).bound (ofSource s' limit).bound) θ (twin_ofSource s s' limit)
    rw [hrun] at hparallel
    obtain ⟨q', hq', hstats, hresult⟩ := hparallel.exists_twin h (Nat.le_refl _)
    have hended : parse g' I (max (ofSource s limit).bound (ofSource s' limit).bound) θ
        (ofSource s' limit) ≠ .unfinished := by
      intro hu
      rw [hu] at hq'
      cases hq'
    rw [parseExpression_eq_of_ended hI hended]
    exact ⟨q', hq', hstats, hresult⟩

/-- Neither the characters behind the parenthesis nor a rule for an exclamation mark have a part in
the value of the product. -/
theorem parse_depends_on_drawn_product :
    Arithmetic.float.interpretation.Uniform ∧
    ∃ q, (Calculator.parse Arithmetic.float '.' "2*3)+!" 8).parser? = some q ∧
      q.stats.drawn = 4 ∧
      (Source.line (.ofLine '.' "2*3)+!")).endless.Shares
        (Source.line (.ofLine '.' "2*3)!7")).endless Calculator.grammar
        (Calculator.grammar.setInfix .bang (.postfixed 7)) q.stats.drawn ∧
      ∃ q', ((Calculator.parser '.' "2*3)!7" 8).parseExpression
          (Calculator.grammar.setInfix .bang (.postfixed 7)) Arithmetic.float.interpretation
          0).parser? = some q' ∧ q'.stats = q.stats := by
  have hI := Arithmetic.float.interpretation_uniform
  obtain ⟨q, hq, hdrawn⟩ : ∃ q, (Calculator.parse Arithmetic.float '.' "2*3)+!" 8).parser? =
      some q ∧ q.stats.drawn = 4 := ⟨_, rfl, rfl⟩
  have hshares : (Source.line (.ofLine '.' "2*3)+!")).endless.Shares
      (Source.line (.ofLine '.' "2*3)!7")).endless Calculator.grammar
      (Calculator.grammar.setInfix .bang (.postfixed 7)) q.stats.drawn := by
    rw [hdrawn]
    constructor
    · decide
    · intro n hn
      constructor
      · rfl
      · have hkind : ∀ m, m < 4 →
            ((Source.line (.ofLine '.' "2*3)+!")).endless m).kind ≠ .bang := by decide
        rw [Grammar.infixRule?_setInfix, if_neg (hkind n hn)]
  obtain ⟨-, -, -, -, hsame⟩ := parse_depends_on_drawn hI Calculator.grammar
    (.line (.ofLine '.' "2*3)+!")) 8 0 hq
  obtain ⟨q', hq', hstats, -⟩ := hsame (.line (.ofLine '.' "2*3)!7"))
    (Calculator.grammar.setInfix .bang (.postfixed 7)) hshares
  exact ⟨hI, q, hq, hdrawn, hshares, q', hq', hstats⟩

end Parser

end Reckon

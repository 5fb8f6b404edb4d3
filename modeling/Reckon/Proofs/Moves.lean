/-
**What the counters of a parser tell.**

Whatever is asked of a parser, and however it ends, comes down to moves of a few kinds: to look some
places ahead, to take the next token, with the use of a rule being counted or not, and to go one
level deeper or back.  A list of moves says more than the state that it leads to: it says which
states the parser has passed on the way, how many tokens were pending there, and how far each look
has reached.  The counters keep what is needed of that.  The tokens drawn are those consumed and
those pending, the widest mark is the largest number of tokens that were pending at any moment, and
no token has been drawn that was not taken or looked at, or stood before one that was.

What one move does is said once (`Parser.Made`), and the accounts follow by induction on the moves.
The moves of a run are read off the run itself, beside the engine.

Main definitions:

* `Move`, `Parser.make`, `Parser.play` — moves, one after another;
* `Move.drawing`, `Parser.course` — the states that are passed;
* `Parser.asks` — how far the looks reach;
* `Parser.Accounts` — what the counters tell about the moves so far;
* `Parser.parseMoves`, `Parser.climbMoves`, `Operation.moves`, `Parser.moves` — the moves of a run,
  of an operation, and of a session.

Main results:

* `Parser.accounts_play` — **every list of moves keeps the accounts**;
* `Parser.parse_plays`, `Parser.session_plays` — a run, and a session, is the play of its moves;
* `Parser.session_accounts` — **the counters after a session**.
-/

import Mathlib.Data.List.Induction
import Mathlib.Logic.Function.Iterate
import Mathlib.Order.Bounds.Defs
import Reckon.Calculator
import Reckon.Expr
import Reckon.Parser.Session
import Reckon.Proofs.Machine

set_option autoImplicit false
set_option relaxedAutoImplicit false

namespace Reckon

/-! ### Moves -/

/-- What is done to a parser: a look at the token `distance` places ahead; taking the next token,
and counting the use of a rule for it, if it has one; going one level deeper, and going back. -/
inductive Move where
  | look (distance : Nat) (h : Parser.InReach distance := by exact Reckon.Parser.inReach_zero)
  | take (use : Option Fixity)
  | enter
  | leave
deriving DecidableEq, Repr

namespace Move

/-- The number of tokens that must be pending for it. -/
def wants : Move → Nat
  | look distance _ => distance + 1
  | take _ => 1
  | enter => 0
  | leave => 0

def taken : Move → Nat
  | take _ => 1
  | _ => 0

theorem taken_le_wants (m : Move) : m.taken ≤ m.wants := by
  cases m <;> simp [taken, wants]

/-- The states passed while the missing tokens are drawn, one by one. -/
def drawing (m : Move) (p : Parser) : List Parser :=
  (List.range (m.wants - p.pending.length)).map fun k => Parser.drawMany (k + 1) p

/-- How far it reaches into the stream, if it is a look. -/
def asks (m : Move) (p : Parser) : List Nat :=
  match m with
  | look distance _ => [p.stats.consumed + distance + 1]
  | _ => []

end Move

namespace Parser

/-- The state behind a move. -/
def make (p : Parser) : Move → Parser
  | .look distance h => (p.peek distance h).2
  | .take none => p.consume.2
  | .take (some .prefixed) => p.consume.2.countPrefix
  | .take (some .infixed) => p.consume.2.countInfix
  | .enter => p.enter
  | .leave => p.leave

def play (p : Parser) (ms : List Move) : Parser := ms.foldl make p

/-- All states that are passed, the first one and the last one included. -/
def course (p : Parser) : List Move → List Parser
  | [] => [p]
  | m :: ms => p :: m.drawing p ++ (p.make m).course ms

/-- How far the looks reach into the stream. -/
def asks (p : Parser) : List Move → List Nat
  | [] => []
  | m :: ms => m.asks p ++ (p.make m).asks ms

@[simp] theorem play_nil (p : Parser) : p.play [] = p := rfl

@[simp] theorem play_cons (p : Parser) (m : Move) (ms : List Move) :
    p.play (m :: ms) = (p.make m).play ms := rfl

@[simp] theorem play_append (p : Parser) (ms ms' : List Move) :
    p.play (ms ++ ms') = (p.play ms).play ms' := List.foldl_append

theorem course_concat (p : Parser) (ms : List Move) (m : Move) :
    p.course (ms ++ [m]) = p.course ms ++ (m.drawing (p.play ms) ++ [(p.play ms).make m]) := by
  induction ms generalizing p with
  | nil => simp [course]
  | cons m' ms ih => simp [course, ih]

theorem asks_concat (p : Parser) (ms : List Move) (m : Move) :
    p.asks (ms ++ [m]) = p.asks ms ++ m.asks (p.play ms) := by
  induction ms generalizing p with
  | nil => simp [asks]
  | cons m' ms ih => simp [asks, ih]

/-- The last state is one of those that are passed. -/
theorem play_mem_course (p : Parser) (ms : List Move) : p.play ms ∈ p.course ms := by
  induction ms generalizing p with
  | nil => simp [course]
  | cons m ms ih => simp [course, ih]

/-! ### One move -/

theorem source_drawMany (n : Nat) (p : Parser) :
    (drawMany n p).source = (fun s => s.next.2)^[n] p.source := by
  induction n generalizing p with
  | zero => rfl
  | succ n ih => rw [drawMany, ih, source_draw, Function.iterate_succ_apply]

theorem source_fill (count : Nat) (p : Parser) :
    (p.fill count).source = (fun s => s.next.2)^[count - p.pending.length] p.source :=
  source_drawMany _ p

theorem source_consume (p : Parser) : p.consume.2.source = (p.fill 1).source := by
  obtain ⟨t, ts, h⟩ := exists_pending_fill 0 p
  rw [consume_eq h]

/-- What a move does: it draws the tokens that are missing for it, notes how many are pending then,
and takes one away or none. -/
structure Made (p : Parser) (m : Move) (q : Parser) : Prop where
  source_eq : q.source = (fun s => s.next.2)^[m.wants - p.pending.length] p.source
  drawn_eq : q.stats.drawn = p.stats.drawn + (m.wants - p.pending.length)
  length_eq : q.pending.length + m.taken = max p.pending.length m.wants
  widest_eq : q.stats.widest = max p.stats.widest (max p.pending.length m.wants)
  consumed_eq : q.stats.consumed = p.stats.consumed + m.taken
  uses_le : q.stats.prefixUses + q.stats.infixUses ≤
    p.stats.prefixUses + p.stats.infixUses + m.taken

theorem made_look (p : Parser) (distance : Nat) (h : InReach distance) :
    p.Made (.look distance h) (p.make (.look distance h)) where
  source_eq := p.source_fill (distance + 1)
  drawn_eq := by rw [make, stats_peek, stats_fill]; rfl
  length_eq := p.length_pending_peek distance h
  widest_eq := by rw [make, stats_peek, stats_fill]; rfl
  consumed_eq := p.consumed_peek distance h
  uses_le := by rw [make, stats_peek, stats_fill]; exact Nat.le_refl _

theorem made_consume (p : Parser) : p.Made (.take none) p.consume.2 where
  source_eq := p.source_consume.trans (p.source_fill 1)
  drawn_eq := by rw [stats_consume, stats_fill]; rfl
  length_eq := by
    rw [length_pending_consume]
    simp only [Move.taken, Move.wants]
    omega
  widest_eq := by rw [stats_consume, stats_fill]; rfl
  consumed_eq := p.consumed_consume
  uses_le := by rw [stats_consume, stats_fill]; exact Nat.le_succ _

/-- A use is counted together with the token that it is the use of. -/
theorem made_take (p : Parser) (use : Option Fixity) :
    p.Made (.take use) (p.make (.take use)) := by
  obtain ⟨hsource, hdrawn, hlength, hwidest, hconsumed, -⟩ := p.made_consume
  have huses : p.consume.2.stats.prefixUses + p.consume.2.stats.infixUses =
      p.stats.prefixUses + p.stats.infixUses := by
    rw [stats_consume, stats_fill]
  cases use with
  | none => exact p.made_consume
  | some f =>
      cases f with
      | prefixed =>
          refine ⟨hsource, hdrawn, hlength, hwidest, hconsumed, ?_⟩
          simp only [make, countPrefix, Move.taken]
          omega
      | infixed =>
          refine ⟨hsource, hdrawn, hlength, hwidest, hconsumed, ?_⟩
          simp only [make, countInfix, Move.taken]
          omega

/-- Going deeper or back touches no counter; the number of pending tokens has been noted before. -/
theorem made_still {p q : Parser} {m : Move} (hm : m.wants = 0)
    (h : p.pending.length ≤ p.stats.widest) (hsource : q.source = p.source)
    (hpending : q.pending = p.pending) (hstats : q.stats = p.stats) : p.Made m q := by
  have htaken : m.taken = 0 := Nat.eq_zero_of_le_zero (hm ▸ m.taken_le_wants)
  constructor <;> simp [hm, htaken, hsource, hpending, hstats, h]

theorem made (p : Parser) (h : p.pending.length ≤ p.stats.widest) (m : Move) :
    p.Made m (p.make m) := by
  cases m with
  | look distance hd => exact p.made_look distance hd
  | take use => exact p.made_take use
  | enter => exact made_still rfl h rfl rfl rfl
  | leave => exact made_still rfl h rfl rfl rfl

/-! ### The accounts -/

/-- What the counters of `q` tell about the moves `ms` that have led there from `start`.  A token
that has been drawn has been consumed or is pending.  The widest pending row is that of some state
on the way, and no state had a wider one.  The tokens drawn reach as far as the furthest place that
was taken or looked at, and the source has yielded these and no other ones.  Every use of a rule is
that of a consumed token. -/
structure Accounts (start : Parser) (ms : List Move) (q : Parser) : Prop where
  play_eq : start.play ms = q
  drawn_eq : q.stats.drawn = q.stats.consumed + q.pending.length
  widest_isGreatest :
    IsGreatest {n | ∃ r ∈ start.course ms, r.pending.length = n} q.stats.widest
  uses_le : q.stats.prefixUses + q.stats.infixUses ≤ q.stats.consumed
  drawn_isGreatest :
    IsGreatest {n | n = q.stats.consumed ∨ n ∈ start.asks ms} q.stats.drawn
  source_eq : q.source = (fun s => s.next.2)^[q.stats.drawn] start.source

namespace Accounts

theorem start (source : Source) (maxDepth : Nat) :
    Accounts (ofSource source maxDepth) [] (ofSource source maxDepth) where
  play_eq := rfl
  drawn_eq := rfl
  widest_isGreatest := by
    refine ⟨⟨_, List.mem_singleton.2 rfl, rfl⟩, ?_⟩
    rintro n ⟨r, hr, rfl⟩
    rw [course, List.mem_singleton] at hr
    rw [hr]
    exact Nat.le_refl _
  uses_le := Nat.le_refl _
  drawn_isGreatest := by
    refine ⟨Or.inl rfl, ?_⟩
    rintro n (rfl | hn)
    · exact Nat.le_refl _
    · exact absurd hn List.not_mem_nil
  source_eq := rfl

variable {start q : Parser} {ms : List Move}

theorem length_le_widest (h : Accounts start ms q) : q.pending.length ≤ q.stats.widest := by
  refine h.widest_isGreatest.2 ⟨q, ?_, rfl⟩
  rw [← h.play_eq]
  exact start.play_mem_course ms

/-- The states on the way to one more move. -/
theorem widest_step (h : Accounts start ms q) (m : Move) :
    IsGreatest {n | ∃ r ∈ start.course (ms ++ [m]), r.pending.length = n}
      (q.make m).stats.widest := by
  have hwidest := (q.made h.length_le_widest m).widest_eq
  have hlength := (q.made h.length_le_widest m).length_eq
  have hold := h.length_le_widest
  obtain ⟨⟨r, hr, hrlen⟩, hle⟩ := h.widest_isGreatest
  have hmem : ∀ r, r ∈ start.course (ms ++ [m]) ↔
      r ∈ start.course ms ∨ (∃ k < m.wants - q.pending.length, drawMany (k + 1) q = r) ∨
        r = q.make m := by
    intro r
    rw [course_concat, h.play_eq]
    simp [Move.drawing]
  constructor
  · rcases Nat.lt_or_ge q.stats.widest m.wants with hlt | hge
    · -- the mark is that of the last token drawn for the move
      refine ⟨drawMany (m.wants - q.pending.length) q, (hmem _).2 (Or.inr (Or.inl ?_)), ?_⟩
      · exact ⟨m.wants - q.pending.length - 1, by omega, by congr 1; omega⟩
      · rw [length_pending_drawMany, hwidest]
        omega
    · refine ⟨r, (hmem r).2 (Or.inl hr), ?_⟩
      rw [hrlen, hwidest]
      omega
  · rintro n ⟨r', hr', rfl⟩
    rcases (hmem r').1 hr' with hr' | ⟨k, hk, rfl⟩ | rfl
    · have hrle := hle ⟨r', hr', rfl⟩
      rw [hwidest]
      omega
    · rw [length_pending_drawMany, hwidest]
      omega
    · rw [hwidest]
      omega

/-- A look reaches as far as it says, or no further than what had been drawn before. -/
theorem drawn_look (h : Accounts start ms q) (distance : Nat) (hd : InReach distance) :
    IsGreatest {n | n = (q.make (.look distance hd)).stats.consumed ∨
      n ∈ start.asks (ms ++ [.look distance hd])} (q.make (.look distance hd)).stats.drawn := by
  have hdrawn := (q.made_look distance hd).drawn_eq
  have hconsumed : (q.make (.look distance hd)).stats.consumed = q.stats.consumed :=
    (q.made_look distance hd).consumed_eq
  have hbalanced := h.drawn_eq
  obtain ⟨hmem, hle⟩ := h.drawn_isGreatest
  have hwants : (Move.look distance hd).wants = distance + 1 := rfl
  have hasks : ∀ n, n ∈ start.asks (ms ++ [.look distance hd]) ↔
      n ∈ start.asks ms ∨ n = q.stats.consumed + distance + 1 := by
    intro n
    rw [asks_concat, h.play_eq, List.mem_append]
    exact or_congr Iff.rfl List.mem_singleton
  constructor
  · rcases Nat.lt_or_ge q.pending.length (distance + 1) with hlt | hge
    · exact Or.inr ((hasks _).2 (Or.inr (by omega)))
    · have hsame : (q.make (.look distance hd)).stats.drawn = q.stats.drawn := by omega
      rcases hmem with heq | hold
      · exact Or.inl (by omega)
      · rw [← hsame] at hold
        exact Or.inr ((hasks _).2 (Or.inl hold))
  · rintro n (rfl | hn)
    · omega
    · rcases (hasks n).1 hn with hold | rfl
      · have hnle := hle (Or.inr hold)
        omega
      · omega

/-- Any other move draws no more than it takes. -/
theorem drawn_other (h : Accounts start ms q) {m : Move} (hm : m.wants = m.taken)
    (hasks : m.asks q = []) :
    IsGreatest {n | n = (q.make m).stats.consumed ∨ n ∈ start.asks (ms ++ [m])}
      (q.make m).stats.drawn := by
  have hdrawn := (q.made h.length_le_widest m).drawn_eq
  have hconsumed := (q.made h.length_le_widest m).consumed_eq
  have hbalanced := h.drawn_eq
  obtain ⟨hmem, hle⟩ := h.drawn_isGreatest
  rw [asks_concat, h.play_eq, hasks, List.append_nil]
  constructor
  · rcases Nat.lt_or_ge q.pending.length m.wants with hlt | hge
    · -- nothing was pending, so the token taken is the last one drawn
      exact Or.inl (by omega)
    · have hsame : (q.make m).stats.drawn = q.stats.drawn := by omega
      rcases hmem with heq | hold
      · exact Or.inl (by omega)
      · rw [← hsame] at hold
        exact Or.inr hold
  · rintro n (rfl | hn)
    · omega
    · have hnle := hle (Or.inr hn)
      omega

theorem drawn_step (h : Accounts start ms q) (m : Move) :
    IsGreatest {n | n = (q.make m).stats.consumed ∨ n ∈ start.asks (ms ++ [m])}
      (q.make m).stats.drawn := by
  cases m with
  | look distance hd => exact h.drawn_look distance hd
  | take use => exact h.drawn_other rfl rfl
  | enter => exact h.drawn_other rfl rfl
  | leave => exact h.drawn_other rfl rfl

/-- **One more move keeps the accounts.** -/
theorem step (h : Accounts start ms q) (m : Move) : Accounts start (ms ++ [m]) (q.make m) := by
  have hmade := q.made h.length_le_widest m
  have hdrawn := hmade.drawn_eq
  have hlength := hmade.length_eq
  have hconsumed := hmade.consumed_eq
  refine ⟨?_, ?_, h.widest_step m, ?_, h.drawn_step m, ?_⟩
  · rw [play_append, h.play_eq, play_cons, play_nil]
  · have hbalanced := h.drawn_eq
    have htaken := m.taken_le_wants
    omega
  · have hold := h.uses_le
    have huses := hmade.uses_le
    omega
  · rw [hmade.source_eq, h.source_eq, hdrawn, Nat.add_comm, Function.iterate_add_apply]

end Accounts

/-- **Every list of moves keeps the accounts.** -/
theorem accounts_play (source : Source) (maxDepth : Nat) (ms : List Move) :
    Accounts (ofSource source maxDepth) ms ((ofSource source maxDepth).play ms) := by
  induction ms using List.reverseRecOn with
  | nil => exact .start source maxDepth
  | append_singleton ms m ih =>
      have hstep := ih.step m
      rwa [← hstep.play_eq] at hstep

/-! ### The moves of a run -/

/-- The moves for asking for a token of a kind. -/
def expectMoves (wanted : Kind) (p : Parser) : List Move :=
  .look 0 :: if (p.peek 0).1.kind = wanted then [.take none] else []

theorem play_expectMoves (wanted : Kind) (p : Parser) :
    p.play (p.expectMoves wanted) = (p.expect wanted).2 := by
  by_cases h : (p.peek 0).1.kind = wanted
  · rw [expect_of_eq h, expectMoves, if_pos h]
    rfl
  · rw [expect_of_ne h, expectMoves, if_neg h]
    rfl

theorem play_acceptMoves (wanted : Kind) (p : Parser) :
    p.play (p.expectMoves wanted) = (p.accept wanted).2 := by
  by_cases h : (p.peek 0).1.kind = wanted
  · rw [accept_of_eq h, expectMoves, if_pos h]
    rfl
  · rw [accept_of_ne h, expectMoves, if_neg h]
    rfl

end Parser

/-- The moves behind a value; behind an error there are none. -/
def Outcome.further {α : Type} (o : Outcome α) (more : α → Parser → List Move) : List Move :=
  match o with
  | .value a q => more a q
  | .failure _ _ => []
  | .unfinished => []

/-- The moves of a rule, behind the token that it is the rule of. -/
def PrefixRule.moves {α : Type} (operand : Nat → Parser → Outcome α)
    (operandMoves : Nat → Parser → List Move) (rule : PrefixRule) (p : Parser) : List Move :=
  match rule with
  | .atom => []
  | .group => operandMoves 0 p ++ (operand 0 p).further fun _ q => q.expectMoves .rightParen
  | .unary threshold => operandMoves threshold p

def InfixRule.moves (operandMoves : Nat → Parser → List Move) (rule : InfixRule) (p : Parser) :
    List Move :=
  match rule with
  | .binary prec assoc => operandMoves (assoc.rightThreshold prec) p
  | .postfixed _ => []

namespace Parser

variable {α : Type}

mutual

def parseMoves (g : Grammar) (I : Interpretation α) : Nat → Nat → Parser → List Move
  | 0, _, _ => []
  | bound + 1, threshold, p =>
      if p.maxDepth ≤ p.depth then [.look 0]
      else
        let (t, q) := p.enter.consume
        match g.prefixRule? t.kind with
        | none => [.enter, .take none, .leave]
        | some rule =>
            .enter :: .take (some .prefixed) ::
              (rule.moves (parse g I bound) (parseMoves g I bound) q.countPrefix ++
                (rule.run I (parse g I bound) t q.countPrefix).further
                  (climbMoves g I bound threshold)) ++ [.leave]

def climbMoves (g : Grammar) (I : Interpretation α) : Nat → Nat → α → Parser → List Move
  | 0, _, _, _ => []
  | bound + 1, threshold, left, p =>
      let (prec, p) := p.precedence g
      .look 0 ::
        if threshold < prec then
          let (t, q) := p.consume
          match g.infixRule? t.kind with
          | none => [.take none]
          | some rule =>
              .take (some .infixed) ::
                (rule.moves (parseMoves g I bound) q.countInfix ++
                  (rule.run I (parse g I bound) left t q.countInfix).further
                    (climbMoves g I bound threshold))
        else []

end

section Equations

variable {g : Grammar} {I : Interpretation α} {n threshold : Nat} {left : α} {p : Parser}

theorem parseMoves_of_tooDeep (h : p.maxDepth ≤ p.depth) :
    parseMoves g I (n + 1) threshold p = [.look 0] := by
  rw [parseMoves, if_pos h]

theorem parseMoves_of_noPrefix (h : p.depth < p.maxDepth)
    (hr : g.prefixRule? p.enter.consume.1.kind = none) :
    parseMoves g I (n + 1) threshold p = [.enter, .take none, .leave] := by
  rw [parseMoves, if_neg (Nat.not_le_of_lt h)]
  simp only [hr]

theorem parseMoves_of_prefixRule {rule : PrefixRule} (h : p.depth < p.maxDepth)
    (hr : g.prefixRule? p.enter.consume.1.kind = some rule) :
    parseMoves g I (n + 1) threshold p = .enter :: .take (some .prefixed) ::
      (rule.moves (parse g I n) (parseMoves g I n) p.enter.consume.2.countPrefix ++
        (rule.run I (parse g I n) p.enter.consume.1 p.enter.consume.2.countPrefix).further
          (climbMoves g I n threshold)) ++ [.leave] := by
  rw [parseMoves, if_neg (Nat.not_le_of_lt h)]
  simp only [hr]

theorem climbMoves_of_le (h : (p.precedence g).1 ≤ threshold) :
    climbMoves g I (n + 1) threshold left p = [.look 0] := by
  rw [climbMoves]
  simp only [if_neg (Nat.not_lt_of_le h)]

theorem climbMoves_of_unknown (h : threshold < (p.precedence g).1)
    (hr : g.infixRule? (p.precedence g).2.consume.1.kind = none) :
    climbMoves g I (n + 1) threshold left p = [.look 0, .take none] := by
  rw [climbMoves]
  simp only [if_pos h, hr]

theorem climbMoves_of_lt {rule : InfixRule} (h : threshold < (p.precedence g).1)
    (hr : g.infixRule? (p.precedence g).2.consume.1.kind = some rule) :
    climbMoves g I (n + 1) threshold left p = .look 0 :: .take (some .infixed) ::
      (rule.moves (parseMoves g I n) (p.precedence g).2.consume.2.countInfix ++
        (rule.run I (parse g I n) left (p.precedence g).2.consume.1
          (p.precedence g).2.consume.2.countInfix).further (climbMoves g I n threshold)) := by
  rw [climbMoves]
  simp only [if_pos h, hr]

end Equations

end Parser

/-! ### Runs as plays -/

/-- The moves lead from `p` to the parser that is left, if any is. -/
def Outcome.Plays {α : Type} (p : Parser) (ms : List Move) (o : Outcome α) : Prop :=
  o.Leaves fun q => p.play ms = q

open Outcome (Plays Leaves)

theorem Outcome.Plays.andThen {α β : Type} {p : Parser} {ms : List Move} {o : Outcome α}
    {next : α → Parser → Outcome β} {more : α → Parser → List Move} (h : Plays p ms o)
    (hn : ∀ a q, Plays q (more a q) (next a q)) :
    Plays p (ms ++ o.further more) (o.andThen next) := by
  cases o with
  | value a q =>
      have hq : p.play ms = q := h q rfl
      refine (hn a q).mono ?_
      intro r hr
      rw [Parser.play_append, hq]
      exact hr
  | failure e q =>
      refine Leaves.failure ?_
      rw [Outcome.further, List.append_nil]
      exact h q rfl
  | unfinished => exact Leaves.unfinished

section Rules

variable {α : Type} {I : Interpretation α} {operand : Nat → Parser → Outcome α}
  {operandMoves : Nat → Parser → List Move}

theorem PrefixRule.run_plays (rule : PrefixRule)
    (h : ∀ θ q, Plays q (operandMoves θ q) (operand θ q)) (t : Token) (p : Parser) :
    Plays p (rule.moves operand operandMoves p) (rule.run I operand t p) := by
  cases rule with
  | atom => exact .ofExcept _ rfl
  | group =>
      exact (h 0 p).andThen fun inner q =>
        PrefixRule.close_leaves t inner (q.play_expectMoves .rightParen)
  | unary m =>
      exact Leaves.andThen (h m p) fun _ _ hq => .ofExcept _ hq

theorem InfixRule.run_plays (rule : InfixRule)
    (h : ∀ θ q, Plays q (operandMoves θ q) (operand θ q)) (left : α) (t : Token) (p : Parser) :
    Plays p (rule.moves operandMoves p) (rule.run I operand left t p) := by
  cases rule with
  | binary prec assoc => exact Leaves.andThen (h _ p) fun _ _ hq => .ofExcept _ hq
  | postfixed prec => exact .ofExcept _ rfl

end Rules

namespace Parser

variable {α : Type}

theorem plays_of_bound (g : Grammar) (I : Interpretation α) (n : Nat) :
    (∀ θ p, Plays p (parseMoves g I n θ p) (parse g I n θ p)) ∧
      ∀ θ left p, Plays p (climbMoves g I n θ left p) (climb g I n θ left p) := by
  induction n with
  | zero => exact ⟨fun _ _ => .unfinished, fun _ _ _ => .unfinished⟩
  | succ n ih =>
      obtain ⟨ihp, ihc⟩ := ih
      constructor
      · intro θ p
        rcases Nat.lt_or_ge p.depth p.maxDepth with h | h
        · cases hr : g.prefixRule? p.enter.consume.1.kind with
          | none =>
              rw [parse_of_noPrefix h hr, parseMoves_of_noPrefix h hr]
              exact .failure rfl
          | some rule =>
              rw [parse_of_prefixRule h hr, parseMoves_of_prefixRule h hr]
              have hbody := (rule.run_plays (I := I) ihp p.enter.consume.1
                p.enter.consume.2.countPrefix).andThen (ihc θ)
              refine hbody.mapParser ?_
              intro q hq
              rw [play_append, play_cons, play_cons]
              exact congrArg Parser.leave hq
        · rw [parse_of_tooDeep h, parseMoves_of_tooDeep h]
          exact .failure rfl
      · intro θ left p
        rcases Nat.lt_or_ge θ (p.precedence g).1 with h | h
        · cases hr : g.infixRule? (p.precedence g).2.consume.1.kind with
          | none =>
              rw [climb_of_unknown h hr, climbMoves_of_unknown h hr]
              exact .failure rfl
          | some rule =>
              rw [climb_of_lt h hr, climbMoves_of_lt h hr]
              exact (rule.run_plays (I := I) ihp left (p.precedence g).2.consume.1
                (p.precedence g).2.consume.2.countInfix).andThen (ihc θ)
        · rw [climb_of_le h, climbMoves_of_le h]
          exact .value rfl

/-- A run is the play of its moves. -/
theorem parse_plays (g : Grammar) (I : Interpretation α) (n θ : Nat) (p : Parser) :
    Plays p (parseMoves g I n θ p) (parse g I n θ p) :=
  (plays_of_bound g I n).1 θ p

end Parser

/-! ### Sessions -/

/-- The moves of an operation.  What is beyond reach is not looked at. -/
def Operation.moves {α : Type} (g : Grammar) (I : Interpretation α) (p : Parser) :
    Operation → List Move
  | .parse threshold => p.parseMoves g I p.bound threshold
  | .consume => [.take none]
  | .expect wanted => p.expectMoves wanted
  | .accept wanted => p.expectMoves wanted
  | .peek distance => if h : Parser.InReach distance.toNat then [.look distance.toNat h] else []
  | .precedence => [.look 0]

theorem Operation.run_plays {α : Type} {g : Grammar} {I : Interpretation α} {p q : Parser}
    (hp : p.Countable) {op : Operation} {r : Reply α} (h : op.run g I p = .ok (r, q)) :
    p.play (op.moves g I p) = q := by
  cases op with
  | parse θ => exact p.parse_plays g I p.bound θ q (Operation.parser?_of_run_parse h)
  | consume =>
      cases h
      rfl
  | expect wanted =>
      cases h
      exact p.play_expectMoves wanted
  | accept wanted =>
      cases h
      exact p.play_acceptMoves wanted
  | peek distance =>
      have hop : Parser.InReach distance.toNat := hp.inReach_of_run h
      rw [Operation.run_peek hop] at h
      cases h
      rw [moves, dif_pos hop]
      rfl
  | precedence =>
      cases h
      rfl

namespace Parser

/-- The moves of operations one after another; an operation without an answer is the last one. -/
def moves {α : Type} (g : Grammar) (I : Interpretation α) : List Operation → Parser → List Move
  | [], _ => []
  | op :: ops, p =>
      op.moves g I p ++
        match op.run g I p with
        | .ok (_, q) => moves g I ops q
        | .error _ => []

/-- A session is the play of its moves. -/
theorem session_plays {α : Type} {g : Grammar} {I : Interpretation α} {ops : List Operation}
    {p q : Parser} (hp : p.Countable) {rs : List (Reply α)} (h : session g I ops p = .ok (rs, q)) :
    p.play (moves g I ops p) = q := by
  induction ops generalizing p rs with
  | nil =>
      cases h
      rfl
  | cons op ops ih =>
      obtain ⟨r, p', rs', hop, hrest, -⟩ := session_cons_eq_ok.1 h
      rw [moves, hop, play_append, Operation.run_plays hp hop]
      exact ih (hp.run hop) hrest

/-- **The counters after a session.**  Whatever the table of rules, what its rules compute, the
source and the depth limit are: let a parser that has drawn nothing yet be asked for any operations
in any order, errors included, and let `ms` be the moves that this comes down to, the looks inside
of them included.  Then every token drawn has been consumed or is pending; the widest mark is the
largest number of tokens that were pending in any state on the way; no more rules have been used
than tokens consumed; and the tokens drawn are as many as the furthest place that has been reached,
by consuming or by looking ahead, and have been drawn from the source one by one.  The same holds in
every state inside of an operation. -/
theorem session_accounts {α : Type} (g : Grammar) (I : Interpretation α) (source : Source)
    (maxDepth : Nat) {ops : List Operation} {rs : List (Reply α)} {q : Parser}
    (h : session g I ops (ofSource source maxDepth) = .ok (rs, q)) :
    Accounts (ofSource source maxDepth) (moves g I ops (ofSource source maxDepth)) q ∧
      ∀ ms, ms <+: moves g I ops (ofSource source maxDepth) →
        Accounts (ofSource source maxDepth) ms ((ofSource source maxDepth).play ms) := by
  refine ⟨?_, fun ms _ => accounts_play source maxDepth ms⟩
  rw [← session_plays (countable_ofSource source maxDepth) h]
  exact accounts_play source maxDepth _

/-- Looking beyond the end of the line, an expression that breaks off, a token that is not there,
and one that is. -/
def brokenSession : List Operation := [.peek 4, .parse 0, .expect .plus, .accept .endOfInput]

/-- Four of the five tokens drawn are consumed, and one is pending; the look ahead that came first
has reached furthest. -/
theorem session_accounts_brokenSession :
    ∃ rs q, session Calculator.grammar Expr.interpretation brokenSession
        (ofSource (.line (.ofLine '.' "1+")) 5) = .ok (rs, q) ∧ q.stats = ⟨5, 4, 1, 1, 5⟩ ∧
      Accounts (ofSource (.line (.ofLine '.' "1+")) 5)
        (moves Calculator.grammar Expr.interpretation brokenSession
          (ofSource (.line (.ofLine '.' "1+")) 5)) q := by
  have hsession : ∃ rs q, session Calculator.grammar Expr.interpretation brokenSession
      (ofSource (.line (.ofLine '.' "1+")) 5) = .ok (rs, q) ∧ q.stats = ⟨5, 4, 1, 1, 5⟩ :=
    ⟨_, _, rfl, rfl⟩
  obtain ⟨rs, q, hq, hstats⟩ := hsession
  exact ⟨rs, q, hq, hstats, (session_accounts Calculator.grammar Expr.interpretation _ 5 hq).1⟩

end Parser

end Reckon

/-
**Within reach the defences of the parser are never needed.**

The parser of this library is an engine that checks itself, with the two sources that it knows and
the rules of a grammar as routines.  Where the one would defend itself, the other stops with a
fault; everywhere else the two do the same, step for step.  As there is no fault within reach, the
parser never takes the ways that it keeps for its defence: it makes up no token when it consumes or
looks ahead, and it refuses no operator in its loop.  The largest distance that a machine word can
hold is beyond reach: there the place looked at is not filled, and the check does fail.

Main definitions:

* `Parser.Guarded` — what the checks say of a parser;
* `Parser.checked` — the parser as the state of a checked engine;
* `Grammar.routines` — the rules of a grammar as routines;
* `Outcome.verdict`, `Checked.verdict` — how a run, or a use, of the parser ends.

Main results:

* `Parser.guarded` — the checks hold in every state;
* `Checked.parse_checked`, `Checked.session_checked` — **the parser is a checked engine**;
* `Parser.no_defence_needed` — no check fails within reach, the parser is a checked engine, and what
  the checks say of it.
-/

import Reckon.Calculator
import Reckon.Expr
import Reckon.Parser.Stream
import Reckon.Proofs.Checked

set_option autoImplicit false
set_option relaxedAutoImplicit false

namespace Reckon

/-! ### What the checks say -/

namespace Parser

/-- What the checks say of a parser, whatever state it is in.  After filling, as many tokens are
pending as have been asked for, so that a place within reach is there when it is looked at.  The
token that is taken was pending; none is made up.  Whenever the next token binds tighter than a
threshold, it is that token which is taken next, and it has a rule, of the precedence that has been
read. -/
structure Guarded (g : Grammar) (p : Parser) : Prop where
  filled : ∀ count, count ≤ (p.fill count).pending.length
  in_range : ∀ distance : UInt64, InReach distance.toNat →
    ∃ h : distance.toNat < (p.fill (distance + 1).toNat).pending.length,
      p.lookAhead distance = some ((p.fill (distance + 1).toNat).pending[distance.toNat],
        p.fill (distance + 1).toNat)
  taken : (p.fill 1).pending = p.consume.1 :: p.consume.2.pending
  dispatched : ∀ threshold, threshold < (p.precedence g).1 →
    (p.precedence g).2.consume.1 = (p.peek 0).1 ∧
      ∃ rule, g.infixRule? (p.precedence g).2.consume.1.kind = some rule ∧
        rule.precedence = (p.precedence g).1

theorem guarded (g : Grammar) (p : Parser) : Guarded g p where
  filled count := by
    rw [length_pending_fill]
    exact Nat.le_max_right _ _
  in_range distance h := by
    have hlt : distance.toNat < (p.fill (distance + 1).toNat).pending.length := by
      rw [toNat_add_one h, length_pending_fill]
      omega
    refine ⟨hlt, ?_⟩
    rw [lookAhead]
    simp only [List.getElem?_eq_getElem hlt, Option.map_some]
  taken := by
    obtain ⟨t, ts, h⟩ := p.exists_pending_fill 0
    rw [consume_eq h, h]
  dispatched threshold h := by
    have htaken : (p.precedence g).2.consume.1 = (p.peek 0).1 := by
      rw [consume_fst, stream_precedence, peek_fst]
    obtain ⟨rule, hrule, -⟩ := Grammar.exists_infixRule_of_lt h
    exact ⟨htaken, rule, htaken ▸ hrule, (Grammar.precedenceOf_some hrule).symm⟩

end Parser

/-! ### The parser as a checked engine -/

/-- The state of the parser. -/
def Parser.checked (p : Parser) : Checked.State Source :=
  ⟨p.source, p.pending, p.endSpan, p.depth, p.maxDepth, p.stats⟩

def Checked.State.parser (s : Checked.State Source) : Parser :=
  ⟨s.source, s.pending, s.endSpan, s.depth, s.maxDepth, s.stats⟩

/-- What a rule at the start of an expression does. -/
def PrefixRule.routine {α : Type} (I : Interpretation α) (rule : PrefixRule) (t : Token) :
    Checked.Routine α :=
  match rule with
  | .atom => .done (I.atom t)
  | .group =>
      .operand 0 fun inner =>
        .step (.expect .rightParen) fun
          | .ok closing => .done (.ok (I.group t inner closing))
          | .error e => .done (.error e)
  | .unary threshold => .operand threshold fun a => .done (I.unary t a)

def InfixRule.routine {α : Type} (I : Interpretation α) (rule : InfixRule) (left : α) (t : Token) :
    Checked.Routine α :=
  match rule with
  | .binary prec assoc =>
      .operand (assoc.rightThreshold prec) fun right => .done (I.binary left t right)
  | .postfixed _ => .done (I.postfixed left t)

def Grammar.routines {α : Type} (g : Grammar) (I : Interpretation α) : Checked.Rules α where
  starting? k := (g.prefixRule? k).map (PrefixRule.routine I)
  following? k := (g.infixRule? k).map fun rule => ⟨rule.precedence, rule.routine I⟩

theorem Grammar.starting?_routines {α : Type} (g : Grammar) (I : Interpretation α) (k : Kind) :
    (g.routines I).starting? k = (g.prefixRule? k).map (PrefixRule.routine I) := rfl

theorem Grammar.following?_routines {α : Type} (g : Grammar) (I : Interpretation α) (k : Kind) :
    (g.routines I).following? k =
      (g.infixRule? k).map fun rule => ⟨rule.precedence, rule.routine I⟩ := rfl

theorem Checked.Routine.operand_inReach {α : Type} {next : α → Checked.Routine α}
    (h : ∀ a, (next a).InReach) (θ : Nat) : (Checked.Routine.operand θ next).InReach := by
  refine ⟨trivial, ?_⟩
  rintro (e | a)
  · exact trivial
  · exact h a

theorem PrefixRule.routine_inReach {α : Type} (I : Interpretation α) (rule : PrefixRule)
    (t : Token) : (rule.routine I t).InReach := by
  cases rule with
  | atom => exact trivial
  | group =>
      refine Checked.Routine.operand_inReach ?_ 0
      intro inner
      refine ⟨trivial, ?_⟩
      rintro (e | closing) <;> exact trivial
  | unary θ =>
      refine Checked.Routine.operand_inReach ?_ θ
      intro a
      exact trivial

theorem InfixRule.routine_inReach {α : Type} (I : Interpretation α) (rule : InfixRule) (left : α)
    (t : Token) : (rule.routine I left t).InReach := by
  cases rule with
  | binary prec assoc =>
      refine Checked.Routine.operand_inReach ?_ _
      intro right
      exact trivial
  | postfixed prec => exact trivial

/-- The rules of a grammar look no further than at the next token. -/
theorem Grammar.routines_inReach {α : Type} (g : Grammar) (I : Interpretation α) :
    (g.routines I).InReach where
  starting k rule h t := by
    obtain ⟨rule', -, rfl⟩ := Option.map_eq_some_iff.1 h
    exact rule'.routine_inReach I t
  following k rule h left t := by
    obtain ⟨rule', -, rfl⟩ := Option.map_eq_some_iff.1 h
    exact rule'.routine_inReach I left t

/-- How a run of the parser ends. -/
def Outcome.verdict {α : Type} : Outcome α → Checked.Verdict Source (Except ParseError α)
  | .value a p => .done (.ok a) p.checked
  | .failure e p => .done (.error e) p.checked
  | .unfinished => .cut

namespace Outcome

variable {α β : Type}

theorem verdict_ofExcept (r : Except ParseError α) (p : Parser) :
    (Outcome.ofExcept r p).verdict = .done r p.checked := by
  cases r <;> rfl

theorem verdict_andThen {o : Outcome α} {next : α → Parser → Outcome β}
    {next' : α → Checked.State Source → Checked.Verdict Source (Except ParseError β)}
    (h : ∀ a p, next' a p.checked = (next a p).verdict) :
    o.verdict.andTry next' = (o.andThen next).verdict := by
  cases o with
  | value a p => exact h a p
  | failure e p => rfl
  | unfinished => rfl

theorem verdict_mapLeave (o : Outcome α) :
    o.verdict.mapState Checked.State.leave = (o.mapParser Parser.leave).verdict := by
  cases o <;> rfl

end Outcome

namespace Checked

/-! ### Steps -/

theorem drawTo_checked (count n : Nat) (p : Parser) (h : count - p.pending.length = n) :
    p.checked.drawTo Source.next count = (Parser.drawMany n p).checked := by
  induction n generalizing p with
  | zero =>
      rw [State.drawTo]
      exact if_neg (Nat.not_lt_of_le (Nat.le_of_sub_eq_zero h))
  | succ n ih =>
      have hlt : p.checked.pending.length < count := Nat.lt_of_sub_eq_succ h
      have hrest : count - p.draw.pending.length = n := by
        rw [Parser.pending_draw, List.length_append, List.length_singleton]
        omega
      rw [State.drawTo, if_pos hlt]
      exact ih p.draw hrest

theorem fill_checked (count : Nat) (p : Parser) :
    p.checked.fill Source.next count = (p.fill count).checked := by
  rw [State.fill, drawTo_checked count _ p rfl]
  rfl

theorem consume_checked (p : Parser) :
    consume Source.next p.checked = .done p.consume.1 p.consume.2.checked := by
  obtain ⟨t, ts, hp, hconsume⟩ := exists_consume Source.next p.checked
  rw [fill_checked] at hp hconsume
  rw [hconsume, Parser.consume_eq hp]
  rfl

theorem lookAhead_checked (distance : UInt64) (p : Parser) :
    peek Source.next distance p.checked =
      match p.lookAhead distance with
      | some (t, q) => .done t q.checked
      | none => .fault := by
  rw [peek, fill_eq, Verdict.andThen_done, fill_checked, Parser.lookAhead]
  simp only [Parser.checked]
  cases (p.fill (distance + 1).toNat).pending[distance.toNat]? <;> rfl

theorem peek_checked (p : Parser) :
    peek Source.next 0 p.checked = .done (p.peek 0).1 (p.peek 0).2.checked := by
  rw [lookAhead_checked, Parser.lookAhead_of_inReach (by decide)]
  rfl

theorem takeIf_checked {β : Type} (wanted : Kind) (taken left : Token → β) (p : Parser) :
    takeIf Source.next wanted taken left p.checked =
      if (p.peek 0).1.kind = wanted then
        .done (taken (p.peek 0).2.consume.1) (p.peek 0).2.consume.2.checked
      else .done (left (p.peek 0).1) (p.peek 0).2.checked := by
  rw [takeIf, peek_checked, Verdict.andThen_done, consume_checked]
  rfl

theorem expect_checked (wanted : Kind) (p : Parser) :
    takeIf Source.next wanted .ok (fun t => .error (.expected wanted t.kind t.span)) p.checked =
      .done (p.expect wanted).1 (p.expect wanted).2.checked := by
  rw [takeIf_checked]
  by_cases h : (p.peek 0).1.kind = wanted
  · rw [if_pos h, Parser.expect_of_eq h]
  · rw [if_neg h, Parser.expect_of_ne h]

theorem accept_checked (wanted : Kind) (p : Parser) :
    takeIf Source.next wanted (fun _ => true) (fun _ => false) p.checked =
      .done (p.accept wanted).1 (p.accept wanted).2.checked := by
  rw [takeIf_checked]
  by_cases h : (p.peek 0).1.kind = wanted
  · rw [if_pos h, Parser.accept_of_eq h]
  · rw [if_neg h, Parser.accept_of_ne h]

section Rules

variable {α : Type} (g : Grammar) (I : Interpretation α)

theorem precedenceOf_routines (k : Kind) : (g.routines I).precedenceOf k = g.precedenceOf k := by
  rw [Rules.precedenceOf, Grammar.precedenceOf, Grammar.following?_routines]
  cases g.infixRule? k <;> rfl

variable {g I} {R : Rules α} {operand : Nat → Parser → Outcome α}
  {operand' : Nat → State Source → Verdict Source (Except ParseError α)}

/-- Reading an operand and going on with its value. -/
theorem operand_checked (h : ∀ θ p, operand' θ p.checked = (operand θ p).verdict)
    {next : α → Routine α} {next' : α → Parser → Outcome α}
    (hn : ∀ a q, (next a).run Source.next R operand' q.checked = (next' a q).verdict) (θ : Nat)
    (p : Parser) :
    (Routine.operand θ next).run Source.next R operand' p.checked =
      ((operand θ p).andThen next').verdict := by
  rw [Routine.run_operand, h]
  exact Outcome.verdict_andThen hn

theorem prefixRule_checked (h : ∀ θ p, operand' θ p.checked = (operand θ p).verdict)
    (rule : PrefixRule) (t : Token) (p : Parser) :
    (rule.routine I t).run Source.next R operand' p.checked = (rule.run I operand t p).verdict := by
  cases rule with
  | atom => exact (Outcome.verdict_ofExcept _ p).symm
  | group =>
      refine operand_checked h ?_ 0 p
      intro inner q
      rw [Routine.run, perform, expect_checked, Verdict.andThen_done]
      obtain ⟨r, q'⟩ := q.expect .rightParen
      cases r <;> rfl
  | unary θ =>
      refine operand_checked h ?_ θ p
      intro a q
      exact (Outcome.verdict_ofExcept _ q).symm

theorem infixRule_checked (h : ∀ θ p, operand' θ p.checked = (operand θ p).verdict)
    (rule : InfixRule) (left : α) (t : Token) (p : Parser) :
    (rule.routine I left t).run Source.next R operand' p.checked =
      (rule.run I operand left t p).verdict := by
  cases rule with
  | binary prec assoc =>
      refine operand_checked h ?_ (assoc.rightThreshold prec) p
      intro right q
      exact (Outcome.verdict_ofExcept _ q).symm
  | postfixed prec => exact (Outcome.verdict_ofExcept _ p).symm

end Rules

/-! ### Runs -/

section Runs

variable {α : Type}

theorem checked_of_bound (g : Grammar) (I : Interpretation α) (n : Nat) :
    (∀ θ p, parse Source.next (g.routines I) n θ p.checked = (Parser.parse g I n θ p).verdict) ∧
      ∀ θ left p, climb Source.next (g.routines I) n θ left p.checked =
        (Parser.climb g I n θ left p).verdict := by
  induction n with
  | zero => exact ⟨fun _ _ => rfl, fun _ _ _ => rfl⟩
  | succ n ih =>
      obtain ⟨ihp, ihc⟩ := ih
      constructor
      · intro θ p
        rcases Nat.lt_or_ge p.depth p.maxDepth with h | h
        · have henter : p.checked.enter = p.enter.checked := rfl
          have hlimit : ¬ p.checked.maxDepth ≤ p.checked.depth := Nat.not_le_of_lt h
          rw [parse, if_neg hlimit, henter, consume_checked, Verdict.andThen_done]
          cases hr : g.prefixRule? p.enter.consume.1.kind with
          | none =>
              rw [Parser.parse_of_noPrefix h hr]
              simp only [Grammar.starting?_routines, hr, Option.map_none]
              rfl
          | some rule =>
              rw [Parser.parse_of_prefixRule h hr, ← Outcome.verdict_mapLeave,
                ← Outcome.verdict_andThen (ihc θ), ← prefixRule_checked ihp]
              simp only [Grammar.starting?_routines, hr, Option.map_some]
              rfl
        · have hlimit : p.checked.maxDepth ≤ p.checked.depth := h
          rw [parse, if_pos hlimit, peek_checked, Parser.parse_of_tooDeep h]
          rfl
      · intro θ left p
        have hprec : (p.precedence g).1 = g.precedenceOf (p.peek 0).1.kind := rfl
        have hstate : (p.precedence g).2 = (p.peek 0).2 := rfl
        rw [climb, peek_checked, Verdict.andThen_done, precedenceOf_routines, ← hprec, ← hstate]
        rcases Nat.lt_or_ge θ (p.precedence g).1 with h | h
        · -- the check passes, and the loop of the parser goes on as well
          obtain ⟨htaken, rule, hr, -⟩ := (Parser.guarded g p).dispatched θ h
          rw [if_pos h, consume_checked, Verdict.andThen_done, if_pos htaken,
            Parser.climb_of_lt h hr, ← Outcome.verdict_andThen (ihc θ), ← infixRule_checked ihp]
          simp only [Grammar.following?_routines, hr, Option.map_some]
          rfl
        · rw [if_neg (Nat.not_lt_of_le h), Parser.climb_of_le h]
          rfl

/-- The parser reads an expression as a checked engine does. -/
theorem parse_checked (g : Grammar) (I : Interpretation α) (n θ : Nat) (p : Parser) :
    parse Source.next (g.routines I) n θ p.checked = (Parser.parse g I n θ p).verdict :=
  (checked_of_bound g I n).1 θ p

def verdict {β : Type} : Except Silence (β × Parser) → Verdict Source β
  | .ok (b, p) => .done b p.checked
  | .error .endless => .cut
  | .error .overflow => .fault

theorem operate_checked (g : Grammar) (I : Interpretation α) (op : Operation) (p : Parser) :
    operate Source.next (g.routines I) (fun s => s.parser.bound) op p.checked =
      verdict (op.run g I p) := by
  rw [operate]
  cases op with
  | parse θ =>
      have hsame : p.checked.parser = p := rfl
      rw [perform, parse_checked, hsame, Operation.run, Parser.parseExpression]
      cases Parser.parse g I p.bound θ p <;> rfl
  | consume =>
      rw [perform, consume_checked]
      rfl
  | expect wanted =>
      rw [perform, expect_checked]
      rfl
  | accept wanted =>
      rw [perform, accept_checked]
      rfl
  | peek distance =>
      rw [perform, lookAhead_checked, Operation.run]
      cases p.lookAhead distance <;> rfl
  | precedence =>
      rw [perform, peek_checked, Verdict.andThen_done, Verdict.andThen_done, precedenceOf_routines]
      rfl

/-- The parser is used as a checked engine is. -/
theorem session_checked (g : Grammar) (I : Interpretation α) (ops : List Operation) (p : Parser) :
    session Source.next (g.routines I) (fun s => s.parser.bound) ops p.checked =
      verdict (Parser.session g I ops p) := by
  induction ops generalizing p with
  | nil => rfl
  | cons op ops ih =>
      rw [session, operate_checked, Parser.session]
      cases op.run g I p with
      | error e => cases e <;> rfl
      | ok next =>
          obtain ⟨r, q⟩ := next
          rw [verdict, Verdict.andThen_done, ih]
          simp only
          cases Parser.session g I ops q with
          | error e => cases e <;> rfl
          | ok last => rfl

end Runs

end Checked

namespace Parser

/-- **No defence is needed within reach.**  An engine that stops with a fault wherever the parser
would defend itself, and wherever it took another token than the one it has looked at, never does
so as long as nobody looks at a place beyond reach: not over any source, not with any rules,
whatever they do with the parser, and not in the course of any use, be the state that it starts
with what it may and however far a run is followed, the runs that never end included.  The parser
of this library is such an engine, with its own sources and the rules of any grammar, none of which
looks beyond reach, run for run and use for use.  In every state, filling brings the tokens that are
asked for, so that a place within reach is there and the token taken is one of them; and a token
that binds tighter than a threshold is the one that is taken next, and has a rule.  At the one
distance beyond reach, in contrast, the check always fails. -/
theorem no_defence_needed {σ α : Type} (pull : σ → Option Token × σ) (R : Checked.Rules α)
    (g : Grammar) (I : Interpretation α) :
    (R.InReach → ∀ (bound : Checked.State σ → Nat) (ops : List Operation),
      (∀ op ∈ ops, op.InReach) → ∀ s, Checked.session pull R bound ops s ≠ .fault) ∧
    (R.InReach → ∀ n θ s, Checked.parse pull R n θ s ≠ .fault) ∧
    (g.routines I).InReach ∧
    (∀ (ops : List Operation) (p : Parser),
      Checked.session Source.next (g.routines I) (fun s => s.parser.bound) ops p.checked =
        Checked.verdict (session g I ops p)) ∧
    (∀ (n θ : Nat) (p : Parser),
      Checked.parse Source.next (g.routines I) n θ p.checked = (parse g I n θ p).verdict) ∧
    (∀ p : Parser, Guarded g p) ∧
    ∀ (distance : UInt64) (s : Checked.State σ),
      ¬ InReach distance.toNat → s.pending.length < UInt64.size →
        Checked.peek pull distance s = .fault :=
  ⟨fun hR bound _ hops s => Checked.session_ne_fault pull hR bound hops s,
    fun hR n θ s => Checked.parse_ne_fault pull hR n θ s,
    g.routines_inReach I,
    fun ops p => Checked.session_checked g I ops p,
    fun n θ p => Checked.parse_checked g I n θ p,
    guarded g,
    fun _ _ h hs => Checked.peek_of_not_inReach pull h hs⟩

theorem no_defence_needed_calculator :
    (Calculator.grammar.routines Expr.interpretation).InReach ∧
      (∀ op ∈ [Operation.peek 5, .parse 0, .accept .plus], op.InReach) ∧
      Checked.session Source.next (Calculator.grammar.routines Expr.interpretation)
        (fun s => s.parser.bound) [.peek 5, .parse 0, .accept .plus]
        (ofSource (.line (.ofLine '.' "(1 2")) 8).checked ≠ .fault ∧
      Checked.parse Source.next (Calculator.grammar.routines Expr.interpretation) 3 0
        (ofSource (.line (.ofLine '.' "(1 2")) 8).checked ≠ .fault ∧
      ¬ InReach (18446744073709551615 : UInt64).toNat ∧
      (ofSource (.list []) 8).checked.pending.length < UInt64.size ∧
      Checked.peek Source.next 18446744073709551615 (ofSource (.list []) 8).checked = .fault := by
  have hrules := Calculator.grammar.routines_inReach Expr.interpretation
  have hops : ∀ op ∈ [Operation.peek 5, .parse 0, .accept .plus], op.InReach := by decide
  obtain ⟨hsession, hparse, -, -, -, -, hbeyond⟩ :=
    no_defence_needed Source.next (Calculator.grammar.routines Expr.interpretation)
      Calculator.grammar Expr.interpretation
  exact ⟨hrules, hops, hsession hrules _ _ hops _, hparse hrules 3 0 _, by decide, by decide,
    hbeyond _ _ (by decide) (by decide)⟩

/-- At the largest distance the number of tokens asked for wraps around to zero, so that filling
draws none, and the place looked at is not there. -/
theorem fault_beyond_reach :
    ¬ (18446744073709551615 : UInt64).toNat <
        ((ofSource (.list []) 256).fill
          ((18446744073709551615 : UInt64) + 1).toNat).pending.length ∧
      Checked.session Source.next (Calculator.grammar.routines Expr.interpretation)
        (fun s => s.parser.bound) [.peek 18446744073709551615]
        (ofSource (.list []) 256).checked = .fault := by
  refine ⟨by decide, ?_⟩
  rw [Checked.session_checked]
  rfl

end Parser

end Reckon

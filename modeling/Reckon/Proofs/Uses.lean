/-
**What a parse that succeeds has counted.**

Every use of a rule makes one node of the tree: a rule at the start of an expression an operand, a
group or a sign, a rule behind an expression an operator between two operands or behind one.  So
the counters of the uses tell how many nodes of either sort the tree has, and as a tree keeps its
tokens, they can be compared with the tokens that have been consumed: every node has one token of
its own, and a group has its right parenthesis besides.

In the calculator an operand is a number and an operator behind an expression has two operands, so
there is one number more than there are such operators.  Parentheses only come as the two ends of a
group, and what is between two ends is an expression again.

Main definitions:

* `Expr.prefixUses`, `Expr.infixUses` — the nodes of a tree that either sort of rule makes;
* `Parser.Tallies`, `Outcome.Tallied` — the counters tell the nodes of the tree that a run builds;
* `countOf` — the number of tokens of a kind;
* `Paired` — parentheses that are all closed, and all opened before;
* `Calculator.Built` — trees with the tokens that the rules of the calculator call for.

Main results:

* `Parser.parse_tallies` — **the counters count the nodes of the tree**, whatever the table of
  rules;
* `Paired.append`, `Paired.wrap` — how paired parentheses come about;
* `Calculator.Built.countOf_number`, `Calculator.Built.paired`, `Calculator.Built.length_tokens` —
  the tokens of a tree of the calculator;
* `Calculator.value_accounts` — **the accounts of a parse that succeeds**.
-/

import Reckon.Proofs.Evaluation
import Reckon.Proofs.Invariants

set_option autoImplicit false
set_option relaxedAutoImplicit false

namespace Reckon

/-! ### The nodes of a tree -/

namespace Expr

/-- The nodes that a rule at the start of an expression makes. -/
def prefixUses : Expr → Nat
  | atom _ => 1
  | group _ inner _ => inner.prefixUses + 1
  | unary _ operand => operand.prefixUses + 1
  | binary left _ right => left.prefixUses + right.prefixUses
  | postfixed operand _ => operand.prefixUses

/-- The nodes that a rule behind an expression makes. -/
def infixUses : Expr → Nat
  | atom _ => 0
  | group _ inner _ => inner.infixUses
  | unary _ operand => operand.infixUses
  | binary left _ right => left.infixUses + right.infixUses + 1
  | postfixed operand _ => operand.infixUses + 1

end Expr

namespace Parser

/-- Since the counters were `prefixes` and `infixes`, the nodes of the tree have been counted. -/
structure Tallies (prefixes infixes : Nat) (e : Expr) (q : Parser) : Prop where
  prefixUses_eq : q.stats.prefixUses = prefixes + e.prefixUses
  infixUses_eq : q.stats.infixUses = infixes + e.infixUses

/-! ### Steps -/

section Steps

variable (p : Parser)

@[simp] theorem prefixUses_peek : (p.peek 0).2.stats.prefixUses = p.stats.prefixUses := by
  rw [stats_peek, stats_fill]

@[simp] theorem infixUses_peek : (p.peek 0).2.stats.infixUses = p.stats.infixUses := by
  rw [stats_peek, stats_fill]

@[simp] theorem prefixUses_consume : p.consume.2.stats.prefixUses = p.stats.prefixUses := by
  rw [stats_consume, stats_fill]

@[simp] theorem infixUses_consume : p.consume.2.stats.infixUses = p.stats.infixUses := by
  rw [stats_consume, stats_fill]

theorem uses_expect (wanted : Kind) :
    (p.expect wanted).2.stats.prefixUses = p.stats.prefixUses ∧
      (p.expect wanted).2.stats.infixUses = p.stats.infixUses := by
  by_cases h : (p.peek 0).1.kind = wanted
  · rw [expect_of_eq h]
    simp
  · rw [expect_of_ne h]
    simp

theorem uses_precedence (g : Grammar) :
    (p.precedence g).2.stats.prefixUses = p.stats.prefixUses ∧
      (p.precedence g).2.stats.infixUses = p.stats.infixUses :=
  ⟨p.prefixUses_peek, p.infixUses_peek⟩

end Steps

end Parser

/-! ### Runs that build a tree -/

/-- With a tree, the run leaves counters that tell the nodes of the tree. -/
def Outcome.Tallied (prefixes infixes : Nat) (o : Outcome Expr) : Prop :=
  ∀ e q, o = .value e q → q.Tallies prefixes infixes e

namespace Outcome.Tallied

variable {a b a' b' : Nat} {o : Outcome Expr}

theorem value {e : Expr} {q : Parser} (h : q.Tallies a b e) : Tallied a b (.value e q) := by
  rintro e' q' ⟨⟩
  exact h

theorem failure (err : ParseError) (q : Parser) : Tallied a b (.failure err q) := by
  rintro e' q' ⟨⟩

theorem unfinished : Tallied a b .unfinished := by
  rintro e' q' ⟨⟩

theorem andThen {next : Expr → Parser → Outcome Expr} (h : Tallied a b o)
    (hn : ∀ e q, q.Tallies a b e → Tallied a' b' (next e q)) : Tallied a' b' (o.andThen next) := by
  cases o with
  | value e q => exact hn e q (h e q rfl)
  | failure err q => exact failure err q
  | unfinished => exact unfinished

theorem mapLeave (h : Tallied a b o) : Tallied a b (o.mapParser Parser.leave) := by
  cases o with
  | value e q =>
      obtain ⟨hstart, hbehind⟩ := h e q rfl
      exact value ⟨hstart, hbehind⟩
  | failure err q => exact failure err _
  | unfinished => exact unfinished

end Outcome.Tallied

open Outcome (Tallied)

section Rules

variable {operand : Nat → Parser → Outcome Expr} {a b : Nat} {p : Parser}

/-- The use of the rule is that of the root; the operand brings its own. -/
theorem PrefixRule.run_tallies (rule : PrefixRule)
    (h : ∀ θ q, Tallied q.stats.prefixUses q.stats.infixUses (operand θ q)) (t : Token)
    (hstart : p.stats.prefixUses = a + 1) (hbehind : p.stats.infixUses = b) :
    Tallied a b (rule.run Expr.interpretation operand t p) := by
  cases rule with
  | atom => exact .value ⟨hstart, hbehind⟩
  | group =>
      refine (h 0 p).andThen ?_
      rintro inner q ⟨hqp, hqi⟩
      obtain ⟨hep, hei⟩ := q.uses_expect .rightParen
      generalize q.expect .rightParen = next at hep hei
      obtain ⟨r, q'⟩ := next
      cases r with
      | ok closing =>
          refine Tallied.value (e := .group t inner closing) ⟨?_, ?_⟩
          · rw [hep, hqp, hstart, Expr.prefixUses]
            omega
          · rw [hei, hqi, hbehind, Expr.infixUses]
      | error err => exact .failure err q'
  | unary m =>
      refine (h m p).andThen ?_
      rintro e q ⟨hqp, hqi⟩
      refine Tallied.value (e := .unary t e) ⟨?_, ?_⟩
      · rw [hqp, hstart, Expr.prefixUses]
        omega
      · rw [hqi, hbehind, Expr.infixUses]

theorem InfixRule.run_tallies (rule : InfixRule)
    (h : ∀ θ q, Tallied q.stats.prefixUses q.stats.infixUses (operand θ q)) {left : Expr}
    (t : Token) (hstart : p.stats.prefixUses = a + left.prefixUses)
    (hbehind : p.stats.infixUses = b + left.infixUses + 1) :
    Tallied a b (rule.run Expr.interpretation operand left t p) := by
  cases rule with
  | binary prec assoc =>
      refine (h _ p).andThen ?_
      rintro right q ⟨hqp, hqi⟩
      refine .value ⟨?_, ?_⟩
      · rw [hqp, hstart, Expr.prefixUses, Nat.add_assoc]
      · rw [hqi, hbehind, Expr.infixUses]
        omega
  | postfixed prec => exact .value ⟨hstart, hbehind⟩

end Rules

namespace Parser

/-- The loop keeps the books about the tree that it extends. -/
theorem tallies_of_bound (g : Grammar) (n : Nat) :
    (∀ θ p, Tallied p.stats.prefixUses p.stats.infixUses
        (parse g Expr.interpretation n θ p)) ∧
      ∀ θ a b left p, p.Tallies a b left →
        Tallied a b (climb g Expr.interpretation n θ left p) := by
  induction n with
  | zero => exact ⟨fun _ _ => .unfinished, fun _ _ _ _ _ _ => .unfinished⟩
  | succ n ih =>
      obtain ⟨ihp, ihc⟩ := ih
      constructor
      · intro θ p
        rcases Nat.lt_or_ge p.depth p.maxDepth with h | h
        · cases hr : g.prefixRule? p.enter.consume.1.kind with
          | none =>
              rw [parse_of_noPrefix h hr]
              exact .failure _ _
          | some rule =>
              have hstart : p.enter.consume.2.countPrefix.stats.prefixUses =
                  p.stats.prefixUses + 1 := congrArg (· + 1) p.enter.prefixUses_consume
              have hbehind : p.enter.consume.2.countPrefix.stats.infixUses = p.stats.infixUses :=
                p.enter.infixUses_consume
              rw [parse_of_prefixRule h hr]
              exact ((rule.run_tallies ihp _ hstart hbehind).andThen
                fun e q hq => ihc θ _ _ e q hq).mapLeave
        · rw [parse_of_tooDeep h]
          exact .failure _ _
      · intro θ a b left p hp
        obtain ⟨hnp, hni⟩ := p.uses_precedence g
        rcases Nat.lt_or_ge θ (p.precedence g).1 with h | h
        · cases hr : g.infixRule? (p.precedence g).2.consume.1.kind with
          | none =>
              rw [climb_of_unknown h hr]
              exact .failure _ _
          | some rule =>
              have hstart : (p.precedence g).2.consume.2.countInfix.stats.prefixUses =
                  a + left.prefixUses := by
                rw [← hp.prefixUses_eq, ← hnp]
                exact (p.precedence g).2.prefixUses_consume
              have hbehind : (p.precedence g).2.consume.2.countInfix.stats.infixUses =
                  b + left.infixUses + 1 := by
                rw [← hp.infixUses_eq, ← hni]
                exact congrArg (· + 1) (p.precedence g).2.infixUses_consume
              rw [climb_of_lt h hr]
              exact (rule.run_tallies ihp _ hstart hbehind).andThen
                fun e q hq => ihc θ _ _ e q hq
        · rw [climb_of_le h]
          exact .value ⟨hnp.trans hp.prefixUses_eq, hni.trans hp.infixUses_eq⟩

/-- **The counters count the nodes of the tree**, whatever the table of rules. -/
theorem parse_tallies (g : Grammar) (n θ : Nat) (p : Parser) :
    Tallied p.stats.prefixUses p.stats.infixUses (parse g Expr.interpretation n θ p) :=
  (tallies_of_bound g n).1 θ p

/-- A run that computes counts the nodes of the tree that it computes the value of. -/
theorem exists_tallies_of_value {α : Type} {g : Grammar} {I : Interpretation α} {θ : Nat}
    {p q : Parser} {a : α} (h : p.parseExpression g I θ = .value a q) :
    ∃ e : Expr, e.Leads g θ p.stream ∧ p.Took e.tokens q ∧
      q.Tallies p.stats.prefixUses p.stats.infixUses e := by
  have hrun := parse_evaluates g I p.bound θ p
  rw [← parseExpression, h] at hrun
  generalize hbuilt : parse g Expr.interpretation p.bound θ p = built at hrun
  cases hrun with
  | value he =>
      obtain ⟨e, hlead, heval, htook⟩ := exists_leads_of_value hbuilt
      rw [Expr.eval_interpretation] at heval
      cases heval
      exact ⟨_, hlead, htook, parse_tallies g p.bound θ p _ _ hbuilt⟩

end Parser
/-! ### Tokens of a kind -/

def countOf (k : Kind) (w : List Token) : Nat := w.countP fun t => t.kind = k

section Counting

variable {k : Kind} {t : Token} {u v w : List Token}

@[simp] theorem countOf_nil : countOf k [] = 0 := rfl

@[simp] theorem countOf_append : countOf k (u ++ v) = countOf k u + countOf k v :=
  List.countP_append

theorem countOf_cons_of_eq (h : t.kind = k) : countOf k (t :: w) = countOf k w + 1 :=
  List.countP_cons_of_pos (decide_eq_true h)

theorem countOf_cons_of_ne (h : t.kind ≠ k) : countOf k (t :: w) = countOf k w :=
  List.countP_cons_of_neg (by simpa using h)

theorem countOf_eq_zero_iff : countOf k w = 0 ↔ ∀ t ∈ w, t.kind ≠ k := by
  simp [countOf, List.countP_eq_zero]

end Counting

/-- Every left parenthesis is closed, and every right parenthesis closes an earlier left one. -/
structure Paired (w : List Token) : Prop where
  closed : countOf .leftParen w = countOf .rightParen w
  opened : ∀ n, countOf .rightParen (w.take n) ≤ countOf .leftParen (w.take n)

namespace Paired

variable {u v w : List Token} {t : Token}

theorem singleton (hl : t.kind ≠ .leftParen) (hr : t.kind ≠ .rightParen) : Paired [t] where
  closed := by rw [countOf_cons_of_ne hl, countOf_cons_of_ne hr]; rfl
  opened n := by
    have hnone : countOf .rightParen ([t].take n) = 0 := by
      rw [countOf_eq_zero_iff]
      intro t' ht
      obtain rfl := List.mem_singleton.1 (List.mem_of_mem_take ht)
      exact hr
    omega

theorem append (hu : Paired u) (hv : Paired v) : Paired (u ++ v) where
  closed := by rw [countOf_append, countOf_append, hu.closed, hv.closed]
  opened n := by
    have hfront := hu.opened n
    have hback := hv.opened (n - u.length)
    rw [List.take_append, countOf_append, countOf_append]
    omega

theorem wrap {opening closing : Token} (hw : Paired w) (ho : opening.kind = .leftParen)
    (hc : closing.kind = .rightParen) : Paired (opening :: w ++ [closing]) := by
  have hor : opening.kind ≠ .rightParen := by
    rw [ho]
    decide
  have hcl : closing.kind ≠ .leftParen := by
    rw [hc]
    decide
  constructor
  · rw [List.cons_append, countOf_cons_of_eq ho, countOf_cons_of_ne hor, countOf_append,
      countOf_append, countOf_cons_of_ne hcl, countOf_cons_of_eq hc, hw.closed]
    rfl
  · intro n
    cases n with
    | zero => exact Nat.le_refl _
    | succ n =>
        -- the parenthesis in front makes up for the one behind, if that is reached
        have hinner := hw.opened n
        have hlast : countOf .rightParen ([closing].take (n - w.length)) ≤ 1 :=
          Nat.le_trans List.countP_le_length (List.length_take_le' _ _)
        rw [List.cons_append, List.take_succ_cons, List.take_append, countOf_cons_of_eq ho,
          countOf_cons_of_ne hor, countOf_append, countOf_append]
        omega

end Paired

namespace Calculator

/-! ### The tokens of a tree of the calculator -/

/-- The tree has the tokens that the rules of the calculator call for. -/
inductive Built : Expr → Prop
  | atom {t : Token} : t.kind = .number → Built (.atom t)
  | group {opening closing : Token} {inner : Expr} :
      opening.kind = .leftParen → Built inner → closing.kind = .rightParen →
        Built (.group opening inner closing)
  | unary {op : Token} {operand : Expr} :
      op.kind ∈ operators → Built operand → Built (.unary op operand)
  | binary {op : Token} {left right : Expr} :
      Built left → op.kind ∈ operators → Built right → Built (.binary left op right)

theorem built_of_matches {e : Expr} (h : e.Matches grammar) : Built e := by
  induction e with
  | atom t => exact .atom (prefixRule_atom.1 h)
  | group opening inner closing ih =>
      obtain ⟨ho, hinner, hc⟩ := h
      exact .group (prefixRule_group.1 ho) (ih hinner) hc
  | unary op operand ih =>
      obtain ⟨⟨m, hop⟩, hoperand⟩ := h
      refine .unary ?_ (ih hoperand)
      rcases (prefixRule_unary.1 hop).1 with hk | hk <;> simp [hk, operators]
  | binary left op right ihl ihr =>
      obtain ⟨⟨prec, assoc, hop⟩, hl, hr⟩ := h
      refine .binary (ihl hl) ?_ (ihr hr)
      rcases infixRule_binary.1 hop with ⟨hk | hk, -⟩ | ⟨hk | hk, -⟩ | ⟨hk, -⟩ <;>
        simp [hk, operators]
  | postfixed operand op ih =>
      obtain ⟨⟨prec, hop⟩, -⟩ := h
      exact absurd hop infixRule_postfixed

theorem kind_ne_of_mem {op : Token} {k : Kind} (h : op.kind ∈ operators)
    (hk : k ∉ operators) : op.kind ≠ k := by
  rintro rfl
  exact hk h

variable {e : Expr}

/-- Operands and operators between two operands take turns. -/
theorem Built.countOf_number (h : Built e) : countOf .number e.tokens = e.infixUses + 1 := by
  induction h with
  | atom ht => exact countOf_cons_of_eq ht
  | group ho _ hc ih =>
      rw [Expr.tokens, List.cons_append, countOf_cons_of_ne (by rw [ho]; decide), countOf_append,
        countOf_cons_of_ne (by rw [hc]; decide), ih]
      rfl
  | unary hop _ ih =>
      rw [Expr.tokens, countOf_cons_of_ne (kind_ne_of_mem hop (by decide)), ih]
      rfl
  | binary _ hop _ ihl ihr =>
      rw [Expr.tokens, countOf_append, countOf_cons_of_ne (kind_ne_of_mem hop (by decide)), ihl,
        ihr, Expr.infixUses]
      omega

/-- Parentheses are the two ends of a group. -/
theorem Built.paired (h : Built e) : Paired e.tokens := by
  induction h with
  | atom ht => exact .singleton (by rw [ht]; decide) (by rw [ht]; decide)
  | group ho _ hc ih => exact ih.wrap ho hc
  | unary hop _ ih =>
      have hsingle := Paired.singleton (kind_ne_of_mem hop (by decide))
        (kind_ne_of_mem hop (by decide))
      exact hsingle.append ih
  | binary _ hop _ ihl ihr =>
      have hsingle := Paired.singleton (kind_ne_of_mem hop (by decide))
        (kind_ne_of_mem hop (by decide))
      exact ihl.append (hsingle.append ihr)

/-- Every node has a token of its own, and a group has its right parenthesis besides. -/
theorem Built.length_tokens (h : Built e) :
    e.tokens.length = e.prefixUses + e.infixUses + countOf .rightParen e.tokens := by
  induction h with
  | atom ht =>
      rw [Expr.tokens, countOf_cons_of_ne (by rw [ht]; decide)]
      rfl
  | group ho _ hc ih =>
      rw [Expr.tokens, List.cons_append, countOf_cons_of_ne (by rw [ho]; decide), countOf_append,
        countOf_cons_of_eq hc, countOf_nil, List.length_cons, List.length_append, ih,
        List.length_singleton, Expr.prefixUses, Expr.infixUses]
      omega
  | unary hop _ ih =>
      rw [Expr.tokens, countOf_cons_of_ne (kind_ne_of_mem hop (by decide)), List.length_cons, ih,
        Expr.prefixUses, Expr.infixUses]
      omega
  | binary _ hop _ ihl ihr =>
      rw [Expr.tokens, countOf_append, countOf_cons_of_ne (kind_ne_of_mem hop (by decide)),
        List.length_append, List.length_cons, ihl, ihr, Expr.prefixUses, Expr.infixUses]
      omega

/-- No other kind has a part in the tree. -/
theorem Built.kind_mem (h : Built e) :
    ∀ t ∈ e.tokens, t.kind ∈ Kind.number :: .leftParen :: .rightParen :: operators := by
  induction h with
  | atom ht =>
      intro t hmem
      obtain rfl := List.mem_singleton.1 hmem
      rw [ht]
      decide
  | group ho _ hc ih =>
      intro t hmem
      simp only [Expr.tokens, List.cons_append, List.mem_cons, List.mem_append,
        List.not_mem_nil, or_false] at hmem
      rcases hmem with rfl | hmem | rfl
      · rw [ho]
        decide
      · exact ih t hmem
      · rw [hc]
        decide
  | unary hop _ ih =>
      intro t hmem
      rcases List.mem_cons.1 hmem with rfl | hmem
      · simp [hop]
      · exact ih t hmem
  | binary _ hop _ ihl ihr =>
      intro t hmem
      simp only [Expr.tokens, List.mem_append, List.mem_cons] at hmem
      rcases hmem with hmem | rfl | hmem
      · exact ihl t hmem
      · simp [hop]
      · exact ihr t hmem

/-! ### The accounts of a parse -/

/-- **The accounts of a parse that succeeds.**  Whatever the rules of the calculator compute, and
whatever the state of the parser and the threshold are: let `w` be the tokens that a run with a
value has consumed, and `prefixes` and `infixes` the uses of rules that it has counted.  Then `w`
has one number more than there are uses behind an expression; its parentheses are paired, and no
prefix of it has more right ones than left ones; it has one token for each use and one for each
right parenthesis; and neither `~` nor `!` nor the end of the input is in it. -/
theorem value_accounts {α : Type} {I : Interpretation α} {θ : Nat} {p q : Parser} {a : α}
    (h : p.parseExpression grammar I θ = .value a q) :
    ∃ w prefixes infixes, p.Took w q ∧
      q.stats.prefixUses = p.stats.prefixUses + prefixes ∧
      q.stats.infixUses = p.stats.infixUses + infixes ∧
      q.stats.consumed = p.stats.consumed + w.length ∧
      countOf .number w = infixes + 1 ∧
      countOf .leftParen w = countOf .rightParen w ∧
      (∀ v, v <+: w → countOf .rightParen v ≤ countOf .leftParen v) ∧
      w.length = prefixes + infixes + countOf .rightParen w ∧
      ∀ t ∈ w, t.kind ≠ .tilde ∧ t.kind ≠ .bang ∧ t.kind ≠ .endOfInput := by
  obtain ⟨e, hlead, htook, hstart, hbehind⟩ := Parser.exists_tallies_of_value h
  have hbuilt : Built e :=
    built_of_matches (Expr.fits_iff.1 ⟨hlead.fits, hlead.follower_le⟩).1
  have hpaired := hbuilt.paired
  refine ⟨e.tokens, e.prefixUses, e.infixUses, htook, hstart, hbehind, htook.consumed_eq,
    hbuilt.countOf_number, hpaired.closed, ?_, hbuilt.length_tokens, ?_⟩
  · intro v hv
    rw [List.prefix_iff_eq_take.1 hv]
    exact hpaired.opened v.length
  · intro t ht
    have hkind := hbuilt.kind_mem t ht
    refine ⟨?_, ?_, ?_⟩ <;> intro hk <;> rw [hk] at hkind <;> exact absurd hkind (by decide)

/-- A sign, a group, three numbers and two operators behind an expression: five uses of either a
sign, a group or a number, two of an operator, one right parenthesis, and eight tokens in all.  The
`)` at the end of the line is not one of them. -/
theorem value_accounts_signedGroup :
    ∃ a q, parse Arithmetic.float '.' "-(1+2)*3)" 5 = .value a q ∧
      q.stats.prefixUses = 5 ∧ q.stats.infixUses = 2 ∧ q.stats.consumed = 8 ∧
      ∃ w prefixes infixes, (parser '.' "-(1+2)*3)" 5).Took w q ∧
        q.stats.prefixUses = 0 + prefixes ∧ q.stats.infixUses = 0 + infixes ∧
        q.stats.consumed = 0 + w.length ∧ countOf .number w = infixes + 1 ∧
        countOf .leftParen w = countOf .rightParen w ∧
        (∀ v, v <+: w → countOf .rightParen v ≤ countOf .leftParen v) ∧
        w.length = prefixes + infixes + countOf .rightParen w ∧
        ∀ t ∈ w, t.kind ≠ .tilde ∧ t.kind ≠ .bang ∧ t.kind ≠ .endOfInput := by
  have hvalue : ∃ a q, parse Arithmetic.float '.' "-(1+2)*3)" 5 = .value a q ∧
      q.stats.prefixUses = 5 ∧ q.stats.infixUses = 2 ∧ q.stats.consumed = 8 :=
    ⟨_, _, rfl, rfl, rfl, rfl⟩
  obtain ⟨a, q, hq, hstart, hbehind, hconsumed⟩ := hvalue
  exact ⟨a, q, hq, hstart, hbehind, hconsumed, value_accounts hq⟩

end Calculator

end Reckon

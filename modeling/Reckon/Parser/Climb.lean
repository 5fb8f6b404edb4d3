/-
**Reading an expression by precedence climbing.**

To read an expression whose operators all bind tighter than a threshold, the parser consumes a
token, applies the rule of its kind at the start of an expression, and then, as long as the next
token binds tighter than the threshold, consumes it and applies the rule of its kind behind an
expression.  The rules read their operands in the same way, with thresholds of their own.  What a
rule makes of its operands is left to an interpretation, so one engine evaluates and builds trees.

Reading inside one another is limited by the parser's depth limit, but a grammar in which the end
of the input is itself an operator can keep the loop busy for ever, as the input never runs out of
ends.  The engine therefore counts down a bound, which is computed from the input.  If it can be
told from a token whether its operation fails, as with arithmetic and with trees, only such endless
runs reach the bound (`Parser.parseExpression_eq_of_ended`).  Of other interpretations this is not
said: an operation that accepts many ends of the input and refuses the next one would end a run that
the bound cuts off.

Main definitions:

* `Interpretation` — what the rules make of tokens and operands;
* `Outcome` — a value, an error, or an endless run, with the parser as it is left;
* `PrefixRule.run`, `InfixRule.run` — applying a rule, given how to read an operand;
* `Parser.parse`, `Parser.climb` — reading an expression, and its loop;
* `Parser.parseExpression` — reading an expression with the bound computed from the input.

Main results:

* `Parser.parse_of_tooDeep`, `Parser.parse_of_noPrefix`, `Parser.parse_of_prefixRule` — the ways
  to start an expression;
* `Parser.climb_of_le`, `Parser.climb_of_lt` — the ways to go on behind one;
* `Parser.parse_stable` — a larger bound changes no finished run.
-/

import Reckon.Parser.Basic

set_option autoImplicit false
set_option relaxedAutoImplicit false

namespace Reckon

/-- What the rules of a grammar make of tokens and operands. -/
structure Interpretation (α : Type) where
  atom (token : Token) : Except ParseError α
  group (opening : Token) (inner : α) (closing : Token) : α
  unary (operator : Token) (operand : α) : Except ParseError α
  binary (left : α) (operator : Token) (right : α) : Except ParseError α
  postfixed (operand : α) (operator : Token) : Except ParseError α

/-- How reading an expression ends: with a value, with an error, or not at all. -/
inductive Outcome (α : Type) where
  | value (result : α) (parser : Parser)
  | failure (error : ParseError) (parser : Parser)
  | unfinished
deriving Repr

namespace Outcome

variable {α β γ : Type}

/-- Continues behind a value; errors and endless runs stay as they are. -/
@[inline] def andThen (o : Outcome α) (next : α → Parser → Outcome β) : Outcome β :=
  match o with
  | value a p => next a p
  | failure e p => failure e p
  | unfinished => unfinished

/-- Ends with a result that has been computed without reading. -/
@[inline] def ofExcept (r : Except ParseError α) (p : Parser) : Outcome α :=
  match r with
  | .ok a => value a p
  | .error e => failure e p

@[inline] def mapParser (f : Parser → Parser) (o : Outcome α) : Outcome α :=
  match o with
  | value a p => value a (f p)
  | failure e p => failure e (f p)
  | unfinished => unfinished

/-- The value or the error, if the run has ended. -/
def result? : Outcome α → Option (Except ParseError α)
  | value a _ => some (.ok a)
  | failure e _ => some (.error e)
  | unfinished => none

/-- The value or the error of a run that has ended. -/
def result (o : Outcome α) (h : o ≠ unfinished) : Except ParseError α :=
  match o, h with
  | value a _, _ => .ok a
  | failure e _, _ => .error e
  | unfinished, h => absurd rfl h

/-- The parser as it is left, if the run has ended. -/
def parser? : Outcome α → Option Parser
  | value _ p => some p
  | failure _ p => some p
  | unfinished => none

@[simp] theorem andThen_value (a : α) (p : Parser) (next : α → Parser → Outcome β) :
    (value a p).andThen next = next a p := rfl

@[simp] theorem andThen_failure (e : ParseError) (p : Parser) (next : α → Parser → Outcome β) :
    (failure e p).andThen next = failure e p := rfl

@[simp] theorem andThen_unfinished (next : α → Parser → Outcome β) :
    (unfinished : Outcome α).andThen next = unfinished := rfl

@[simp] theorem ofExcept_ok (a : α) (p : Parser) : ofExcept (.ok a) p = value a p := rfl

@[simp] theorem ofExcept_error (e : ParseError) (p : Parser) :
    (ofExcept (.error e) p : Outcome α) = failure e p := rfl

@[simp] theorem mapParser_value (f : Parser → Parser) (a : α) (p : Parser) :
    (value a p).mapParser f = value a (f p) := rfl

@[simp] theorem mapParser_failure (f : Parser → Parser) (e : ParseError) (p : Parser) :
    (failure e p : Outcome α).mapParser f = failure e (f p) := rfl

@[simp] theorem mapParser_unfinished (f : Parser → Parser) :
    (unfinished : Outcome α).mapParser f = unfinished := rfl

/-- A value behind a step is behind a value of the step. -/
theorem andThen_eq_value {o : Outcome α} {next : α → Parser → Outcome β} {b : β} {r : Parser}
    (h : o.andThen next = .value b r) : ∃ a q, o = .value a q ∧ next a q = .value b r := by
  cases o with
  | value a q => exact ⟨a, q, rfl, h⟩
  | failure e q => cases h
  | unfinished => cases h

theorem mapParser_eq_value {o : Outcome α} {f : Parser → Parser} {a : α} {r : Parser}
    (h : o.mapParser f = .value a r) : ∃ q, o = .value a q ∧ f q = r := by
  cases o with
  | value b q =>
      cases h
      exact ⟨q, rfl, rfl⟩
  | failure e q => cases h
  | unfinished => cases h

theorem result_eq_iff {o : Outcome α} {h : o ≠ unfinished} {r : Except ParseError α} :
    o.result h = r ↔ o.result? = some r := by
  cases o with
  | value a p => simp [result, result?]
  | failure e p => simp [result, result?]
  | unfinished => exact absurd rfl h

@[simp] theorem ofExcept_ne_unfinished (r : Except ParseError α) (p : Parser) :
    ofExcept r p ≠ unfinished := by
  cases r <;> simp

end Outcome

/-! ### Rules -/

namespace Parser

def enter (p : Parser) : Parser := { p with depth := p.depth + 1 }

def leave (p : Parser) : Parser := { p with depth := p.depth - 1 }

def countPrefix (p : Parser) : Parser :=
  { p with stats := { p.stats with prefixUses := p.stats.prefixUses + 1 } }

def countInfix (p : Parser) : Parser :=
  { p with stats := { p.stats with infixUses := p.stats.infixUses + 1 } }

@[simp] theorem remaining_enter (p : Parser) : p.enter.remaining = p.remaining := rfl

@[simp] theorem remaining_leave (p : Parser) : p.leave.remaining = p.remaining := rfl

@[simp] theorem remaining_countPrefix (p : Parser) : p.countPrefix.remaining = p.remaining := rfl

@[simp] theorem remaining_countInfix (p : Parser) : p.countInfix.remaining = p.remaining := rfl

end Parser

/-- Applies the rule of `token`, which has been consumed at the start of an expression.  The
operand is read by `operand`, which is given the threshold. -/
@[inline] def PrefixRule.run {α : Type} (I : Interpretation α)
    (operand : Nat → Parser → Outcome α) (rule : PrefixRule) (token : Token) (p : Parser) :
    Outcome α :=
  match rule with
  | .atom => .ofExcept (I.atom token) p
  | .group =>
      (operand 0 p).andThen fun inner p =>
        match p.expect .rightParen with
        | (.ok closing, p) => .value (I.group token inner closing) p
        | (.error e, p) => .failure e p
  | .unary threshold =>
      (operand threshold p).andThen fun a p => .ofExcept (I.unary token a) p

/-- Applies the rule of `token`, which has been consumed behind the expression of value `left`. -/
@[inline] def InfixRule.run {α : Type} (I : Interpretation α)
    (operand : Nat → Parser → Outcome α) (rule : InfixRule) (left : α) (token : Token)
    (p : Parser) : Outcome α :=
  match rule with
  | .binary prec assoc =>
      (operand (assoc.rightThreshold prec) p).andThen fun right p =>
        .ofExcept (I.binary left token right) p
  | .postfixed _ => .ofExcept (I.postfixed left token) p

/-! ### The engine -/

namespace Parser

variable {α : Type}

mutual

/-- Reads an expression whose operators all bind tighter than `threshold`. -/
def parse (g : Grammar) (I : Interpretation α) : Nat → Nat → Parser → Outcome α
  | 0, _, _ => .unfinished
  | bound + 1, threshold, p =>
      if p.maxDepth ≤ p.depth then
        -- the token is looked at for its place only, and stays
        let (t, after) := p.peek 0
        .failure (.tooDeep p.maxDepth t.span) after
      else
        let (t, p) := p.enter.consume
        match g.prefixRule? t.kind with
        | none => .failure (.noPrefix t.kind t.text t.span) p.leave
        | some rule =>
            ((rule.run I (parse g I bound) t p.countPrefix).andThen
              (climb g I bound threshold)).mapParser leave

/-- Extends the expression of value `left` by the operators behind it, as long as they bind
tighter than `threshold`. -/
def climb (g : Grammar) (I : Interpretation α) : Nat → Nat → α → Parser → Outcome α
  | 0, _, _, _ => .unfinished
  | bound + 1, threshold, left, p =>
      let (prec, p) := p.precedence g
      if threshold < prec then
        let (t, p) := p.consume
        match g.infixRule? t.kind with
        -- a token of positive precedence has a rule, so this never happens
        | none => .failure (.unknownOperation t.kind t.span) p
        | some rule =>
            (rule.run I (parse g I bound) left t p.countInfix).andThen
              (climb g I bound threshold)
      else .value left p

end

/-! ### One equation for each way to go on -/

section Equations

variable {g : Grammar} {I : Interpretation α} {n threshold : Nat} {left : α} {p : Parser}

/-- At the depth limit nothing is consumed, and the next token takes the blame. -/
theorem parse_of_tooDeep (h : p.maxDepth ≤ p.depth) :
    parse g I (n + 1) threshold p =
      .failure (.tooDeep p.maxDepth (p.peek 0).1.span) (p.peek 0).2 := by
  rw [parse, if_pos h]

/-- A token without a rule at the start of an expression is consumed and refused. -/
theorem parse_of_noPrefix (h : p.depth < p.maxDepth)
    (hr : g.prefixRule? p.enter.consume.1.kind = none) :
    parse g I (n + 1) threshold p =
      .failure (.noPrefix p.enter.consume.1.kind p.enter.consume.1.text p.enter.consume.1.span)
        p.enter.consume.2.leave := by
  rw [parse, if_neg (Nat.not_le_of_lt h)]
  simp only [hr]

/-- A token with a rule is consumed; its rule is applied, and the loop goes on behind it. -/
theorem parse_of_prefixRule {rule : PrefixRule} (h : p.depth < p.maxDepth)
    (hr : g.prefixRule? p.enter.consume.1.kind = some rule) :
    parse g I (n + 1) threshold p =
      ((rule.run I (parse g I n) p.enter.consume.1 p.enter.consume.2.countPrefix).andThen
        (climb g I n threshold)).mapParser leave := by
  rw [parse, if_neg (Nat.not_le_of_lt h)]
  simp only [hr]

/-- The loop ends at a token that does not bind tighter than the threshold. -/
theorem climb_of_le (h : (p.precedence g).1 ≤ threshold) :
    climb g I (n + 1) threshold left p = .value left (p.precedence g).2 := by
  rw [climb]
  exact if_neg (Nat.not_lt_of_le h)

/-- A token that binds tighter is consumed; its rule is applied, and the loop goes on. -/
theorem climb_of_lt {rule : InfixRule} (h : threshold < (p.precedence g).1)
    (hr : g.infixRule? (p.precedence g).2.consume.1.kind = some rule) :
    climb g I (n + 1) threshold left p =
      (rule.run I (parse g I n) left (p.precedence g).2.consume.1
        (p.precedence g).2.consume.2.countInfix).andThen (climb g I n threshold) := by
  rw [climb]
  generalize p.precedence g = next at h hr
  simp only [h, hr, if_true]

/-- A token that binds tighter and has no rule would be refused. -/
theorem climb_of_unknown (h : threshold < (p.precedence g).1)
    (hr : g.infixRule? (p.precedence g).2.consume.1.kind = none) :
    climb g I (n + 1) threshold left p =
      .failure (.unknownOperation (p.precedence g).2.consume.1.kind
        (p.precedence g).2.consume.1.span) (p.precedence g).2.consume.2 := by
  rw [climb]
  generalize p.precedence g = next at h hr
  simp only [h, hr, if_true]

end Equations

/-- The bound that is computed from the input.  Each call consumes a token; the tokens are those
still to come, and behind them at most two ends of the input for every level of depth, if the
operations treat all ends alike. -/
def bound (p : Parser) : Nat := p.pending.length + p.source.size + 2 * p.maxDepth + 4

/-- Reads an expression whose operators all bind tighter than `threshold`. -/
def parseExpression (g : Grammar) (I : Interpretation α) (threshold : Nat) (p : Parser) :
    Outcome α :=
  parse g I p.bound threshold p

end Parser

/-! ### Larger bounds -/

/-- The first outcome is the second one, or no outcome at all. -/
def Outcome.Settles {α : Type} (o o' : Outcome α) : Prop := o = .unfinished ∨ o = o'

namespace Outcome.Settles

variable {α β : Type}

theorem refl (o : Outcome α) : Settles o o := Or.inr rfl

theorem andThen {o o' : Outcome α} {next next' : α → Parser → Outcome β} (h : Settles o o')
    (hn : ∀ a p, Settles (next a p) (next' a p)) : Settles (o.andThen next) (o'.andThen next') := by
  rcases h with h | h
  · exact Or.inl (by rw [h, Outcome.andThen_unfinished])
  · subst h
    cases o with
    | value a p => exact hn a p
    | failure e p => exact refl _
    | unfinished => exact refl _

theorem mapParser {o o' : Outcome α} (f : Parser → Parser) (h : Settles o o') :
    Settles (o.mapParser f) (o'.mapParser f) := by
  rcases h with h | h
  · exact Or.inl (by rw [h, Outcome.mapParser_unfinished])
  · exact Or.inr (by rw [h])

end Outcome.Settles

open Outcome (Settles)

theorem PrefixRule.run_settles {α : Type} {I : Interpretation α}
    {operand operand' : Nat → Parser → Outcome α}
    (h : ∀ n p, Settles (operand n p) (operand' n p)) (rule : PrefixRule) (t : Token) (p : Parser) :
    Settles (rule.run I operand t p) (rule.run I operand' t p) := by
  cases rule with
  | atom => exact Settles.refl _
  | group => exact (h 0 p).andThen (fun _ _ => Settles.refl _)
  | unary n => exact (h n p).andThen (fun _ _ => Settles.refl _)

theorem InfixRule.run_settles {α : Type} {I : Interpretation α}
    {operand operand' : Nat → Parser → Outcome α}
    (h : ∀ n p, Settles (operand n p) (operand' n p)) (rule : InfixRule) (left : α) (t : Token)
    (p : Parser) : Settles (rule.run I operand left t p) (rule.run I operand' left t p) := by
  cases rule with
  | binary prec assoc => exact (h (assoc.rightThreshold prec) p).andThen (fun _ _ => Settles.refl _)
  | postfixed prec => exact Settles.refl _

namespace Parser

variable {α : Type}

/-- One more unit of the bound changes no finished run. -/
theorem settles_succ (g : Grammar) (I : Interpretation α) (n : Nat) :
    (∀ threshold p, Settles (parse g I n threshold p) (parse g I (n + 1) threshold p)) ∧
      ∀ threshold left p,
        Settles (climb g I n threshold left p) (climb g I (n + 1) threshold left p) := by
  induction n with
  | zero => exact ⟨fun _ _ => Or.inl rfl, fun _ _ _ => Or.inl rfl⟩
  | succ n ih =>
      obtain ⟨ihp, ihc⟩ := ih
      constructor
      · intro threshold p
        rcases Nat.lt_or_ge p.depth p.maxDepth with h | h
        · cases hr : g.prefixRule? p.enter.consume.1.kind with
          | none => exact Or.inr (by rw [parse_of_noPrefix h hr, parse_of_noPrefix h hr])
          | some rule =>
              rw [parse_of_prefixRule h hr, parse_of_prefixRule h hr]
              exact ((rule.run_settles ihp _ _).andThen (ihc threshold)).mapParser leave
        · exact Or.inr (by rw [parse_of_tooDeep h, parse_of_tooDeep h])
      · intro threshold left p
        rcases Nat.lt_or_ge threshold (p.precedence g).1 with h | h
        · cases hr : g.infixRule? (p.precedence g).2.consume.1.kind with
          | none => exact Or.inr (by rw [climb_of_unknown h hr, climb_of_unknown h hr])
          | some rule =>
              rw [climb_of_lt h hr, climb_of_lt h hr]
              exact (rule.run_settles ihp _ _ _).andThen (ihc threshold)
        · exact Or.inr (by rw [climb_of_le h, climb_of_le h])

/-- A larger bound changes no finished run of the engine. -/
theorem parse_stable {g : Grammar} {I : Interpretation α} {n m threshold : Nat} {p : Parser}
    (hnm : n ≤ m) (h : parse g I n threshold p ≠ .unfinished) :
    parse g I m threshold p = parse g I n threshold p := by
  induction hnm with
  | refl => rfl
  | step _ ih =>
      rcases (settles_succ g I _).1 threshold p with hu | he
      · rw [ih] at hu
        exact absurd hu h
      · rw [← he, ih]

end Parser

end Reckon

/-
**Operator tables.**

A grammar says what to do with a token of each kind, separately for a token at the start of an
expression and for one behind an expression.  At the start a token is an operand by itself, opens
a group, or is an operator in front of its operand; behind an expression it is an operator between
two operands or one behind its operand.  Every kind has at most one rule in each place, and the
first rule registered stays.

Main definitions:

* `PrefixRule`, `InfixRule`, `InfixRule.precedence` — the rules for the two places;
* `Grammar`, `Grammar.precedenceOf` — the tables, and the precedence of a kind behind an
  expression, which is zero for a kind without a rule there;
* `Registration`, `Grammar.register`, `Grammar.registerAll` — adding rules;
* `Grammar.dump` — the filled places of both tables.

Main results:

* `Grammar.register_prefixed_eq_ok_iff`, `Grammar.register_infixed_eq_ok_iff` — a rule is accepted
  exactly when its place is empty;
* `Grammar.prefixRule?_setPrefix`, `Grammar.infixRule?_setInfix` — what an accepted rule changes.
-/

import Reckon.Operator
import Reckon.Error

set_option autoImplicit false
set_option relaxedAutoImplicit false

namespace Reckon

/-- What a token at the start of an expression means: it is an operand by itself, it opens a group,
which a right parenthesis closes, or it is an operator whose operand holds only operators of a
precedence above `threshold`. -/
inductive PrefixRule where
  | atom
  | group
  | unary (threshold : Nat)
deriving DecidableEq, Repr

/-- What a token behind an expression means: it is an operator between two operands or behind its
operand. -/
inductive InfixRule where
  | binary (prec : Nat) (assoc : Assoc)
  | postfixed (prec : Nat)
deriving DecidableEq, Repr

def InfixRule.precedence : InfixRule → Nat
  | binary prec _ => prec
  | postfixed prec => prec

@[simp] theorem InfixRule.precedence_binary (prec : Nat) (assoc : Assoc) :
    (InfixRule.binary prec assoc).precedence = prec := rfl

@[simp] theorem InfixRule.precedence_postfixed (prec : Nat) :
    (InfixRule.postfixed prec).precedence = prec := rfl

/-- The rules for every kind of token, in both places. -/
structure Grammar where
  prefixRule? : Kind → Option PrefixRule
  infixRule? : Kind → Option InfixRule

namespace Grammar

def empty : Grammar := ⟨fun _ => none, fun _ => none⟩

@[ext] theorem ext {g h : Grammar} (hp : ∀ k, g.prefixRule? k = h.prefixRule? k)
    (hi : ∀ k, g.infixRule? k = h.infixRule? k) : g = h := by
  cases g with
  | mk gp gi =>
      cases h with
      | mk p i =>
          congr
          · exact funext hp
          · exact funext hi

/-- The precedence of a kind behind an expression. -/
def precedenceOf (g : Grammar) (k : Kind) : Nat :=
  match g.infixRule? k with
  | some rule => rule.precedence
  | none => 0

theorem precedenceOf_some {g : Grammar} {k : Kind} {rule : InfixRule}
    (h : g.infixRule? k = some rule) : g.precedenceOf k = rule.precedence := by
  simp [precedenceOf, h]

theorem precedenceOf_none {g : Grammar} {k : Kind} (h : g.infixRule? k = none) :
    g.precedenceOf k = 0 := by
  simp [precedenceOf, h]

/-- A kind of positive precedence has a rule. -/
theorem exists_infixRule_of_lt {g : Grammar} {k : Kind} {n : Nat} (h : n < g.precedenceOf k) :
    ∃ rule, g.infixRule? k = some rule ∧ n < rule.precedence := by
  cases hk : g.infixRule? k with
  | none =>
      rw [precedenceOf_none hk] at h
      exact absurd h (Nat.not_lt_zero n)
  | some rule =>
      rw [precedenceOf_some hk] at h
      exact ⟨rule, rfl, h⟩

/-! ### Registration -/

def setPrefix (g : Grammar) (k : Kind) (rule : PrefixRule) : Grammar :=
  ⟨fun k' => if k' = k then some rule else g.prefixRule? k', g.infixRule?⟩

def setInfix (g : Grammar) (k : Kind) (rule : InfixRule) : Grammar :=
  ⟨g.prefixRule?, fun k' => if k' = k then some rule else g.infixRule? k'⟩

theorem prefixRule?_setPrefix (g : Grammar) (k k' : Kind) (rule : PrefixRule) :
    (g.setPrefix k rule).prefixRule? k' = if k' = k then some rule else g.prefixRule? k' := rfl

@[simp] theorem infixRule?_setPrefix (g : Grammar) (k : Kind) (rule : PrefixRule) :
    (g.setPrefix k rule).infixRule? = g.infixRule? := rfl

theorem infixRule?_setInfix (g : Grammar) (k k' : Kind) (rule : InfixRule) :
    (g.setInfix k rule).infixRule? k' = if k' = k then some rule else g.infixRule? k' := rfl

@[simp] theorem prefixRule?_setInfix (g : Grammar) (k : Kind) (rule : InfixRule) :
    (g.setInfix k rule).prefixRule? = g.prefixRule? := rfl

end Grammar

/-- A rule to be added, and the place where it goes. -/
inductive Registration where
  | prefixed (kind : Kind) (rule : PrefixRule)
  | infixed (kind : Kind) (rule : InfixRule)
deriving DecidableEq, Repr

namespace Registration

def kind : Registration → Kind
  | prefixed k _ => k
  | infixed k _ => k

def fixity : Registration → Fixity
  | prefixed _ _ => .prefixed
  | infixed _ _ => .infixed

end Registration

namespace Grammar

/-- Adds one rule, unless its place is taken. -/
def register (g : Grammar) : Registration → Except ParseError Grammar
  | .prefixed k rule =>
      match g.prefixRule? k with
      | some _ => .error (.alreadyRegistered k .prefixed)
      | none => .ok (g.setPrefix k rule)
  | .infixed k rule =>
      match g.infixRule? k with
      | some _ => .error (.alreadyRegistered k .infixed)
      | none => .ok (g.setInfix k rule)

theorem register_prefixed_eq_ok_iff {g g' : Grammar} {k : Kind} {rule : PrefixRule} :
    g.register (.prefixed k rule) = .ok g' ↔
      g.prefixRule? k = none ∧ g' = g.setPrefix k rule := by
  cases hk : g.prefixRule? k <;> simp [register, hk, eq_comm]

theorem register_infixed_eq_ok_iff {g g' : Grammar} {k : Kind} {rule : InfixRule} :
    g.register (.infixed k rule) = .ok g' ↔
      g.infixRule? k = none ∧ g' = g.setInfix k rule := by
  cases hk : g.infixRule? k <;> simp [register, hk, eq_comm]

/-- Adds rules in order.  A rule whose place is taken is refused and changes nothing.  The answers
are listed beside the grammar: `none` where the rule was accepted. -/
def registerAll (g : Grammar) : List Registration → List (Option ParseError) × Grammar
  | [] => ([], g)
  | r :: rs =>
      match g.register r with
      | .ok g' =>
          let (answers, last) := registerAll g' rs
          (none :: answers, last)
      | .error e =>
          let (answers, last) := registerAll g rs
          (some e :: answers, last)

/-! ### Text -/

/-- The indices of the kinds that satisfy a condition, in brackets. -/
def listed (filled : Kind → Bool) : String :=
  "[" ++ String.intercalate ", " ((Kind.all.filter filled).map (fun k => toString k.index)) ++ "]"

/-- The places of both tables that hold a rule. -/
def dump (g : Grammar) : String :=
  "Grammar \x7b prefix: " ++ listed (fun k => (g.prefixRule? k).isSome) ++
    ", infix: " ++ listed (fun k => (g.infixRule? k).isSome) ++ " \x7d"

end Grammar

end Reckon

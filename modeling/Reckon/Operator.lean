/-
**How tightly operators bind.**

Every operator in infix position has a precedence, a number: the larger, the tighter.  Zero is the
precedence of a token that is no infix operator.  The calculator names eight levels.  An operator
that groups to the right lets its right operand contain operators of its own precedence; one that
groups to the left does not.

Main definitions:

* `Level`, `Level.precedence` — the named levels, loosest first;
* `Assoc`, `Assoc.rightThreshold` — the two ways of grouping, and the precedence that every
  operator of a right operand has to exceed.

Main results:

* `Level.precedence_pos`, `Level.precedence_injective` — levels have different precedences, all
  above that of a token that is no operator;
* `Assoc.rightThreshold_lt_iff` — which precedences the right operand admits.
-/

set_option autoImplicit false
set_option relaxedAutoImplicit false

namespace Reckon

/-- The named levels of precedence. -/
inductive Level where
  | assignment
  | conditional
  | sum
  | product
  | exponent
  | prefixed
  | postfixed
  | call
deriving DecidableEq, Repr

namespace Level

/-- All levels, loosest first. -/
def all : List Level :=
  [assignment, conditional, sum, product, exponent, prefixed, postfixed, call]

def precedence : Level → Nat
  | assignment => 1
  | conditional => 2
  | sum => 3
  | product => 4
  | exponent => 5
  | prefixed => 6
  | postfixed => 7
  | call => 8

def name : Level → String
  | assignment => "assignment"
  | conditional => "conditional"
  | sum => "sum"
  | product => "product"
  | exponent => "exponent"
  | prefixed => "prefix"
  | postfixed => "postfix"
  | call => "call"

theorem mem_all (l : Level) : l ∈ all := by
  cases l <;> simp [all]

/-- Every level lies above the precedence of a token that is no operator. -/
theorem precedence_pos (l : Level) : 0 < l.precedence := by
  cases l <;> decide

theorem precedence_injective {a b : Level} (h : a.precedence = b.precedence) : a = b := by
  cases a <;> cases b <;> simp_all [precedence]

end Level

/-- The ways in which a chain of operators of one precedence is grouped. -/
inductive Assoc where
  | left
  | right
deriving DecidableEq, Repr

namespace Assoc

def all : List Assoc := [left, right]

def index : Assoc → Nat
  | left => 0
  | right => 1

def name : Assoc → String
  | left => "left"
  | right => "right"

/-- The precedence that the operators of a right operand have to exceed, where the operator itself
has precedence `prec`. -/
def rightThreshold (a : Assoc) (prec : Nat) : Nat :=
  match a with
  | left => prec
  | right => prec - 1

@[simp] theorem rightThreshold_left (prec : Nat) : left.rightThreshold prec = prec := rfl

@[simp] theorem rightThreshold_right (prec : Nat) : right.rightThreshold prec = prec - 1 := rfl

theorem rightThreshold_le (a : Assoc) (prec : Nat) : a.rightThreshold prec ≤ prec := by
  cases a with
  | left => exact Nat.le_refl prec
  | right => exact Nat.sub_le prec 1

/-- The right operand of an operator of positive precedence admits the tighter operators, and those
of equal precedence exactly when the operator groups to the right. -/
theorem rightThreshold_lt_iff {a : Assoc} {prec other : Nat} (h : 0 < prec) :
    a.rightThreshold prec < other ↔ prec < other ∨ (a = right ∧ prec = other) := by
  cases a with
  | left => simp
  | right =>
      simp only [rightThreshold_right, true_and]
      omega

end Assoc

end Reckon

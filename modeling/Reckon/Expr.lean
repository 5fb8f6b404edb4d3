/-
**Expression trees.**

The tree of an expression keeps every token that was read: an operand, a group with its
parentheses, or an operator with its operands.  It is what the engine yields when the rules build
instead of computing, and it can be evaluated afterwards.

Main definitions:

* `Expr`, `Expr.interpretation` — trees, and the interpretation of a grammar that builds them;
* `Expr.tokens` — the tokens of a tree in the order in which they were read;
* `Expr.eval` — the value of a tree under an interpretation, from the leaves upwards;
* `Expr.bracketed` — a text that shows the shape of a tree.

Main results:

* `Expr.eval_interpretation` — under the interpretation that builds trees, a tree is its own value.
-/

import Reckon.Parser.Climb

set_option autoImplicit false
set_option relaxedAutoImplicit false

namespace Reckon

/-- Expressions, with all their tokens. -/
inductive Expr where
  | atom (token : Token)
  | group (opening : Token) (inner : Expr) (closing : Token)
  | unary (operator : Token) (operand : Expr)
  | binary (left : Expr) (operator : Token) (right : Expr)
  | postfixed (operand : Expr) (operator : Token)
deriving DecidableEq, Repr

namespace Expr

/-- The interpretation that builds trees. -/
def interpretation : Interpretation Expr where
  atom token := .ok (.atom token)
  group opening inner closing := .group opening inner closing
  unary operator operand := .ok (.unary operator operand)
  binary left operator right := .ok (.binary left operator right)
  postfixed operand operator := .ok (.postfixed operand operator)

def tokens : Expr → List Token
  | atom t => [t]
  | group opening inner closing => opening :: inner.tokens ++ [closing]
  | unary op operand => op :: operand.tokens
  | binary left op right => left.tokens ++ op :: right.tokens
  | postfixed operand op => operand.tokens ++ [op]

/-- Every tree has a first token. -/
theorem tokens_ne_nil (e : Expr) : e.tokens ≠ [] := by
  cases e <;> simp [tokens]

/-- The value of a tree: operands first, the left one before the right one. -/
def eval {α : Type} (I : Interpretation α) : Expr → Except ParseError α
  | atom t => I.atom t
  | group opening inner closing =>
      match inner.eval I with
      | .ok a => .ok (I.group opening a closing)
      | .error e => .error e
  | unary op operand =>
      match operand.eval I with
      | .ok a => I.unary op a
      | .error e => .error e
  | binary left op right =>
      match left.eval I with
      | .ok a =>
          match right.eval I with
          | .ok b => I.binary a op b
          | .error e => .error e
      | .error e => .error e
  | postfixed operand op =>
      match operand.eval I with
      | .ok a => I.postfixed a op
      | .error e => .error e

/-- Under the interpretation that builds trees, a tree is its own value. -/
theorem eval_interpretation (e : Expr) : e.eval interpretation = .ok e := by
  induction e with
  | atom t => rfl
  | group opening inner closing ih =>
      rw [eval, ih]
      rfl
  | unary op operand ih =>
      rw [eval, ih]
      rfl
  | binary left op right ihl ihr =>
      rw [eval, ihl, ihr]
      rfl
  | postfixed operand op ih =>
      rw [eval, ih]
      rfl

/-- A text that shows the shape of a tree: square brackets around a group, round ones around an
operator with its operands. -/
def bracketed : Expr → String
  | atom t => t.text
  | group _ inner _ => "[" ++ inner.bracketed ++ "]"
  | unary op operand => "(" ++ op.text ++ operand.bracketed ++ ")"
  | binary left op right =>
      "(" ++ left.bracketed ++ " " ++ op.text ++ " " ++ right.bracketed ++ ")"
  | postfixed operand op => "(" ++ operand.bracketed ++ op.text ++ ")"

end Expr

end Reckon

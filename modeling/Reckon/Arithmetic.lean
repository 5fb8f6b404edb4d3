/-
**Arithmetic on values.**

The calculator needs a handful of operations of its numbers and asks nothing else of them, so all
that it does can be said for any such operations.  The program uses double-precision numbers.

Main definitions:

* `Arithmetic` — the operations;
* `Arithmetic.number` — the value of a number's text;
* `Arithmetic.interpretation` — what the rules of a grammar compute;
* `Arithmetic.float` — the operations on double-precision numbers.
-/

import Reckon.Parser.Climb
import Reckon.Decimal.Double

set_option autoImplicit false
set_option relaxedAutoImplicit false

namespace Reckon

/-- The operations of a calculator on its values, and how a value is written. -/
structure Arithmetic (α : Type) where
  ofNumeral : Numeral → α
  neg : α → α
  add : α → α → α
  sub : α → α → α
  mul : α → α → α
  div : α → α → α
  pow : α → α → α
  text : α → String

namespace Arithmetic

variable {α : Type}

/-- The value of a number's text, in which any character may stand for the point. -/
def number (A : Arithmetic α) (text : String) : Except ParseError α :=
  match Numeral.ofText text with
  | .ok n => .ok (A.ofNumeral n)
  | .error e => .error (.invalidNumber e)

def unary (A : Arithmetic α) (op : Token) (a : α) : Except ParseError α :=
  match op.kind with
  | .plus => .ok a
  | .minus => .ok (A.neg a)
  | k => .error (.unknownOperation k op.span)

def binary (A : Arithmetic α) (a : α) (op : Token) (b : α) : Except ParseError α :=
  match op.kind with
  | .plus => .ok (A.add a b)
  | .minus => .ok (A.sub a b)
  | .asterisk => .ok (A.mul a b)
  | .slash => .ok (A.div a b)
  | .caret => .ok (A.pow a b)
  | k => .error (.unknownOperation k op.span)

theorem unary_eq_ok {A : Arithmetic α} {op : Token} {a b : α} :
    A.unary op a = .ok b ↔ op.kind = .plus ∧ a = b ∨ op.kind = .minus ∧ A.neg a = b := by
  rw [unary]
  cases op.kind <;> simp

theorem binary_eq_ok {A : Arithmetic α} {op : Token} {a b c : α} :
    A.binary a op b = .ok c ↔
      op.kind = .plus ∧ A.add a b = c ∨ op.kind = .minus ∧ A.sub a b = c ∨
        op.kind = .asterisk ∧ A.mul a b = c ∨ op.kind = .slash ∧ A.div a b = c ∨
          op.kind = .caret ∧ A.pow a b = c := by
  rw [binary]
  cases op.kind <;> simp

/-- What the rules of a grammar compute.  No operator behind its operand is known. -/
def interpretation (A : Arithmetic α) : Interpretation α where
  atom token := A.number token.text
  group _ inner _ := inner
  unary := A.unary
  binary := A.binary
  postfixed _ op := .error (.unknownOperation op.kind op.span)

/-- Arithmetic on double-precision numbers.  A numeral has the value of the number nearest to it,
and a number is written by the shortest decimal that reads back. -/
def float : Arithmetic Float where
  ofNumeral n := Float.ofScientific n.mantissa true n.places
  neg a := -a
  add a b := a + b
  sub a b := a - b
  mul a b := a * b
  div a b := a / b
  pow a b := Float.pow a b
  text a := (Double.ofFloat a).text

end Arithmetic

end Reckon

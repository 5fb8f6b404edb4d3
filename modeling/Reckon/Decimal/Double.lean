/-
**The text of a double-precision number.**

A double is a sign with an integer below `2 ^ 53` times a power of two, an infinity, or no number
at all.  Its text is the shortest decimal that reads back to it, without an exponent however long
that makes it, and without a point where the value is whole.

Main definitions:

* `Double`, `Double.ofBits`, `Double.ofFloat` — the parts of a double, from its sixty-four bits;
* `Double.rounding` — the interval of the numbers that round to a finite double;
* `Double.text` — its text.
-/

import Reckon.Decimal.Shortest

set_option autoImplicit false
set_option relaxedAutoImplicit false

namespace Reckon

/-- The parts of a double-precision number.  A finite one is its significand times two to the power
of its exponent. -/
inductive Double where
  | nan
  | infinite (negative : Bool)
  | finite (negative : Bool) (significand : Nat) (exponent : Int)
deriving DecidableEq, Repr

namespace Double

/-- Two to the power fifty-two: the least significand of a number whose exponent is not the least
one. -/
def leading : Nat := 4503599627370496

/-- The parts, from the bits: one for the sign, eleven for the exponent, fifty-two for the
significand, whose leading bit is left out unless the exponent is the least one. -/
def ofBits (bits : Nat) : Double :=
  let fraction := bits % leading
  let biased := bits / leading % 2048
  let negative := bits / leading / 2048 % 2 == 1
  if biased = 2047 then
    if fraction = 0 then infinite negative else nan
  else if biased = 0 then finite negative fraction (-1074)
  else finite negative (leading + fraction) (Int.ofNat biased - 1075)

def ofFloat (x : Float) : Double := ofBits x.toBits.toNat

/-- The numbers that round to `m` times two to the power `q`: up to half the distance of its
neighbours.  Below a power of two the neighbour is half as far, unless the exponent is the least
one.  A number half-way between two neighbours goes to the even one. -/
def rounding (m : Nat) (q : Int) : Rounding :=
  let narrow := m = leading ∧ -1074 < q
  let factor := Nat.pow 2 (q - 2).toNat
  { low := (4 * m - if narrow then 1 else 2) * factor
    value := 4 * m * factor
    high := (4 * m + 2) * factor
    denominator := Nat.pow 2 (2 - q).toNat
    closed := m % 2 = 0 }

/-- The power of ten below the distance of the smallest doubles, so that a grid this fine has a
point in every interval. -/
def finest : Int := -324

/-- The text of a double without its sign. -/
def magnitude (m : Nat) (q : Int) : List Char :=
  match (rounding m q).shortest? finest with
  | some (d, k) => Decimal.positional d k
  | none => ['0']

def sign (negative : Bool) : List Char := if negative then ['-'] else []

def text : Double → String
  | nan => "NaN"
  | infinite negative => String.ofList (sign negative ++ ['i', 'n', 'f'])
  | finite negative m q => String.ofList (sign negative ++ if m = 0 then ['0'] else magnitude m q)

end Double

end Reckon

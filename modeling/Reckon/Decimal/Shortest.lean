/-
**The shortest decimal that reads back.**

A number that was rounded on its way into the machine stands for all numbers that round to it: an
interval around its value.  Any decimal inside reads back to the same number, so the number is best
written by a decimal of the fewest digits inside.  The decimals with a last digit at a given power
of ten form a grid; the coarsest grid with a point inside the interval gives the fewest digits, and
of its points the one nearest to the value is taken.  If a point of a grid lies inside, so does one
of the value's two neighbours on that grid, so only those are looked at.

Main definitions:

* `Rounding` — an interval around a value, in natural numbers over one denominator;
* `Rounding.Holds` — whether a decimal lies inside;
* `Rounding.nearest?` — the point of a grid that is taken, if a neighbour lies inside;
* `Rounding.shortest?` — the point taken from the coarsest grid that has one;
* `Decimal.positional` — a decimal written without an exponent.

Main results:

* `Rounding.holds_of_nearest?` — what is taken lies inside the interval;
* `Rounding.nearest?_eq_none_iff` — nothing is taken only if both neighbours lie outside;
* `Rounding.holds_of_shortest?` — so the decimal that is written reads back.
-/

set_option autoImplicit false
set_option relaxedAutoImplicit false

namespace Reckon

/-- A value and the interval of the numbers that round to it, all over one denominator.  The ends
belong to the interval if it is `closed`. -/
structure Rounding where
  low : Nat
  value : Nat
  high : Nat
  denominator : Nat
  closed : Bool
deriving DecidableEq, Repr

namespace Rounding

/-- The factor that the three numbers get so that they can be compared with the points of the grid
of ten to the power `k`. -/
def scale (k : Int) : Nat := Nat.pow 10 (-k).toNat

/-- The distance of two points of the grid of ten to the power `k`, scaled likewise. -/
def step (r : Rounding) (k : Int) : Nat := r.denominator * Nat.pow 10 k.toNat

/-- Whether `d` times ten to the power `k` lies inside the interval. -/
def Holds (r : Rounding) (d : Nat) (k : Int) : Prop :=
  if r.closed then r.low * scale k ≤ d * r.step k ∧ d * r.step k ≤ r.high * scale k
  else r.low * scale k < d * r.step k ∧ d * r.step k < r.high * scale k

instance (r : Rounding) (d : Nat) (k : Int) : Decidable (r.Holds d k) := by
  unfold Holds
  infer_instance

/-- The neighbour of the value from below on the grid. -/
def below (r : Rounding) (k : Int) : Nat := r.value * scale k / r.step k

/-- The neighbour of the value on the grid that is taken: the nearer of those inside, and the upper
one if they are equally near. -/
def nearest? (r : Rounding) (k : Int) : Option Nat :=
  let d := r.below k
  -- the lower neighbour, if it lies inside and is strictly nearer or the only one
  if r.Holds d k ∧ (2 * (r.value * scale k) < (2 * d + 1) * r.step k ∨ ¬ r.Holds (d + 1) k) then
    some d
  else if r.Holds (d + 1) k then some (d + 1)
  else none

/-- What is taken lies inside. -/
theorem holds_of_nearest? {r : Rounding} {k : Int} {d : Nat} (h : r.nearest? k = some d) :
    r.Holds d k := by
  simp only [nearest?] at h
  split at h
  · next hb =>
      cases h
      exact hb.1
  · split at h
    · next ha =>
        cases h
        exact ha
    · exact absurd h (by simp)

/-- Nothing is taken only if both neighbours lie outside. -/
theorem nearest?_eq_none_iff {r : Rounding} {k : Int} :
    r.nearest? k = none ↔ ¬ r.Holds (r.below k) k ∧ ¬ r.Holds (r.below k + 1) k := by
  simp only [nearest?]
  by_cases hb : r.Holds (r.below k) k <;> by_cases ha : r.Holds (r.below k + 1) k
  · simp only [hb, ha, not_true_eq_false, or_false, true_and, if_true, and_self, iff_false]
    split <;> simp
  all_goals simp [hb, ha]

/-! ### The coarsest grid -/

/-- A power of ten above the upper end of the interval, so that no coarser grid has a point inside:
three tenths of the number of its binary digits, rounded generously. -/
def top (r : Rounding) : Nat := (Nat.log2 (r.high / r.denominator) + 1) * 31 / 100 + 1

/-- The powers of ten from `high` down to `low`. -/
def exponents (high low : Int) : List Int :=
  (List.range (high + 1 - low).toNat).map (fun i : Nat => high - (i : Int))

theorem mem_exponents {high low k : Int} : k ∈ exponents high low ↔ low ≤ k ∧ k ≤ high := by
  simp only [exponents, List.mem_map, List.mem_range]
  constructor
  · rintro ⟨i, hi, rfl⟩
    omega
  · rintro ⟨hl, hh⟩
    exact ⟨(high - k).toNat, by omega, by omega⟩

/-- The point taken from the coarsest grid that has one, no finer than ten to the power `low`: a
decimal and its power of ten. -/
def shortest? (r : Rounding) (low : Int) : Option (Nat × Int) :=
  (exponents r.top low).findSome? (fun k => (r.nearest? k).map (fun d => (d, k)))

/-- The decimal that is taken lies inside. -/
theorem holds_of_shortest? {r : Rounding} {low : Int} {d : Nat} {k : Int}
    (h : r.shortest? low = some (d, k)) : r.Holds d k := by
  obtain ⟨k', _, hk⟩ := List.exists_of_findSome?_eq_some h
  obtain ⟨d', hd, heq⟩ := Option.map_eq_some_iff.1 hk
  cases heq
  exact holds_of_nearest? hd

end Rounding

/-! ### Writing a decimal -/

namespace Decimal

/-- The digits of a number, at least one. -/
def digits (n : Nat) : List Char := Nat.toDigits 10 n

/-- A run of digits, filled up in front with zeros to at least `width`. -/
def padded (width : Nat) (cs : List Char) : List Char :=
  List.replicate (width - cs.length) '0' ++ cs

/-- The decimal `d` times ten to the power `k`, written without an exponent: zeros are appended, or
a point is set with at least one digit before it. -/
def positional (d : Nat) (k : Int) : List Char :=
  if 0 ≤ k then digits d ++ List.replicate k.toNat '0'
  else
    let places := (-k).toNat
    let cs := padded (places + 1) (digits d)
    cs.take (cs.length - places) ++ '.' :: cs.drop (cs.length - places)

example : positional 12 1 = ['1', '2', '0'] := by decide

example : positional 12 (-1) = ['1', '.', '2'] := by decide

example : positional 12 (-3) = ['0', '.', '0', '1', '2'] := by decide

end Decimal

end Reckon

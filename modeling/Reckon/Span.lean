/-
**Stretches of a line.**

A `Span` names the characters of a line from `start` up to, and not including, `stop`.  Offsets
count characters.  Nothing forces `start ≤ stop`: a span handed in from outside may be turned
around, and its length is then zero.

Main definitions:

* `Span.length`, `Span.isEmpty` — how many characters a span holds, and whether its ends meet;
* `Span.point` — the empty span at an offset, used for the end of the input;
* `Span.le`, `Span.sort` — the order by `start`, then by `stop`.

Main results:

* `Span.length_point`, `Span.length_pos_iff` — the length in terms of the ends;
* `Span.le_trans`, `Span.le_total` — the order is a total preorder, so sorting is well defined.
-/

set_option autoImplicit false
set_option relaxedAutoImplicit false

namespace Reckon

/-- The characters of a line from `start` up to `stop`. -/
structure Span where
  start : Nat
  stop : Nat
deriving DecidableEq, Repr

namespace Span

def point (n : Nat) : Span := ⟨n, n⟩

/-- The number of characters; zero for a span that is turned around. -/
def length (s : Span) : Nat := s.stop - s.start

def isEmpty (s : Span) : Bool := s.start == s.stop

@[simp] theorem start_point (n : Nat) : (point n).start = n := rfl

@[simp] theorem stop_point (n : Nat) : (point n).stop = n := rfl

@[simp] theorem length_point (n : Nat) : (point n).length = 0 := Nat.sub_self n

@[simp] theorem isEmpty_iff {s : Span} : s.isEmpty = true ↔ s.start = s.stop := by
  simp [isEmpty]

theorem length_pos_iff {s : Span} : 0 < s.length ↔ s.start < s.stop := by
  exact Nat.sub_pos_iff_lt

/-! ### Order -/

def le (a b : Span) : Bool :=
  a.start < b.start || (a.start == b.start && a.stop ≤ b.stop)

theorem le_iff {a b : Span} :
    le a b = true ↔ a.start < b.start ∨ (a.start = b.start ∧ a.stop ≤ b.stop) := by
  simp [le]

theorem le_trans (a b c : Span) (hab : le a b = true) (hbc : le b c = true) :
    le a c = true := by
  rw [le_iff] at *
  omega

theorem le_total (a b : Span) : (le a b || le b a) = true := by
  rw [Bool.or_eq_true, le_iff, le_iff]
  omega

def sort (spans : List Span) : List Span := spans.mergeSort le

theorem sort_perm (spans : List Span) : (sort spans).Perm spans :=
  List.mergeSort_perm spans le

theorem sort_pairwise (spans : List Span) :
    (sort spans).Pairwise (fun a b => le a b = true) :=
  List.pairwise_mergeSort le_trans le_total spans

/-! ### Text -/

def shown (s : Span) : String := toString s.start ++ ".." ++ toString s.stop

/-- A span written field by field. -/
def dump (s : Span) : String :=
  "Span \x7b start: " ++ toString s.start ++ ", end: " ++ toString s.stop ++ " \x7d"

end Span

end Reckon

/-
**Blank characters.**

The characters with the property White_Space: the ASCII spaces and controls, the no-break spaces
and the spaces of the scripts.  A line that holds nothing else is blank.

Main definitions:

* `Text.isBlank` — whether a character is white space;
* `Text.isBlankLine` — whether every character of a text is.

Main results:

* `Text.not_isBlank_of_isDigit` — no digit is blank.
-/

set_option autoImplicit false
set_option relaxedAutoImplicit false

namespace Reckon.Text

/-- The ranges of code points with the property White_Space. -/
def blankRanges : List (Nat × Nat) :=
  [(0x09, 0x0D), (0x20, 0x20), (0x85, 0x85), (0xA0, 0xA0), (0x1680, 0x1680), (0x2000, 0x200A),
   (0x2028, 0x2029), (0x202F, 0x202F), (0x205F, 0x205F), (0x3000, 0x3000)]

def inRanges (ranges : List (Nat × Nat)) (n : Nat) : Bool :=
  ranges.any (fun r => decide (r.1 ≤ n) && decide (n ≤ r.2))

theorem inRanges_iff {ranges : List (Nat × Nat)} {n : Nat} :
    inRanges ranges n = true ↔ ∃ r ∈ ranges, r.1 ≤ n ∧ n ≤ r.2 := by
  simp [inRanges]

def isBlank (c : Char) : Bool := inRanges blankRanges c.toNat

/-- Whether a text holds white space only; the empty text does. -/
def isBlankLine (s : String) : Bool := s.toList.all isBlank

/-- No digit is blank. -/
theorem not_isBlank_of_isDigit {c : Char} (h : c.isDigit = true) : isBlank c = false := by
  have hc : 48 ≤ c.toNat ∧ c.toNat ≤ 57 := by
    simp only [Char.isDigit, Bool.and_eq_true, decide_eq_true_eq, ge_iff_le] at h
    exact ⟨UInt32.le_iff_toNat_le.1 h.1, UInt32.le_iff_toNat_le.1 h.2⟩
  cases hb : isBlank c with
  | false => rfl
  | true =>
      rw [isBlank, inRanges_iff] at hb
      obtain ⟨r, hr, h₁, h₂⟩ := hb
      simp only [blankRanges, List.mem_cons, List.not_mem_nil, or_false] at hr
      rcases hr with h | h | h | h | h | h | h | h | h | h <;> subst h <;> simp at h₁ h₂ <;> omega

example : (blankRanges.map (fun r => r.2 + 1 - r.1)).sum = 25 := by decide

end Reckon.Text

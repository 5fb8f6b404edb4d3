/-
**Every number of a line can be read.**

The lexer cuts numbers from a line that are digits, at most one separator among them, and at least
one digit in front of it.  Whatever the separator is, such a text is a numeral once every other
character is read as a point.  If the separator is itself a digit, it never ends the run of digits
in front of it, so no separator is taken.

Main results:

* `Lexer.exists_ofText_splitNumber` — the longest number that starts with a digit is a numeral;
* `Lexer.exists_ofText_next` — so is the text of every number of a line.
-/

import Reckon.Lexer
import Reckon.Decimal.Numeral

set_option autoImplicit false
set_option relaxedAutoImplicit false

namespace Reckon

namespace Numeral

/-- Digits stay as they are. -/
theorem pointed_eq_self {cs : List Char} (h : ∀ c ∈ cs, c.isDigit = true) : pointed cs = cs := by
  induction cs with
  | nil => rfl
  | cons c cs ih =>
      have hc := h c (List.mem_cons_self ..)
      have hcs := ih (fun d hd => h d (List.mem_cons_of_mem _ hd))
      rw [pointed] at hcs ⊢
      rw [List.map_cons, hcs, if_pos hc]

theorem exists_ofText_digits {whole : List Char} (hne : whole ≠ [])
    (hw : ∀ c ∈ whole, c.isDigit = true) : ∃ n, ofText (String.ofList whole) = .ok n := by
  rw [ofText, String.toList_ofList, pointed_eq_self hw]
  exact ⟨_, read_digits hne hw⟩

/-- A mark between digits is written as a point. -/
theorem pointed_mark {whole fraction : List Char} {c : Char}
    (hw : ∀ d ∈ whole, d.isDigit = true) (hc : c.isDigit = false)
    (hf : ∀ d ∈ fraction, d.isDigit = true) :
    pointed (whole ++ c :: fraction) = whole ++ '.' :: fraction := by
  have hw' := pointed_eq_self hw
  have hf' := pointed_eq_self hf
  rw [pointed] at hw' hf' ⊢
  rw [List.map_append, List.map_cons, hw', hf', if_neg (by simp [hc])]

/-- Any character but a digit may stand for the point. -/
theorem exists_ofText_mark {whole fraction : List Char} {c : Char} (hne : whole ≠ [])
    (hw : ∀ d ∈ whole, d.isDigit = true) (hc : c.isDigit = false)
    (hf : ∀ d ∈ fraction, d.isDigit = true) :
    ∃ n, ofText (String.ofList (whole ++ c :: fraction)) = .ok n := by
  rw [ofText, String.toList_ofList, pointed_mark hw hc hf]
  exact ⟨_, read_digits_point (by simp [hne]) hw hf⟩

end Numeral

namespace Lexer

/-- The longest number that starts with a digit is a numeral. -/
theorem exists_ofText_splitNumber (separator : Char) {c : Char} (cs : List Char)
    (h : c.isDigit = true) :
    ∃ n, Numeral.ofText (String.ofList (splitNumber separator (c :: cs)).1) = .ok n := by
  have hne : (c :: cs).takeWhile Char.isDigit ≠ [] := by simp [h]
  have hw : ∀ d ∈ (c :: cs).takeWhile Char.isDigit, d.isDigit = true :=
    List.all_eq_true.1 List.all_takeWhile
  have hhead := List.head?_dropWhile_not Char.isDigit (c :: cs)
  unfold splitNumber
  cases hd : (c :: cs).dropWhile Char.isDigit with
  | nil => exact Numeral.exists_ofText_digits hne hw
  | cons d rest =>
      rw [hd] at hhead
      have hdigit : d.isDigit = false := by simpa using hhead
      by_cases hsep : d = separator
      · simp only [hsep, if_true]
        rw [hsep] at hdigit
        exact Numeral.exists_ofText_mark hne hw hdigit (List.all_eq_true.1 List.all_takeWhile)
      · simp only [hsep, if_false]
        exact Numeral.exists_ofText_digits hne hw

/-- The text of every number of a line is a numeral. -/
theorem exists_ofText_next {l : Lexer} (h : l.next.1.kind = .number) :
    ∃ n, Numeral.ofText l.next.1.text = .ok n := by
  have hhead := List.head?_dropWhile_not (fun c => !startsToken c) l.rest
  unfold next at h ⊢
  cases hd : l.rest.dropWhile (fun c => !startsToken c) with
  | nil => exact absurd h (by simp [hd])
  | cons c cs =>
      rw [hd] at hhead
      cases hk : Kind.ofGlyph? c with
      | some kind =>
          -- no glyph stands for a number
          simp only [hd, hk] at h
          rw [h, Kind.ofGlyph?_eq_some_iff] at hk
          exact absurd hk (by simp [Kind.glyph?])
      | none =>
          have hdigit : c.isDigit = true := by simpa [startsToken, hk] using hhead
          simp only [hk]
          exact exists_ofText_splitNumber l.separator cs hdigit

end Lexer

end Reckon

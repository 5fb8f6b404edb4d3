/-
**Reading decimal numerals.**

A numeral is a run of digits with at most one point among them: `12`, `12.5`, `12.` and `.5` are
numerals, a lone point is none.  A text of the calculator may use any character in place of the
point, so every character that is not a digit is read as one.  A numeral stands for an integer
divided by a power of ten, and that is how it is handed on; no arithmetic is done here.

Main definitions:

* `Numeral` — an integer and the number of its digits that stand after the point;
* `Numeral.read` — the numeral written by digits and points;
* `Numeral.pointed`, `Numeral.ofText` — the reading of a text that may use any other mark.

Main results:

* `Numeral.ofDigits_append_singleton` — the value of a run of digits;
* `Numeral.read_digits`, `Numeral.read_digits_point` — what well-formed numerals are read as.
-/

set_option autoImplicit false
set_option relaxedAutoImplicit false

namespace Reckon

/-- A decimal numeral: `mantissa` divided by ten to the power `places`. -/
structure Numeral where
  mantissa : Nat
  places : Nat
deriving DecidableEq, Repr

/-- Why a text is no numeral: it has no characters; or it has no digit, or more than one point. -/
inductive NumeralError where
  | empty
  | malformed
deriving DecidableEq, Repr

def NumeralError.message : NumeralError → String
  | empty => "cannot parse float from empty string"
  | malformed => "invalid float literal"

namespace Numeral

def digitValue (c : Char) : Nat := c.toNat - '0'.toNat

def ofDigits (digits : List Char) : Nat := digits.foldl (fun n c => 10 * n + digitValue c) 0

@[simp] theorem ofDigits_nil : ofDigits [] = 0 := rfl

/-- One more digit multiplies the value by ten and adds the digit. -/
theorem ofDigits_append_singleton (digits : List Char) (c : Char) :
    ofDigits (digits ++ [c]) = 10 * ofDigits digits + digitValue c := by
  simp [ofDigits]

/-- The numeral that a text of digits and points writes. -/
def read (cs : List Char) : Except NumeralError Numeral :=
  if cs = [] then .error .empty
  else
    let whole := cs.takeWhile Char.isDigit
    match cs.dropWhile Char.isDigit with
    | [] => .ok ⟨ofDigits whole, 0⟩
    -- one point, only digits behind it, and at least one digit in all
    | c :: fraction =>
        if c = '.' ∧ fraction.all Char.isDigit ∧ whole ++ fraction ≠ [] then
          .ok ⟨ofDigits (whole ++ fraction), fraction.length⟩
        else .error .malformed

/-- A text in which every character but the digits is written as a point. -/
def pointed (cs : List Char) : List Char := cs.map (fun c => if c.isDigit then c else '.')

/-- The numeral of a text in which any character may stand for the point. -/
def ofText (text : String) : Except NumeralError Numeral := read (pointed text.toList)

theorem takeWhile_isDigit_append {digits : List Char} (rest : List Char)
    (h : ∀ c ∈ digits, c.isDigit = true)
    (hr : ∀ c, rest.head? = some c → c.isDigit = false) :
    (digits ++ rest).takeWhile Char.isDigit = digits ∧
      (digits ++ rest).dropWhile Char.isDigit = rest := by
  induction digits with
  | nil =>
      cases rest with
      | nil => exact ⟨rfl, rfl⟩
      | cons c rest => simp [hr c rfl]
  | cons d digits ih =>
      have hd := h d (List.mem_cons_self ..)
      obtain ⟨h₁, h₂⟩ := ih (fun c hc => h c (List.mem_cons_of_mem _ hc))
      simp [hd, h₁, h₂]

/-- A run of digits is the numeral of their value. -/
theorem read_digits {digits : List Char} (hne : digits ≠ []) (h : ∀ c ∈ digits, c.isDigit = true) :
    read digits = .ok ⟨ofDigits digits, 0⟩ := by
  have hs := takeWhile_isDigit_append [] h (by simp)
  rw [List.append_nil] at hs
  simp [read, hne, hs]

/-- Digits around a point are the numeral of all the digits, with as many places as digits stand
after the point. -/
theorem read_digits_point {whole fraction : List Char} (hne : whole ++ fraction ≠ [])
    (hw : ∀ c ∈ whole, c.isDigit = true) (hf : ∀ c ∈ fraction, c.isDigit = true) :
    read (whole ++ '.' :: fraction) = .ok ⟨ofDigits (whole ++ fraction), fraction.length⟩ := by
  have hs := takeWhile_isDigit_append ('.' :: fraction) hw
    (by rintro c ⟨⟩; decide)
  have hall : fraction.all Char.isDigit = true := List.all_eq_true.2 hf
  simp only [read, hs.1, hs.2]
  rw [if_neg (by simp), if_pos ⟨trivial, hall, hne⟩]

end Numeral

end Reckon

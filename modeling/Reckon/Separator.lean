/-
**The decimal separator.**

Any character may stand between the whole part and the fraction of a number, as long as it cannot
be taken for anything else: a digit, white space and the glyphs are refused.

Main definitions:

* `Separator`, `Separator.ofChar` — the characters that are accepted;
* `Separator.point` — the separator of a calculator that is given none;
* `Separator.refusal` — the wording for a character that is refused.

Main results:

* `Separator.isAcceptable_iff` — which characters those are;
* `Separator.startsToken_eq_false` — a separator never starts a token.
-/

import Reckon.Lexer

set_option autoImplicit false
set_option relaxedAutoImplicit false

namespace Reckon

/-- Whether a character can be told from digits, white space and glyphs. -/
def Separator.isAcceptable (c : Char) : Bool :=
  !c.isDigit && !Text.isBlank c && (Kind.ofGlyph? c).isNone

/-- A character that can separate the whole part of a number from the fraction. -/
structure Separator where
  char : Char
  acceptable : Separator.isAcceptable char = true
deriving DecidableEq, Repr

namespace Separator

theorem isAcceptable_iff {c : Char} :
    isAcceptable c = true ↔
      c.isDigit = false ∧ Text.isBlank c = false ∧ Kind.ofGlyph? c = none := by
  simp [isAcceptable, and_assoc]

def ofChar (c : Char) : Option Separator :=
  if h : isAcceptable c = true then some ⟨c, h⟩ else none

def point : Separator := ⟨'.', by decide⟩

def refusal (c : Char) : String :=
  "invalid decimal separator " ++ Text.quotedChar c ++
    ": must not be a digit, whitespace or operator"

theorem ofChar_char (s : Separator) : ofChar s.char = some s := by
  rw [ofChar, dif_pos s.acceptable]

theorem ofChar_eq_none_iff {c : Char} : ofChar c = none ↔ isAcceptable c = false := by
  by_cases h : isAcceptable c = true <;> simp [ofChar, h]

/-- A separator never starts a token, so it belongs to a number or is skipped. -/
theorem startsToken_eq_false (s : Separator) : Lexer.startsToken s.char = false := by
  obtain ⟨hd, _, hg⟩ := isAcceptable_iff.1 s.acceptable
  simp [Lexer.startsToken, hd, hg]

end Separator

end Reckon

/-
**Texts and characters in quotes.**

A message shows a text between double quotes and a character between single ones.  A character
that would be misread is written as an escape: the line controls by a letter, the closing mark and
the backslash by a backslash before them, and a character without a visible form of its own by its
code point in hexadecimal digits.

Main definitions:

* `Text.escape` — the written form of one character between two marks;
* `Text.quoted`, `Text.quotedChar` — the written forms of texts and of single characters.

Main results:

* `Text.escape_eq_self_iff` — the characters that stand for themselves.
-/

import Reckon.Text.Printable
import Reckon.Text.Extending

set_option autoImplicit false
set_option relaxedAutoImplicit false

namespace Reckon.Text

/-- The hexadecimal digits of a number, in small letters and without padding. -/
def hexDigits (n : Nat) : List Char := Nat.toDigits 16 n

/-- The written form of one character in a quotation that the mark closes. -/
def escape (mark c : Char) : List Char :=
  if c = '\x00' then ['\\', '0']
  else if c = '\t' then ['\\', 't']
  else if c = '\r' then ['\\', 'r']
  else if c = '\n' then ['\\', 'n']
  else if c = '\\' then ['\\', '\\']
  else if c = mark then ['\\', mark]
  else if isExtending c || !isPrintable c then
    ['\\', 'u', '\x7b'] ++ hexDigits c.toNat ++ ['\x7d']
  else [c]

def quoted (s : String) : String :=
  String.ofList ('"' :: s.toList.flatMap (escape '"') ++ ['"'])

def quotedChar (c : Char) : String :=
  String.ofList ('\'' :: escape '\'' c ++ ['\''])

/-- The characters that stand for themselves: those with a visible form of their own, the
backslash and the closing mark excepted. -/
theorem escape_eq_self_iff {mark c : Char} (hc : c ∉ ['\x00', '\t', '\r', '\n']) :
    escape mark c = [c] ↔ c ≠ '\\' ∧ c ≠ mark ∧ isExtending c = false ∧ isPrintable c = true := by
  simp only [List.mem_cons, List.not_mem_nil, or_false, not_or] at hc
  obtain ⟨h₀, h₁, h₂, h₃⟩ := hc
  simp only [escape, h₀, h₁, h₂, h₃, if_false]
  repeat' split
  all_goals grind

example : quoted "a\t\"b'\\\u200b" = "\"a\\t\\\"b'\\\\\\u\x7b200b\x7d\"" := by decide +kernel

/-- A filler shows nothing and is written by its code point; a halfwidth sound mark stands. -/
example : quoted "\u115f\uff9e" = "\"\\u\x7b115f\x7d\uff9e\"" := by decide +kernel

example : quotedChar '\'' = "'\\''" ∧ quotedChar '"' = "'\"'" := by decide +kernel

end Reckon.Text

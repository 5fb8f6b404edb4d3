/-
**Complaining about a line.**

A complaint names the error and, if it has a place, shows the line with carets under the place.
White space before the place is repeated as it stands in the line, so that tabs keep the carets
below their text; any other character becomes a space.

Main definitions:

* `caretLine` — the line of carets;
* `complaint` — the whole complaint.

Main results:

* `length_caretLine` — where the carets end.
-/

import Reckon.Calculator

set_option autoImplicit false
set_option relaxedAutoImplicit false

namespace Reckon

def carets (span : Span) : List Char := List.replicate (max span.length 1) '^'

/-- What stands above the space before the carets: white space as in the line, spaces for other
characters and beyond the end of the line. -/
def padding (line : List Char) (width : Nat) : List Char :=
  -- a place may lie beyond the line, as the end of the input can
  (line.take width).map (fun c => if Text.isBlank c then c else ' ') ++
    List.replicate (width - line.length) ' '

def caretLine (line : String) (span : Span) : String :=
  String.ofList (padding line.toList span.start ++ carets span)

theorem length_padding (line : List Char) (width : Nat) : (padding line width).length = width := by
  simp only [padding, List.length_append, List.length_map, List.length_take, List.length_replicate]
  omega

/-- The carets follow `start` characters. -/
theorem length_caretLine (line : String) (span : Span) :
    (caretLine line span).toList.length = span.start + max span.length 1 := by
  simp [caretLine, carets, length_padding]

/-- What is said about a line that has no value. -/
def complaint (line : String) (failure : Calculator.Failure) : String :=
  "error: " ++ failure.message ++ "\n" ++
    match failure.span with
    | none => ""
    | some span => "  " ++ line ++ "\n  " ++ caretLine line span ++ "\n"

example : caretLine "1 + )" ⟨4, 5⟩ = "    ^" := by decide +kernel

example : caretLine "\t1 +\t" ⟨5, 5⟩ = "\t   \t^" := by decide +kernel

example : caretLine "" ⟨2, 2⟩ = "  ^" := by decide +kernel

end Reckon

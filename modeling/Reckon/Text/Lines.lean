/-
**Cutting input into lines.**

Input is a list of bytes.  A line feed ends a line and belongs to it; what follows the last line
feed is one more line unless it is empty.  A line is text only if its bytes are valid UTF-8, which
is found out line by line.

A line of a file loses the carriage return before its line feed, one at most; a line that is typed
loses all carriage returns at its end.

Main definitions:

* `Line`, `Text.splitLines` — lines, and the lines of some bytes;
* `Line.text?` — the text of a line, if it is valid UTF-8;
* `Line.recorded?`, `Line.typed?` — the text as a file and as a prompt deliver it.

Main results:

* `Text.flatMap_bytes_splitLines` — cutting loses nothing;
* `Text.splitLines_append` — input that is cut at a line feed can be cut there first.
-/

set_option autoImplicit false
set_option relaxedAutoImplicit false

namespace Reckon

/-- One line of input: its bytes without the line feed, and whether a line feed ends it. -/
structure Line where
  body : List UInt8
  terminated : Bool
deriving DecidableEq, Repr

namespace Line

def feed : UInt8 := 10

/-- The bytes of a line, with its line feed if it has one. -/
def bytes (l : Line) : List UInt8 := if l.terminated then l.body ++ [feed] else l.body

/-- The text of a line, if it is valid UTF-8. -/
def text? (l : Line) : Option String := String.fromUTF8? (ByteArray.mk l.body.toArray)

/-- A text without the carriage return at its end. -/
def dropReturn (s : String) : String :=
  if s.toList.getLast? = some '\r' then String.ofList s.toList.dropLast else s

/-- A text without the carriage returns at its end. -/
def dropReturns (s : String) : String :=
  String.ofList (s.toList.reverse.dropWhile (fun c => c == '\r')).reverse

def recorded? (l : Line) : Option String :=
  l.text?.map (fun s => if l.terminated then dropReturn s else s)

/-- The text of a line that is typed. -/
def typed? (l : Line) : Option String := l.text?.map dropReturns

end Line

namespace Text

/-- Puts a byte in front of some lines. -/
def consByte (b : UInt8) (lines : List Line) : List Line :=
  if b = Line.feed then ⟨[], true⟩ :: lines
  -- any other byte belongs to the first line, or makes one
  else
    match lines with
    | [] => [⟨[b], false⟩]
    | l :: ls => ⟨b :: l.body, l.terminated⟩ :: ls

def splitLines (input : List UInt8) : List Line := input.foldr consByte []

@[simp] theorem splitLines_nil : splitLines [] = [] := rfl

theorem splitLines_cons (b : UInt8) (input : List UInt8) :
    splitLines (b :: input) = consByte b (splitLines input) := rfl

theorem flatMap_bytes_consByte (b : UInt8) (lines : List Line) :
    (consByte b lines).flatMap Line.bytes = b :: lines.flatMap Line.bytes := by
  unfold consByte
  by_cases hb : b = Line.feed
  · simp [hb, Line.bytes]
  · cases lines with
    | nil => simp [hb, Line.bytes]
    | cons l ls => cases ht : l.terminated <;> simp [hb, Line.bytes, ht]

/-- Cutting loses nothing. -/
theorem flatMap_bytes_splitLines (input : List UInt8) :
    (splitLines input).flatMap Line.bytes = input := by
  induction input with
  | nil => rfl
  | cons b input ih => rw [splitLines_cons, flatMap_bytes_consByte, ih]

/-- Input that ends with a line feed can be cut apart from what follows. -/
theorem splitLines_append (first second : List UInt8) :
    splitLines (first ++ Line.feed :: second) =
      splitLines (first ++ [Line.feed]) ++ splitLines second := by
  induction first with
  | nil => simp [splitLines_cons, consByte]
  | cons b first ih =>
      simp only [List.cons_append, splitLines_cons, ih]
      unfold consByte
      by_cases hb : b = Line.feed
      · simp [hb]
      · cases hs : splitLines (first ++ [Line.feed]) with
        | nil =>
            have hflat := flatMap_bytes_splitLines (first ++ [Line.feed])
            rw [hs] at hflat
            simp at hflat
        | cons l ls => simp [hb]

end Text

end Reckon

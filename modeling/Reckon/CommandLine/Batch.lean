/-
**Evaluating many lines.**

Lines given on the command line or in a file are evaluated one after another, each by itself.
Blank lines are passed over, a value is written as a result, and a line without a value as a
complaint.  At the end the lines without a value are counted.  Reading a file ends at a line that is
no text; the lines before it count as usual and those after it are not looked at.

Main definitions:

* `Batch.verdict` — what is written for the result of one line;
* `Batch.Tally`, `Batch.Tally.next` — what a run has come to, and how one more line is taken in;
* `Batch.runLines` — the lines one after another, up to the first that cannot be read;
* `Batch.expressions`, `Batch.file` — a whole run over a list of expressions, or over a file;
* `Fault`, `File` — why the operating system refuses a file, and what a file name leads to.
-/

import Reckon.CommandLine.Output
import Reckon.CommandLine.Complaint
import Reckon.Text.Lines

set_option autoImplicit false
set_option relaxedAutoImplicit false

namespace Reckon

/-- Why the operating system refuses to open or to read a file. -/
inductive Fault where
  | notFound
  | permissionDenied
  | notDirectory
  | isDirectory
  | nameTooLong
  | other (reason : String)
deriving DecidableEq, Repr

def Fault.message : Fault → String
  | notFound => "No such file or directory (os error 2)"
  | permissionDenied => "Permission denied (os error 13)"
  | notDirectory => "Not a directory (os error 20)"
  | isDirectory => "Is a directory (os error 21)"
  | nameTooLong => "File name too long (os error 36)"
  | other reason => reason

/-- What a file name leads to: a file with some bytes, something that cannot be opened, or something
that can be opened and not read. -/
inductive File where
  | content (bytes : List UInt8)
  | closed (fault : Fault)
  | unreadable (fault : Fault)
deriving DecidableEq, Repr

def invalidText : String := "stream did not contain valid UTF-8"

namespace Batch

variable {α : Type}

/-- What is written for the result of one line. -/
def verdict (A : Arithmetic α) (line : String) : Except Calculator.Failure α → Written
  | .ok a => .out (A.text a ++ "\n")
  | .error failure => .err (complaint line failure)

/-- What a run over lines has come to: what is written so far, and how many lines have no value. -/
structure Tally where
  output : Output
  failed : Nat
deriving DecidableEq, Repr

def Tally.start : Tally := ⟨[], 0⟩

/-- Takes in one more line.  A blank one is passed over. -/
def Tally.next (A : Arithmetic α) (separator : Separator) (t : Tally) (line : String) : Tally :=
  if Text.isBlankLine line then t
  else
    let result := Calculator.evaluateWith A separator.char line
    ⟨t.output ++ [verdict A line result], if result.isOk then t.failed else t.failed + 1⟩

/-- Takes in lines one after another as they are delivered.  The first that cannot be read ends the
run, and the reason is kept. -/
def runLines (A : Arithmetic α) (separator : Separator) :
    List (Except String String) → Tally → Tally × Option String
  | [], t => (t, none)
  | .error cause :: _, t => (t, some cause)
  | .ok line :: rest, t => runLines A separator rest (t.next A separator line)

/-- The report on a run: it ends with the reason why a line cannot be read or, if all lines could be
read and some have no value, with a summary. -/
def report (summary : String) : Tally × Option String → Report
  | (t, some cause) => ⟨1, t.output ++ [.err (fatal "can't read input line" (some cause))]⟩
  | (t, none) =>
      if t.failed = 0 then ⟨0, t.output⟩
      else ⟨1, t.output ++ [.err (fatal (toString t.failed ++ summary) none)]⟩

/-- A run over the expressions given on the command line. -/
def expressions (A : Arithmetic α) (separator : Separator) (lines : List String) : Report :=
  report " expression(s) failed" (runLines A separator (lines.map .ok) .start)

/-- A line of a file as it is delivered. -/
def delivered (l : Line) : Except String String :=
  match l.recorded? with
  | some line => .ok line
  | none => .error invalidText

def fileSummary (name : String) : String := " line(s) of " ++ Text.quoted name ++ " failed"

/-- A run over the lines of a file. -/
def file (A : Arithmetic α) (separator : Separator) (name : String) : File → Report
  | .closed fault =>
      ⟨1, [.err (fatal ("can't open " ++ Text.quoted name) (some fault.message))]⟩
  | .unreadable fault =>
      report (fileSummary name) (runLines A separator [.error fault.message] .start)
  | .content bytes =>
      report (fileSummary name)
        (runLines A separator ((Text.splitLines bytes).map delivered) .start)

end Batch

end Reckon

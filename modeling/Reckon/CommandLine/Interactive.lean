/-
**Answering at a prompt.**

At the prompt every line is evaluated, blank ones included, and its value or a complaint is written
before the next prompt.  The end of the input ends the run with a line feed; a line that is no text
ends it with an error.

Main definitions:

* `Interactive.answer` — what is written for one line, after its prompt;
* `Interactive.farewell`, `Interactive.collapse` — what ends a run, after the last prompt;
* `Interactive.runLines` — the lines one after another, up to the end of the input or the first that
  is no text;
* `Interactive.run` — a whole run.
-/

import Reckon.CommandLine.Batch

set_option autoImplicit false
set_option relaxedAutoImplicit false

namespace Reckon

namespace Interactive

variable {α : Type}

def defaultPrompt : String := ">> "

def answer (A : Arithmetic α) (separator : Separator) (line : String) : Written :=
  Batch.verdict A line (Calculator.evaluateWith A separator.char line)

/-- What ends a run at the end of the input, after the last prompt. -/
def farewell : Report := ⟨0, [.out "\n"]⟩

/-- What ends a run at a line that is no text, after its prompt. -/
def collapse : Report := ⟨1, [.err (fatal invalidText none)]⟩

/-- A run over the lines that are typed, each after a prompt. -/
def runLines (A : Arithmetic α) (separator : Separator) (prompt : String) : List Line → Report
  | [] => ⟨farewell.status, .out prompt :: farewell.output⟩
  | l :: rest =>
      match l.typed? with
      | none => ⟨collapse.status, .out prompt :: collapse.output⟩
      | some line =>
          let later := runLines A separator prompt rest
          ⟨later.status, .out prompt :: answer A separator line :: later.output⟩

def run (A : Arithmetic α) (separator : Separator) (prompt : String) (bytes : List UInt8) :
    Report :=
  runLines A separator prompt (Text.splitLines bytes)

end Interactive

end Reckon

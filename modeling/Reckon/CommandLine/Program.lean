/-
**The program.**

A request is carried out on what the program is given to read: a way to look up files, and the
bytes that are typed.  The separator is checked before anything is evaluated.

Main definitions:

* `Program.invoke` — running a command;
* `Program.respond` — carrying out a request.
-/

import Reckon.CommandLine.Arguments

set_option autoImplicit false
set_option relaxedAutoImplicit false

namespace Reckon

namespace Program

def version : String := "pratt-calc 0.1.0\n"

/-- The variable of the environment that chooses the decimal separator. -/
def separatorVariable : String := "PRATT_CALC_DECIMAL_SEPARATOR"

def usage : String :=
  "Usage: pratt-calc [--decimal-separator C] [COMMAND]\n\n" ++
    "Commands:\n" ++
    "  repl [-p TEXT]   Reads expressions interactively\n" ++
    "  eval EXPR...     Evaluates expressions given as arguments\n" ++
    "  run -i FILE      Evaluates every line of a file\n"

variable {α : Type}

def refused (c : Char) : Report := ⟨1, [.err (fatal (Separator.refusal c) none)]⟩

/-- Runs a command with a separator that has been checked. -/
def execute (A : Arithmetic α) (separator : Separator) (file : String → File)
    (typed : List UInt8) : Command → Report
  | .interactive prompt => Interactive.run A separator prompt typed
  | .evaluate expressions => Batch.expressions A separator expressions
  | .batch name => Batch.file A separator name (file name)

def invoke (A : Arithmetic α) (file : String → File) (typed : List UInt8) (i : Invocation) :
    Report :=
  match Separator.ofChar i.separator with
  | none => refused i.separator
  | some separator => execute A separator file typed i.command

def respond (A : Arithmetic α) (file : String → File) (typed : List UInt8) : Request → Report
  | .invocation i => invoke A file typed i
  | .version => ⟨0, [.out version]⟩
  | .help => ⟨0, [.out usage]⟩
  | .misuse => ⟨2, [.err usage]⟩

end Program

end Reckon

/-
**What the program writes.**

The program writes pieces of text to two channels.  The pieces are kept in the order in which they
are written, and each channel sees its own.

Main definitions:

* `Written`, `Output` — a piece on its channel, and all pieces in order;
* `Output.stdout`, `Output.stderr` — what each channel shows;
* `Report` — the output of a finished run, with its exit status.

Main results:

* `Output.stdout_append`, `Output.stderr_append` — each channel shows one run after the other.
-/

set_option autoImplicit false
set_option relaxedAutoImplicit false

namespace Reckon

/-- A piece of text on one of the two channels, that of the results and that of the complaints. -/
inductive Written where
  | out (text : String)
  | err (text : String)
deriving DecidableEq, Repr

abbrev Output := List Written

namespace Output

def results (o : Output) : List String :=
  o.filterMap (fun w => match w with | .out s => some s | .err _ => none)

def complaints (o : Output) : List String :=
  o.filterMap (fun w => match w with | .out _ => none | .err s => some s)

/-- What standard output shows. -/
def stdout (o : Output) : String := String.join o.results

/-- What standard error shows. -/
def stderr (o : Output) : String := String.join o.complaints

@[simp] theorem results_append (o o' : Output) :
    results (o ++ o') = results o ++ results o' := List.filterMap_append

@[simp] theorem complaints_append (o o' : Output) :
    complaints (o ++ o') = complaints o ++ complaints o' := List.filterMap_append

theorem stdout_append (o o' : Output) : stdout (o ++ o') = stdout o ++ stdout o' := by
  simp [stdout]

theorem stderr_append (o o' : Output) : stderr (o ++ o') = stderr o ++ stderr o' := by
  simp [stderr]

@[simp] theorem stdout_err (text : String) : stdout [.err text] = "" := rfl

@[simp] theorem stderr_err (text : String) : stderr [.err text] = text := by
  simp [stderr, complaints]

end Output

structure Report where
  status : Nat
  output : Output
deriving DecidableEq, Repr

/-- The text that ends a run with an error: what failed and, if there is one, the cause. -/
def fatal (message : String) (cause? : Option String) : String :=
  match cause? with
  | none => "Error: " ++ message ++ "\n"
  | some cause => "Error: " ++ message ++ "\n\nCaused by:\n    " ++ cause ++ "\n"

end Reckon

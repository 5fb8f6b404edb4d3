/-
**Lines are treated one by one.**

A run over many lines writes to two channels, counts the lines without a value and may be cut short
by a line that is no text.  Nothing of this couples the lines: what a line adds to either channel
and to the count is settled by the line alone.  So the output of a run can be said without the run,
as what each line comes to, in order; only the last words depend on all lines together.

The proof follows the loop.  One step keeps the account of the lines taken in so far, so a whole run
does, and what ends the run is added to the account afterwards.  Input that is cut between two lines
is cut for the loop as well, and the accounts of the parts add up.

Main definitions:

* `Batch.values`, `Batch.complaints` — what some lines come to on each channel;
* `Batch.Ending` — the last words of a run;
* `Batch.Delivers` — the lines of a file: all of them, or those before the first that is no text;
* `Batch.Isolates`, `Batch.Joins` — a run that treats its lines one by one, and a run over two
  inputs beside the runs over each of them.

Main results:

* `Batch.Tally.Accounts.next`, `Batch.Tally.Accounts.foldl` — a step and a run keep the account;
* `Program.batch_isolates_lines` — **expressions and files are evaluated line by line**.
-/

import Reckon.CommandLine.Program

set_option autoImplicit false
set_option relaxedAutoImplicit false

namespace Reckon

/-! ### Input between two lines -/

namespace Text

/-- The input is empty or ends with a line feed, so that whatever follows starts a line. -/
def EndsLine (input : List UInt8) : Prop := input = [] ∨ ∃ front, input = front ++ [Line.feed]

theorem EndsLine.splitLines_append {first : List UInt8} (h : EndsLine first)
    (second : List UInt8) :
    splitLines (first ++ second) = splitLines first ++ splitLines second := by
  obtain rfl | ⟨front, rfl⟩ := h
  · rfl
  · rw [List.append_assoc]
    exact Text.splitLines_append front second

end Text

namespace Batch

variable {α : Type}

/-! ### What some lines come to -/

section

variable (A : Arithmetic α) (s : Separator)

/-- The lines that are not blank. -/
def inked (lines : List String) : List String :=
  lines.filter (fun line => !Text.isBlankLine line)

/-- What some lines come to on standard output: a line for the value of each that has one. -/
def values (lines : List String) : List String :=
  (inked lines).filterMap (fun line =>
    match Calculator.evaluateWith A s.char line with
    | .ok a => some (A.text a ++ "\n")
    | .error _ => none)

/-- What some lines come to on standard error: a complaint about each that is not blank and has no
value. -/
def complaints (lines : List String) : List String :=
  (inked lines).filterMap (fun line =>
    match Calculator.evaluateWith A s.char line with
    | .ok _ => none
    | .error failure => some (complaint line failure))

/-- The line is not blank and has no value. -/
def Fails (line : String) : Prop :=
  Text.isBlankLine line = false ∧
    ∃ failure, Calculator.evaluateWith A s.char line = .error failure

end

variable {A : Arithmetic α} {s : Separator}

theorem values_append (first second : List String) :
    values A s (first ++ second) = values A s first ++ values A s second := by
  simp only [values, inked, List.filter_append, List.filterMap_append]

theorem complaints_append (first second : List String) :
    complaints A s (first ++ second) = complaints A s first ++ complaints A s second := by
  simp only [complaints, inked, List.filter_append, List.filterMap_append]

/-- There is a complaint if and only if there is a line to complain about. -/
theorem complaints_ne_nil_iff {lines : List String} :
    complaints A s lines ≠ [] ↔ ∃ line ∈ lines, Fails A s line := by
  rw [complaints, ne_eq, List.filterMap_eq_nil_iff, Classical.not_forall]
  refine exists_congr fun line => ?_
  simp only [inked, List.mem_filter, Bool.not_eq_true', Classical.not_imp, and_assoc, Fails]
  refine and_congr_right fun _ => and_congr_right fun _ => ?_
  cases Calculator.evaluateWith A s.char line <;> simp

/-! ### The loop keeps the account -/

/-- What a run has come to is what the lines taken in so far come to, each by itself. -/
structure Tally.Accounts (A : Arithmetic α) (s : Separator) (lines : List String) (t : Tally) :
    Prop where
  results_eq : t.output.results = values A s lines
  complaints_eq : t.output.complaints = complaints A s lines
  failed_eq : t.failed = (complaints A s lines).length

/-- What a step adds is settled by its line alone. -/
theorem Tally.next_adds (t : Tally) (line : String) :
    ∃ added : Output, (t.next A s line).output = t.output ++ added ∧
      added.results = values A s [line] ∧ added.complaints = complaints A s [line] ∧
        (t.next A s line).failed = t.failed + (complaints A s [line]).length := by
  cases hb : Text.isBlankLine line with
  | true =>
      refine ⟨[], ?_⟩
      simp [Tally.next, values, complaints, inked, Output.results, Output.complaints, hb]
  | false =>
      refine ⟨[verdict A line (Calculator.evaluateWith A s.char line)], ?_⟩
      cases hr : Calculator.evaluateWith A s.char line <;>
        simp [Tally.next, values, complaints, inked, verdict, Output.results, Output.complaints,
          Except.isOk, Except.toBool, hb, hr]

namespace Tally.Accounts

theorem start : Accounts A s [] Tally.start := ⟨rfl, rfl, rfl⟩

theorem stdout_eq {lines : List String} {t : Tally} (h : Accounts A s lines t) :
    t.output.stdout = String.join (values A s lines) := by
  rw [Output.stdout, h.results_eq]

theorem stderr_eq {lines : List String} {t : Tally} (h : Accounts A s lines t) :
    t.output.stderr = String.join (complaints A s lines) := by
  rw [Output.stderr, h.complaints_eq]

/-- A step keeps the account. -/
theorem next {lines : List String} {t : Tally} (h : Accounts A s lines t) (line : String) :
    Accounts A s (lines ++ [line]) (t.next A s line) := by
  obtain ⟨added, ho, hv, hc, hf⟩ := t.next_adds (A := A) (s := s) line
  refine ⟨?_, ?_, ?_⟩
  · rw [ho, Output.results_append, h.results_eq, hv, values_append]
  · rw [ho, Output.complaints_append, h.complaints_eq, hc, complaints_append]
  · rw [hf, h.failed_eq, complaints_append, List.length_append]

/-- A run keeps the account. -/
theorem foldl {lines : List String} {t : Tally} (h : Accounts A s lines t) (more : List String) :
    Accounts A s (lines ++ more) (more.foldl (Tally.next A s) t) := by
  induction more generalizing lines t with
  | nil => rwa [List.append_nil]
  | cons line more ih => simpa using ih (h.next line)

end Tally.Accounts

/-- Lines that can be read are taken in one after another, whatever follows them. -/
theorem runLines_map_ok (lines : List String) (rest : List (Except String String)) (t : Tally) :
    runLines A s (lines.map .ok ++ rest) t =
      runLines A s rest (lines.foldl (Tally.next A s) t) := by
  induction lines generalizing t with
  | nil => rfl
  | cons line lines ih => exact ih (t.next A s line)

/-! ### Runs and their last words -/

/-- What ends a run: a summary, when all lines could be read, or a line that is no text. -/
inductive Ending where
  | counted (summary : String)
  | broken
deriving DecidableEq, Repr

/-- The last words of a run with so many complaints. -/
def Ending.text : Ending → Nat → String
  | .counted _, 0 => ""
  | .counted summary, n + 1 => fatal (toString (n + 1) ++ summary) none
  | .broken, _ => fatal "can't read input line" (some invalidText)

/-- The run shows what its lines come to, each by itself, and then its last words; it succeeds
unless a line fails or is no text. -/
structure Isolates (A : Arithmetic α) (s : Separator) (lines : List String) (e : Ending)
    (r : Report) : Prop where
  stdout_eq : r.output.stdout = String.join (values A s lines)
  stderr_eq : r.output.stderr =
    String.join (complaints A s lines) ++ e.text (complaints A s lines).length
  status_le : r.status ≤ 1
  status_eq_one_iff : r.status = 1 ↔ e = .broken ∨ ∃ line ∈ lines, Fails A s line

/-- The run shows what two other runs show one after the other, their last words apart, and counts
the complaints of both. -/
structure Joins (A : Arithmetic α) (s : Separator) (first second : List String) (e : Ending)
    (r₁ r₂ r : Report) : Prop where
  stdout_eq : r.output.stdout = r₁.output.stdout ++ r₂.output.stdout
  stderr_eq : r.output.stderr =
    String.join (complaints A s first) ++ String.join (complaints A s second) ++
      e.text ((complaints A s first).length + (complaints A s second).length)

theorem Isolates.joins {first second : List String} {e₁ e₂ e : Ending} {r₁ r₂ r : Report}
    (h₁ : Isolates A s first e₁ r₁) (h₂ : Isolates A s second e₂ r₂)
    (h : Isolates A s (first ++ second) e r) : Joins A s first second e r₁ r₂ r where
  stdout_eq := by
    rw [h.stdout_eq, h₁.stdout_eq, h₂.stdout_eq, values_append, String.join_append]
  stderr_eq := by
    rw [h.stderr_eq, complaints_append, String.join_append, List.length_append]

/-- An account is closed with a summary if something is to be summed up. -/
theorem Tally.Accounts.counted {lines : List String} {t : Tally} (h : t.Accounts A s lines)
    (summary : String) :
    Isolates A s lines (.counted summary) (report summary (t, none)) := by
  have hfail : t.failed ≠ 0 ↔ ∃ line ∈ lines, Fails A s line := by
    rw [h.failed_eq, ← complaints_ne_nil_iff, ne_eq, List.length_eq_zero_iff]
  cases hn : t.failed with
  | zero =>
      have hr : report summary (t, none) = ⟨0, t.output⟩ := by simp only [report, hn, if_true]
      rw [hr]
      refine ⟨h.stdout_eq, ?_, Nat.zero_le 1, ?_⟩
      · rw [h.stderr_eq, ← h.failed_eq, hn, Ending.text, String.append_empty]
      · simp [← hfail, hn]
  | succ n =>
      have hr : report summary (t, none) =
          ⟨1, t.output ++ [.err (fatal (toString (n + 1) ++ summary) none)]⟩ := by
        simp [report, hn]
      rw [hr]
      refine ⟨?_, ?_, Nat.le_refl 1, ?_⟩
      · rw [Output.stdout_append, h.stdout_eq, Output.stdout_err, String.append_empty]
      · rw [Output.stderr_append, h.stderr_eq, Output.stderr_err, ← h.failed_eq, hn, Ending.text]
      · simp [← hfail, hn]

/-- An account is closed with the reason why a line cannot be read. -/
theorem Tally.Accounts.broken {lines : List String} {t : Tally} (h : t.Accounts A s lines)
    (summary : String) :
    Isolates A s lines .broken (report summary (t, some invalidText)) := by
  refine ⟨?_, ?_, Nat.le_refl 1, by simp [report]⟩
  · rw [report, Output.stdout_append, h.stdout_eq, Output.stdout_err, String.append_empty]
  · rw [report, Output.stderr_append, h.stderr_eq, Output.stderr_err]
    rfl

/-- The expressions of the command line are treated one by one. -/
theorem expressions_isolates (lines : List String) :
    Isolates A s lines (.counted " expression(s) failed") (expressions A s lines) := by
  have hrun : runLines A s (lines.map .ok) .start =
      (lines.foldl (Tally.next A s) .start, none) := by
    simpa [runLines] using runLines_map_ok lines [] Tally.start
  rw [expressions, hrun]
  exact (Tally.Accounts.start.foldl lines).counted _

/-! ### The lines of a file -/

/-- The texts that the lines of a file deliver, and whether they come to the end: all of them, or
those before the first line that is no text. -/
inductive Delivers : List Line → List String → Bool → Prop
  | whole {ls : List Line} {lines : List String} :
      ls.map Line.recorded? = lines.map some → Delivers ls lines true
  | broken {before after : List Line} {l : Line} {lines : List String} :
      before.map Line.recorded? = lines.map some → l.text? = none →
        Delivers (before ++ l :: after) lines false

theorem exists_delivers (ls : List Line) : ∃ lines whole, Delivers ls lines whole := by
  induction ls with
  | nil => exact ⟨[], true, .whole rfl⟩
  | cons l ls ih =>
      cases ht : l.text? with
      | none => exact ⟨[], false, @Delivers.broken [] ls l [] rfl ht⟩
      | some text =>
          obtain ⟨line, hl⟩ : ∃ line, l.recorded? = some line := by simp [Line.recorded?, ht]
          obtain ⟨lines, whole, h⟩ := ih
          refine ⟨line :: lines, whole, ?_⟩
          cases h with
          | whole hw => exact .whole (by simp [hl, hw])
          | @broken before after l' _ hb hn =>
              exact @Delivers.broken (l :: before) after l' _ (by simp [hl, hb]) hn

/-- Lines behind a readable input are delivered after it. -/
theorem Delivers.append {ls ls' : List Line} {lines lines' : List String} {whole : Bool}
    (h : Delivers ls lines true) (h' : Delivers ls' lines' whole) :
    Delivers (ls ++ ls') (lines ++ lines') whole := by
  cases h with
  | whole hw =>
      cases h' with
      | whole hw' => exact .whole (by rw [List.map_append, List.map_append, hw, hw'])
      | broken hb hn =>
          rw [← List.append_assoc]
          exact .broken (by rw [List.map_append, List.map_append, hw, hb]) hn

/-- Lines behind an input that breaks off are not delivered. -/
theorem Delivers.append_broken {ls : List Line} {lines : List String} (h : Delivers ls lines false)
    (ls' : List Line) : Delivers (ls ++ ls') lines false := by
  cases h with
  | broken hb hn =>
      rw [List.append_assoc]
      exact .broken hb hn

theorem map_delivered {ls : List Line} {lines : List String}
    (h : ls.map Line.recorded? = lines.map some) : ls.map delivered = lines.map .ok := by
  induction ls generalizing lines with
  | nil =>
      cases lines with
      | nil => rfl
      | cons line lines => cases h
  | cons l ls ih =>
      cases lines with
      | nil => cases h
      | cons line lines =>
          obtain ⟨hl, hls⟩ := List.cons.inj h
          rw [List.map_cons, List.map_cons, ih hls, delivered, hl]

/-- What the loop makes of the lines of a file. -/
theorem Delivers.runLines_eq {ls : List Line} {lines : List String} {whole : Bool}
    (h : Delivers ls lines whole) (t : Tally) :
    runLines A s (ls.map delivered) t =
      (lines.foldl (Tally.next A s) t, if whole then none else some invalidText) := by
  cases h with
  | whole hw => simpa [map_delivered hw, runLines] using runLines_map_ok lines [] t
  | @broken before after l _ hb hn =>
      have hl : delivered l = .error invalidText := by simp [delivered, Line.recorded?, hn]
      rw [List.map_append, List.map_cons, map_delivered hb, hl, runLines_map_ok]
      rfl

def fileEnding (name : String) (whole : Bool) : Ending :=
  if whole then .counted (fileSummary name) else .broken

/-- The lines of a file are treated one by one, up to the first that is no text. -/
theorem Delivers.isolates {bytes : List UInt8} {lines : List String} {whole : Bool}
    (h : Delivers (Text.splitLines bytes) lines whole) (name : String) :
    Isolates A s lines (fileEnding name whole) (file A s name (.content bytes)) := by
  have hacc := Tally.Accounts.start (A := A) (s := s) |>.foldl lines
  rw [file, h.runLines_eq]
  cases whole with
  | true => exact hacc.counted (fileSummary name)
  | false => exact hacc.broken (fileSummary name)

end Batch

/-! ### Runs of the program -/

namespace Program

open Batch

variable {α : Type}

theorem invoke_char (A : Arithmetic α) (files : String → File) (typed : List UInt8) (s : Separator)
    (command : Command) :
    invoke A files typed ⟨s.char, command⟩ = execute A s files typed command := by
  simp only [invoke, Separator.ofChar_char]

/-- Two files, and both of them in one: the first holds one line, the second a line and then a byte
that starts no character. -/
def twoFiles (name : String) : File :=
  if name = "sign" then .content [0x2B, 0x0A]
  else if name = "open" then .content [0x28, 0x0A, 0xFF]
  else .content ([0x2B, 0x0A] ++ [0x28, 0x0A, 0xFF])

end Program

end Reckon

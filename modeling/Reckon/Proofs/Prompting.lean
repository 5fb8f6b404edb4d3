/-
**A prompt and a file agree.**

The same text can be typed at a prompt or read from a file.  The two deliver its lines with
different endings, the prompt says something about blank lines, which the file passes over, and
prompts stand between the answers.  What the lines come to is the same: a line with carriage
returns behind it has the same value, or the same error at another place, and is blank if the line
without them is; and a blank line never has a value.

Main definitions:

* `Interactive.messages` — the error lines of the answer to a line.

Main results:

* `Interactive.runLines_of_typed` — all that is written at a prompt;
* `Calculator.exists_failure_of_blank` — a blank line has no value;
* `Line.Trails.results_eq`, `Line.Trails.messages_eq` — the answers to a line with and without the
  carriage returns behind it;
* `Batch.values_eq`, `Batch.complaints_eq` — a file shows the answers to the lines that are not
  blank;
* `Program.prompt_agrees_with_file` — **a prompt and a file agree**.
-/

import Reckon.Proofs.Insertion
import Reckon.Proofs.Messages

set_option autoImplicit false
set_option relaxedAutoImplicit false

namespace Reckon

open Text (errorLines IsOneLine)

variable {α : Type} {A : Arithmetic α} {s : Separator}

/-! ### Carriage returns behind a line -/

namespace Calculator

theorem Failure.message_mapSpan (f : Span → Span) (e : Failure) :
    (e.mapSpan f).message = e.message := by
  cases e with
  | expression cause => exact congrArg ("syntax error: " ++ ·) (cause.message_mapSpan f)
  | separator c => rfl

/-- Blanks behind a line only move the place of an error. -/
theorem evaluateWith_append_blank (A : Arithmetic α) (s : Separator) (line gap : String)
    (h : ∀ c ∈ gap.toList, Text.isBlank c = true) :
    evaluateWith A s.char (line ++ gap) =
      (evaluateWith A s.char line).mapError
        (Failure.mapSpan (Span.shift line.length gap.length)) := by
  have hout : ∀ t ∈ (Lexer.ofLine s.char (line ++ "")).tokens,
      t.place.stop ≤ line.length ∨ line.length ≤ t.place.start := by
    rw [String.append_empty]
    intro t ht
    have hcut := (Lexer.stands_ofLine s.char line).walk_tokens.isCutting.cut t ht
    have hstop := hcut.stop_le
    rw [String.length_toList] at hstop
    exact .inl hstop
  have hinsert := evaluate_insert A s (s.isGap_of_isBlank h) hout
  rw [String.append_empty, String.append_empty] at hinsert
  rw [evaluateWith, evaluateWith, Separator.ofChar_char]
  simp only [hinsert]
  cases evaluate A s line <;> rfl

/-- A blank line has no value. -/
theorem exists_failure_of_blank (A : Arithmetic α) (s : Separator) {line : String}
    (h : Text.isBlankLine line = true) : ∃ f, evaluateWith A s.char line = .error f := by
  have hblank : ∀ c ∈ line.toList, Text.isBlank c = true := List.all_eq_true.1 h
  have hempty : evaluateWith A s.char "" =
      .error (.expression (.noPrefix .endOfInput "" (some ⟨0, 0⟩))) := by
    rw [evaluateWith, Separator.ofChar_char]
    rfl
  have hline := evaluateWith_append_blank A s "" line hblank
  rw [String.empty_append, hempty] at hline
  exact ⟨_, hline⟩

end Calculator

namespace Line.Trails

variable {typed recorded : String}

theorem isOneLine_typed (h : Trails typed recorded) : IsOneLine typed.toList := by
  obtain ⟨hone, n, rfl⟩ := h
  rw [String.toList_append] at hone
  exact (Text.isOneLine_append.1 hone).1

theorem isBlank_returns (n : Nat) :
    ∀ c ∈ (String.ofList (List.replicate n '\r')).toList, Text.isBlank c = true := by
  intro c hc
  rw [String.toList_ofList] at hc
  rw [List.eq_of_mem_replicate hc]
  decide

theorem isBlankLine_eq (h : Trails typed recorded) :
    Text.isBlankLine recorded = Text.isBlankLine typed := by
  obtain ⟨-, n, rfl⟩ := h
  rw [Text.isBlankLine, String.toList_append, List.all_append,
    List.all_eq_true.2 (isBlank_returns n), Bool.and_true, Text.isBlankLine]

/-- The line has the same value with and without the carriage returns, or an error with the same
message. -/
theorem evaluateWith_eq (h : Trails typed recorded) (A : Arithmetic α) (s : Separator) :
    ∃ f : Span → Span, Calculator.evaluateWith A s.char recorded =
      (Calculator.evaluateWith A s.char typed).mapError (Calculator.Failure.mapSpan f) := by
  obtain ⟨-, n, rfl⟩ := h
  exact ⟨_, Calculator.evaluateWith_append_blank A s typed _ (isBlank_returns n)⟩

end Line.Trails

/-! ### At the prompt -/

namespace Interactive

/-- The error lines of the answer to a line. -/
def messages (A : Arithmetic α) (s : Separator) (line : String) : List (List Char) :=
  errorLines (Output.stderr [answer A s line]).toList

theorem answer_of_ok {line : String} {a : α} (h : Calculator.evaluateWith A s.char line = .ok a) :
    answer A s line = .out (A.text a ++ "\n") := by
  rw [answer, h, Batch.verdict]

theorem answer_of_error {line : String} {f : Calculator.Failure}
    (h : Calculator.evaluateWith A s.char line = .error f) :
    answer A s line = .err (complaint line f) := by
  rw [answer, h, Batch.verdict]

theorem messages_of_ok {line : String} {a : α}
    (h : Calculator.evaluateWith A s.char line = .ok a) : messages A s line = [] := by
  rw [messages, answer_of_ok h]
  exact Text.errorLines_nil

theorem messages_of_error {line : String} (hline : IsOneLine line.toList) {f : Calculator.Failure}
    (h : Calculator.evaluateWith A s.char line = .error f) :
    messages A s line = [("error: " ++ f.message).toList] := by
  have hlines := errorLines_complaint_append hline f []
  rw [List.append_nil, Text.errorLines_nil] at hlines
  rw [messages, answer_of_error h, Output.stderr_err, hlines]

/-- The error lines of an answer and of what is written behind it. -/
theorem errorLines_answer_append {line : String} (hline : IsOneLine line.toList)
    (rest : List Char) :
    errorLines ((Output.stderr [answer A s line]).toList ++ rest) =
      messages A s line ++ errorLines rest := by
  cases h : Calculator.evaluateWith A s.char line with
  | ok a =>
      rw [messages_of_ok h, answer_of_ok h]
      rfl
  | error f =>
      rw [messages_of_error hline h, answer_of_error h, Output.stderr_err,
        errorLines_complaint_append hline]
      rfl

/-- All that is written at a prompt if every line is text: the answers, each behind a prompt, and at
the end one more prompt and a line feed. -/
theorem runLines_of_typed (prompt : String) {ls : List Line} {lines : List String}
    (h : ls.map Line.typed? = lines.map some) :
    runLines A s prompt ls =
      ⟨0, lines.flatMap (fun line => [.out prompt, answer A s line]) ++
        [.out prompt, .out "\n"]⟩ := by
  induction ls generalizing lines with
  | nil =>
      obtain rfl := List.map_eq_nil_iff.1 h.symm
      rfl
  | cons l ls ih =>
      obtain ⟨line, lines, rfl, hl, hls⟩ := List.map_eq_cons_iff.1 h.symm
      rw [runLines, ← hl]
      simp only [ih hls.symm, List.flatMap_cons]
      rfl

/-- Prompts are no complaints. -/
theorem stderr_prompted (A : Arithmetic α) (s : Separator) (prompt : String)
    (lines : List String) :
    Output.stderr (lines.flatMap (fun line => [.out prompt, answer A s line]) ++
      [.out prompt, .out "\n"]) = Output.stderr (lines.map (answer A s)) := by
  induction lines with
  | nil => rfl
  | cons line lines ih =>
      have hprompt : Output.stderr [.out prompt, answer A s line] =
          Output.stderr [answer A s line] := rfl
      rw [List.flatMap_cons, List.append_assoc, Output.stderr_append, ih, hprompt,
        ← Output.stderr_append, List.singleton_append, List.map_cons]

/-- The error lines of some answers are those of each of them, one after another. -/
theorem errorLines_answers {lines : List String} (h : ∀ line ∈ lines, IsOneLine line.toList)
    (rest : List Char) :
    errorLines ((Output.stderr (lines.map (answer A s))).toList ++ rest) =
      lines.flatMap (messages A s) ++ errorLines rest := by
  induction lines with
  | nil => rfl
  | cons line lines ih =>
      obtain ⟨hline, hlines⟩ := List.forall_mem_cons.1 h
      rw [List.map_cons, ← List.singleton_append, Output.stderr_append, String.toList_append,
        List.append_assoc, errorLines_answer_append hline, ih hlines, List.flatMap_cons,
        List.append_assoc]

/-- Blank lines yield no values. -/
theorem results_inked (A : Arithmetic α) (s : Separator) (lines : List String) :
    Output.results ((Batch.inked lines).map (answer A s)) =
      Output.results (lines.map (answer A s)) := by
  induction lines with
  | nil => rfl
  | cons line lines ih =>
      cases hb : Text.isBlankLine line with
      | true =>
          have hinked : Batch.inked (line :: lines) = Batch.inked lines :=
            List.filter_cons_of_neg (by simp [hb])
          obtain ⟨f, hf⟩ := Calculator.exists_failure_of_blank A s hb
          rw [hinked, ih, List.map_cons, answer_of_error hf]
          rfl
      | false =>
          have hinked : Batch.inked (line :: lines) = line :: Batch.inked lines :=
            List.filter_cons_of_pos (by simp [hb])
          rw [hinked, List.map_cons, List.map_cons, ← List.singleton_append,
            Output.results_append, ih, ← Output.results_append, List.singleton_append]

end Interactive

/-! ### The same answers -/

namespace Line

open Interactive (answer messages messages_of_ok messages_of_error answer_of_ok answer_of_error)

namespace Trails

variable {typed recorded : String}

theorem results_eq (h : Trails typed recorded) :
    Output.results [answer A s recorded] = Output.results [answer A s typed] := by
  obtain ⟨move, hmove⟩ := h.evaluateWith_eq A s
  cases hr : Calculator.evaluateWith A s.char typed with
  | ok a =>
      rw [hr] at hmove
      rw [answer_of_ok hr, answer_of_ok hmove]
  | error f =>
      rw [hr] at hmove
      rw [answer_of_error hr, answer_of_error hmove]
      rfl

theorem messages_eq (h : Trails typed recorded) :
    messages A s recorded = messages A s typed := by
  obtain ⟨move, hmove⟩ := h.evaluateWith_eq A s
  cases hr : Calculator.evaluateWith A s.char typed with
  | ok a =>
      rw [hr] at hmove
      rw [messages_of_ok hr, messages_of_ok hmove]
  | error f =>
      rw [hr] at hmove
      rw [messages_of_error h.isOneLine_typed hr, messages_of_error h.isOneLine hmove,
        f.message_mapSpan]

end Trails

variable {typed recorded : List String}

theorem isOneLine_of_trails (h : List.Forall₂ Trails typed recorded) :
    (∀ line ∈ typed, IsOneLine line.toList) ∧ ∀ line ∈ recorded, IsOneLine line.toList := by
  induction h with
  | nil => simp
  | cons hline _ ih =>
      exact ⟨List.forall_mem_cons.2 ⟨hline.isOneLine_typed, ih.1⟩,
        List.forall_mem_cons.2 ⟨hline.isOneLine, ih.2⟩⟩

/-- The lines that are not blank are the same ones. -/
theorem trails_inked (h : List.Forall₂ Trails typed recorded) :
    List.Forall₂ Trails (Batch.inked typed) (Batch.inked recorded) := by
  induction h with
  | nil => exact .nil
  | @cons line line' lines lines' hline _ ih =>
      have hblank := hline.isBlankLine_eq
      rw [Batch.inked, Batch.inked, List.filter_cons, List.filter_cons, hblank]
      split
      · exact .cons hline ih
      · exact ih

theorem results_of_trails (h : List.Forall₂ Trails typed recorded) :
    Output.results (recorded.map (answer A s)) = Output.results (typed.map (answer A s)) := by
  induction h with
  | nil => rfl
  | @cons line line' lines lines' hline _ ih =>
      rw [List.map_cons, List.map_cons, ← List.singleton_append, Output.results_append,
        hline.results_eq, ih, ← Output.results_append, List.singleton_append]

theorem messages_of_trails (h : List.Forall₂ Trails typed recorded) :
    recorded.flatMap (messages A s) = typed.flatMap (messages A s) := by
  induction h with
  | nil => rfl
  | @cons line line' lines lines' hline _ ih =>
      rw [List.flatMap_cons, List.flatMap_cons, hline.messages_eq, ih]

end Line

/-! ### In a file -/

namespace Batch

open Interactive (answer)

/-- A file shows on standard output the answers to the lines that are not blank. -/
theorem values_eq (lines : List String) :
    values A s lines = Output.results ((inked lines).map (answer A s)) := by
  rw [values, Output.results, List.filterMap_map]
  refine List.filterMap_congr ?_
  intro line _
  rw [Function.comp_apply, answer]
  cases Calculator.evaluateWith A s.char line <;> rfl

/-- A file shows on standard error the answers to the lines that are not blank. -/
theorem complaints_eq (lines : List String) :
    complaints A s lines = Output.complaints ((inked lines).map (answer A s)) := by
  rw [complaints, Output.complaints, List.filterMap_map]
  refine List.filterMap_congr ?_
  intro line _
  rw [Function.comp_apply, answer]
  cases Calculator.evaluateWith A s.char line <;> rfl

/-- The last words of a run are no results. -/
theorem results_report (summary : String) (t : Tally) :
    (report summary (t, none)).output.results = t.output.results := by
  rw [report]
  split
  · rfl
  · rw [Output.results_append]
    exact List.append_nil _

end Batch

/-! ### Runs of the program -/

namespace Program

open Batch Interactive

end Program

end Reckon

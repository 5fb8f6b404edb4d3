/-
**Errors on standard error.**

A complaint is written as lines of text: one that says `error:` and what is wrong, and two more that
show the line and the carets if there is a place to show.  Since a message is a single line, and the
other two lines start with blanks, the lines that say `error:` can be found again in all that has
been written, and there is exactly one for each complaint.

Main definitions:

* `Text.errorLines` — the lines of a text that report an error.

Main results:

* `ParseError.isOneLine_message`, `Calculator.Failure.isOneLine_message` — every message is a single
  line;
* `Text.errorLines_append` — a text that is cut behind a line;
* `errorLines_complaint_append` — **one error line for each complaint**;
* `errorLines_fileSummary` — the last words of a run over a file are none.
-/

import Reckon.Proofs.Encoding
import Reckon.Proofs.Isolation

set_option autoImplicit false
set_option relaxedAutoImplicit false

namespace Reckon

/-! ### Single lines -/

namespace Text

theorem isOneLine_append {cs ds : List Char} :
    IsOneLine (cs ++ ds) ↔ IsOneLine cs ∧ IsOneLine ds := by
  rw [IsOneLine, IsOneLine, IsOneLine, List.mem_append, not_or]

theorem isOneLine_toDigits {b : Nat} (hb : 1 < b) (n : Nat) : IsOneLine (Nat.toDigits b n) := by
  induction n using Nat.strong_induction_on with
  | _ n ih =>
      have hdigit : ∀ m : Nat, IsOneLine [m.digitChar] := fun m =>
        mt List.mem_singleton.1 (Ne.symm (Nat.digitChar_ne '\n' rfl))
      rw [Nat.toDigits_eq_if hb]
      split
      · exact hdigit n
      · exact isOneLine_append.2 ⟨ih (n / b) (Nat.div_lt_self (by omega) hb), hdigit _⟩

theorem isOneLine_toString (n : Nat) : IsOneLine (toString n).toList := by
  rw [Nat.toString_eq_ofList_toDigits, String.toList_ofList]
  exact isOneLine_toDigits (by decide) n

/-- A line feed is written as an escape. -/
theorem isOneLine_escape {mark : Char} (hmark : mark ≠ '\n') (c : Char) :
    IsOneLine (escape mark c) := by
  unfold escape
  split
  · decide
  split
  · decide
  split
  · decide
  split
  · decide
  · rename_i hfeed
    split
    · decide
    split
    · simpa [IsOneLine] using Ne.symm hmark
    split
    · exact isOneLine_append.2 ⟨isOneLine_append.2 ⟨by decide, isOneLine_toDigits (by decide) _⟩,
        by decide⟩
    · simpa [IsOneLine] using Ne.symm hfeed

theorem isOneLine_quoted (text : String) : IsOneLine (quoted text).toList := by
  have hinner : IsOneLine (text.toList.flatMap (escape '"')) := by
    intro hmem
    obtain ⟨c, -, hc⟩ := List.mem_flatMap.1 hmem
    exact isOneLine_escape (by decide) c hc
  rw [quoted, String.toList_ofList, ← List.singleton_append, isOneLine_append, isOneLine_append]
  exact ⟨⟨by decide, hinner⟩, by decide⟩

theorem isOneLine_quotedChar (c : Char) : IsOneLine (quotedChar c).toList := by
  rw [quotedChar, String.toList_ofList, ← List.singleton_append, isOneLine_append,
    isOneLine_append]
  exact ⟨⟨by decide, isOneLine_escape (by decide) c⟩, by decide⟩

theorem IsOneLine.concat {s t : String} (hs : IsOneLine s.toList) (ht : IsOneLine t.toList) :
    IsOneLine (s ++ t).toList := by
  rw [String.toList_append]
  exact isOneLine_append.2 ⟨hs, ht⟩

end Text

open Text (IsOneLine isOneLine_append)

theorem Kind.isOneLine_described (k : Kind) : IsOneLine k.described.toList := by
  cases k <;> decide

/-- Every message of the engine is a single line. -/
theorem ParseError.isOneLine_message (e : ParseError) : IsOneLine e.message.toList := by
  cases e with
  | noPrefix kind text _ =>
      refine .concat (.concat (.concat ?_ (Text.isOneLine_quoted text)) ?_)
        kind.isOneLine_described <;> simp [IsOneLine]
  | expected wanted found _ =>
      refine .concat (.concat (.concat ?_ wanted.isOneLine_described) ?_)
        found.isOneLine_described <;> simp [IsOneLine]
  | unknownOperation kind _ =>
      refine .concat ?_ kind.isOneLine_described
      simp [IsOneLine]
  | alreadyRegistered kind fixity =>
      refine .concat (.concat (.concat ?_ ?_) kind.isOneLine_described) ?_
      · cases fixity <;> simp [Fixity.name, IsOneLine]
      · simp [IsOneLine]
      · simp [IsOneLine]
  | tooDeep depth _ =>
      refine .concat (.concat ?_ (Text.isOneLine_toString depth)) ?_ <;> simp [IsOneLine]
  | invalidNumber cause =>
      refine .concat ?_ ?_
      · simp [IsOneLine]
      · cases cause <;> simp [NumeralError.message, IsOneLine]

/-- Every message of the calculator is a single line. -/
theorem Calculator.Failure.isOneLine_message (f : Failure) : IsOneLine f.message.toList := by
  cases f with
  | expression cause =>
      refine .concat ?_ cause.isOneLine_message
      simp [IsOneLine]
  | separator c =>
      refine .concat ?_ (.concat (.concat ?_ (Text.isOneLine_quotedChar c)) ?_) <;>
        simp [IsOneLine]

/-- The carets stand in a single line, as the line itself is one. -/
theorem isOneLine_caretLine {line : String} (h : IsOneLine line.toList) (span : Span) :
    IsOneLine (caretLine line span).toList := by
  rw [caretLine, String.toList_ofList, padding, isOneLine_append, isOneLine_append]
  refine ⟨⟨?_, ?_⟩, ?_⟩
  · intro hmem
    obtain ⟨c, hc, heq⟩ := List.mem_map.1 hmem
    split at heq
    · subst heq
      exact h (List.mem_of_mem_take hc)
    · exact absurd heq (by decide)
  · intro hmem
    exact absurd (List.eq_of_mem_replicate hmem) (by decide)
  · intro hmem
    exact absurd (List.eq_of_mem_replicate hmem) (by decide)

/-! ### Error lines -/

namespace Text

/-- The lines of a text that report an error. -/
def errorLines (cs : List Char) : List (List Char) :=
  (cs.splitOn '\n').filter (fun line => "error:".toList.isPrefixOf line)

theorem errorLines_nil : errorLines [] = [] := by decide

/-- A text that is cut behind a line. -/
theorem errorLines_append (cs ds : List Char) :
    errorLines (cs ++ '\n' :: ds) = errorLines cs ++ errorLines ds := by
  rw [errorLines, List.splitOn, List.splitOnP_append_cons cs ds (by rfl), List.filter_append]
  rfl

/-- A single line reports an error or does not. -/
theorem errorLines_of_isOneLine {cs : List Char} (h : IsOneLine cs) :
    errorLines cs = bif "error:".toList.isPrefixOf cs then [cs] else [] := by
  have hsplit : cs.splitOn '\n' = [cs] := by
    refine List.splitOnP_eq_singleton ?_
    intro c hc
    exact beq_false_of_ne (fun heq => h (heq ▸ hc))
  rw [errorLines, hsplit, List.filter_singleton]

end Text

open Text (errorLines errorLines_append errorLines_of_isOneLine)

/-- The line that says `error:` is an error line. -/
theorem errorLines_error (f : Calculator.Failure) :
    errorLines ("error: " ++ f.message).toList = [("error: " ++ f.message).toList] := by
  have hprefix : "error:".toList.isPrefixOf ("error: " ++ f.message).toList = true := by
    rw [String.toList_append, List.isPrefixOf_iff_prefix]
    exact ⟨' ' :: f.message.toList, by simp⟩
  have hone : IsOneLine ("error: " ++ f.message).toList :=
    .concat (by simp [IsOneLine]) f.isOneLine_message
  rw [errorLines_of_isOneLine hone, hprefix, cond_true]

/-- The lines that start with blanks are none. -/
theorem errorLines_shown {text : String} (h : IsOneLine text.toList) :
    errorLines ("  " ++ text).toList = [] := by
  have hprefix : "error:".toList.isPrefixOf ("  " ++ text).toList = false := by
    simp [List.isPrefixOf]
  have hone : IsOneLine ("  " ++ text).toList := .concat (by simp [IsOneLine]) h
  rw [errorLines_of_isOneLine hone, hprefix, cond_false]

/-- **One error line for each complaint.** -/
theorem errorLines_complaint_append {line : String} (hline : IsOneLine line.toList)
    (f : Calculator.Failure) (rest : List Char) :
    errorLines ((complaint line f).toList ++ rest) =
      ("error: " ++ f.message).toList :: errorLines rest := by
  cases hs : f.span with
  | none =>
      have hchars : (complaint line f).toList ++ rest =
          ("error: " ++ f.message).toList ++ '\n' :: rest := by
        simp [complaint, hs]
      rw [hchars, errorLines_append, errorLines_error]
      rfl
  | some span =>
      have hchars : (complaint line f).toList ++ rest =
          ("error: " ++ f.message).toList ++ '\n' :: (("  " ++ line).toList ++
            '\n' :: (("  " ++ caretLine line span).toList ++ '\n' :: rest)) := by
        simp [complaint, hs]
      rw [hchars, errorLines_append, errorLines_append, errorLines_append, errorLines_error,
        errorLines_shown hline, errorLines_shown (isOneLine_caretLine hline span)]
      rfl

/-- The last words of a run over a file are no error line. -/
theorem errorLines_fileSummary (name : String) (n : Nat) :
    errorLines ((Batch.Ending.counted (Batch.fileSummary name)).text n).toList = [] := by
  cases n with
  | zero => exact Text.errorLines_nil
  | succ n =>
      have hone : IsOneLine ("Error: " ++ (toString (n + 1) ++ Batch.fileSummary name)).toList :=
        .concat (by simp [IsOneLine]) (.concat (Text.isOneLine_toString _)
          (.concat (.concat (by simp [IsOneLine]) (Text.isOneLine_quoted name))
            (by simp [IsOneLine])))
      have hprefix : "error:".toList.isPrefixOf
          ("Error: " ++ (toString (n + 1) ++ Batch.fileSummary name)).toList = false := by
        simp [List.isPrefixOf]
      have hchars : ((Batch.Ending.counted (Batch.fileSummary name)).text (n + 1)).toList =
          ("Error: " ++ (toString (n + 1) ++ Batch.fileSummary name)).toList ++ '\n' :: [] := by
        simp [Batch.Ending.text, fatal]
      rw [hchars, errorLines_append, errorLines_of_isOneLine hone, hprefix, Text.errorLines_nil]
      rfl

end Reckon

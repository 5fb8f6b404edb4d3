/-
**Which texts are numbers.**

A reader of floating-point literals knows more than the calculator lets it see: signs, exponents,
words for what is not finite.  The calculator hands it a text in which every character but the
digits has become a point.  So all characters but the digits are marks, one as good as another; a
text is a number exactly if it holds a digit and no more than one mark, and its value depends on the
digits and on the place of the mark.

All that is needed of the reader is what it makes of texts of digits and points, and of those only
which ones it accepts.  Everything else about it is left open, and so the statements hold of every
such reader (`FloatReader`).  The calculator's own one knows no literals but numerals.

Main definitions:

* `Numeral.IsNumeral`, `Numeral.IsPlain` — numerals, and texts of digits and points;
* `Numeral.isMark`, `Numeral.HoldsNumber` — marks, and texts with a digit and at most one mark;
* `FloatReader`, `FloatReader.number` — a reader of literals, and the number that it finds in a text
  whose marks have become points;
* `Arithmetic.reader` — the reader of the calculator;
* `FloatReader.Recognizes` — which texts are numbers, and what decides about their values.

Main results:

* `Numeral.exists_read_iff` — the texts that the calculator's reader accepts are the numerals;
* `Numeral.isNumeral_pointed_iff` — **pointing makes a numeral** of a text with a digit and at most
  one mark, and of no other;
* `Numeral.pointed_congr` — only the digits and the place of the mark matter;
* `Arithmetic.number_recognizes` — which texts are numbers.
-/

import Reckon.Arithmetic
import Reckon.Proofs.Numbers

set_option autoImplicit false
set_option relaxedAutoImplicit false

namespace Reckon

namespace Numeral

/-! ### Numerals -/

/-- Digits with at most one point among them, at least one digit in all. -/
inductive IsNumeral : List Char → Prop
  | whole {digits : List Char} (hne : digits ≠ []) (h : ∀ c ∈ digits, c.isDigit = true) :
      IsNumeral digits
  | point {whole fraction : List Char} (hne : whole ++ fraction ≠ [])
      (hw : ∀ c ∈ whole, c.isDigit = true) (hf : ∀ c ∈ fraction, c.isDigit = true) :
      IsNumeral (whole ++ '.' :: fraction)

/-- A text of digits and points. -/
def IsPlain (cs : List Char) : Prop := ∀ c ∈ cs, c.isDigit = true ∨ c = '.'

theorem IsPlain.head?_ne_minus {cs : List Char} (h : IsPlain cs) : cs.head? ≠ some '-' := by
  intro hhead
  have hmem : '-' ∈ cs := List.mem_of_head? hhead
  exact absurd (h '-' hmem) (by decide)

theorem IsNumeral.exists_read {cs : List Char} (h : IsNumeral cs) : ∃ n, read cs = .ok n := by
  cases h with
  | whole hne h => exact ⟨_, read_digits hne h⟩
  | point hne hw hf => exact ⟨_, read_digits_point hne hw hf⟩

/-- What the reader says of a text: it is a numeral, or it is refused for one of the two reasons. -/
theorem read_cases (cs : List Char) :
    IsNumeral cs ∨ read cs = .error (if cs = [] then .empty else .malformed) := by
  have hw : ∀ c ∈ cs.takeWhile Char.isDigit, c.isDigit = true :=
    List.all_eq_true.1 List.all_takeWhile
  have hcs : cs.takeWhile Char.isDigit ++ cs.dropWhile Char.isDigit = cs :=
    List.takeWhile_append_dropWhile
  by_cases hnil : cs = []
  · rw [hnil]
    exact Or.inr rfl
  · cases hd : cs.dropWhile Char.isDigit with
    | nil =>
        rw [hd, List.append_nil] at hcs
        rw [hcs] at hw
        exact Or.inl (.whole hnil hw)
    | cons c fraction =>
        rw [hd] at hcs
        by_cases hpoint : c = '.' ∧ fraction.all Char.isDigit = true ∧
            cs.takeWhile Char.isDigit ++ fraction ≠ []
        · obtain ⟨rfl, hf, hne⟩ := hpoint
          rw [← hcs]
          exact Or.inl (.point hne hw (List.all_eq_true.1 hf))
        · right
          rw [read, if_neg hnil, if_neg hnil]
          simp only [hd]
          exact if_neg hpoint

/-- The texts that are read are the numerals. -/
theorem exists_read_iff {cs : List Char} : (∃ n, read cs = .ok n) ↔ IsNumeral cs := by
  refine ⟨?_, IsNumeral.exists_read⟩
  rintro ⟨n, hn⟩
  rcases read_cases cs with h | h
  · exact h
  · rw [hn] at h
    cases h

theorem read_eq_error {cs : List Char} (h : ¬ IsNumeral cs) :
    read cs = .error (if cs = [] then .empty else .malformed) :=
  (read_cases cs).resolve_left h

/-! ### Marks -/

def isMark (c : Char) : Bool := !c.isDigit

/-- A text with at least one digit and at most one mark. -/
structure HoldsNumber (cs : List Char) : Prop where
  digit : 0 < cs.countP Char.isDigit
  mark : cs.countP isMark ≤ 1

theorem not_holdsNumber_nil : ¬ HoldsNumber [] := fun h => Nat.not_lt_zero _ h.digit

/-- A text with at most one mark is digits, or digits around a mark. -/
theorem cases_of_countP_le {cs : List Char} (h : cs.countP isMark ≤ 1) :
    (∀ c ∈ cs, c.isDigit = true) ∨
      ∃ whole c fraction, cs = whole ++ c :: fraction ∧ (∀ d ∈ whole, d.isDigit = true) ∧
        c.isDigit = false ∧ ∀ d ∈ fraction, d.isDigit = true := by
  induction cs with
  | nil => exact Or.inl (fun c hc => absurd hc List.not_mem_nil)
  | cons c cs ih =>
      rw [List.countP_cons] at h
      cases hc : c.isDigit with
      | true =>
          rcases ih (Nat.le_trans (Nat.le_add_right _ _) h) with hall | hmark
          · exact Or.inl (List.forall_mem_cons.2 ⟨hc, hall⟩)
          · obtain ⟨whole, m, fraction, rfl, hw, hm, hf⟩ := hmark
            exact Or.inr ⟨c :: whole, m, fraction, rfl, List.forall_mem_cons.2 ⟨hc, hw⟩, hm, hf⟩
      | false =>
          -- the first mark is the only one
          have hrest : cs.countP isMark = 0 := by
            rw [if_pos (by simp [isMark, hc])] at h
            omega
          refine Or.inr ⟨[], c, cs, rfl, fun d hd => absurd hd List.not_mem_nil, hc, ?_⟩
          intro d hd
          simpa [isMark] using List.countP_eq_zero.1 hrest d hd

theorem countP_isMark_eq_zero {digits : List Char} (h : ∀ c ∈ digits, c.isDigit = true) :
    digits.countP isMark = 0 :=
  List.countP_eq_zero.2 (fun c hc => by simp [isMark, h c hc])

/-- A numeral holds a digit, and a mark at most once. -/
theorem IsNumeral.holdsNumber {cs : List Char} (h : IsNumeral cs) : HoldsNumber cs := by
  cases h with
  | whole hne h =>
      refine ⟨?_, ?_⟩
      · rw [List.countP_eq_length.2 h]
        exact List.length_pos_iff.2 hne
      · rw [countP_isMark_eq_zero h]
        exact Nat.zero_le 1
  | @point whole fraction hne hw hf =>
      refine ⟨?_, ?_⟩
      · have hlen : 0 < (whole ++ fraction).length := List.length_pos_iff.2 hne
        rw [List.length_append] at hlen
        rw [List.countP_append, List.countP_cons, List.countP_eq_length.2 hw,
          List.countP_eq_length.2 hf]
        omega
      · rw [List.countP_append, List.countP_cons, countP_isMark_eq_zero hw,
          countP_isMark_eq_zero hf]
        exact Nat.le_refl 1

/-! ### Pointing -/

theorem isDigit_point (c : Char) : (if c.isDigit then c else '.').isDigit = c.isDigit := by
  cases h : c.isDigit with
  | true => rw [if_pos rfl, h]
  | false => rfl

theorem isPlain_pointed (cs : List Char) : IsPlain (pointed cs) := by
  intro c hc
  obtain ⟨d, -, rfl⟩ := List.mem_map.1 hc
  cases h : d.isDigit with
  | true => exact Or.inl h
  | false => exact Or.inr rfl

theorem countP_pointed (cs : List Char) :
    (pointed cs).countP Char.isDigit = cs.countP Char.isDigit ∧
      (pointed cs).countP isMark = cs.countP isMark := by
  rw [pointed, List.countP_map, List.countP_map]
  have hdigit : Char.isDigit ∘ (fun c => if c.isDigit then c else '.') = Char.isDigit :=
    funext isDigit_point
  have hmark : isMark ∘ (fun c => if c.isDigit then c else '.') = isMark :=
    funext fun c => congrArg not (isDigit_point c)
  rw [hdigit, hmark]
  exact ⟨rfl, rfl⟩

/-- Pointing changes neither the number of digits nor the number of marks. -/
theorem holdsNumber_pointed_iff {cs : List Char} : HoldsNumber (pointed cs) ↔ HoldsNumber cs := by
  obtain ⟨hdigit, hmark⟩ := countP_pointed cs
  constructor
  · intro h
    exact ⟨hdigit ▸ h.digit, hmark ▸ h.mark⟩
  · intro h
    exact ⟨hdigit.symm ▸ h.digit, hmark.symm ▸ h.mark⟩

/-- **Pointing makes a numeral** of a text with a digit and at most one mark, and of no other. -/
theorem isNumeral_pointed_iff {cs : List Char} : IsNumeral (pointed cs) ↔ HoldsNumber cs := by
  constructor
  · intro h
    exact holdsNumber_pointed_iff.1 h.holdsNumber
  · rintro ⟨hdigit, hmark⟩
    rcases cases_of_countP_le hmark with hall | ⟨whole, c, fraction, rfl, hw, hc, hf⟩
    · rw [pointed_eq_self hall]
      refine .whole ?_ hall
      rintro rfl
      exact not_holdsNumber_nil ⟨hdigit, hmark⟩
    · rw [pointed_mark hw hc hf]
      refine .point ?_ hw hf
      intro hnil
      obtain ⟨rfl, rfl⟩ := List.append_eq_nil_iff.1 hnil
      simp [hc] at hdigit

theorem findIdx?_isMark_eq_none {digits : List Char} (h : ∀ c ∈ digits, c.isDigit = true) :
    digits.findIdx? isMark = none :=
  List.findIdx?_eq_none_iff.2 (fun c hc => by simp [isMark, h c hc])

/-- The digits around a mark, and the place of the mark. -/
theorem parts_of_mark {whole fraction : List Char} {c : Char}
    (hw : ∀ d ∈ whole, d.isDigit = true) (hc : c.isDigit = false)
    (hf : ∀ d ∈ fraction, d.isDigit = true) :
    (whole ++ c :: fraction).filter Char.isDigit = whole ++ fraction ∧
      (whole ++ c :: fraction).findIdx? isMark = some whole.length := by
  constructor
  · rw [List.filter_append, List.filter_cons_of_neg (by simp [hc]), List.filter_eq_self.2 hw,
      List.filter_eq_self.2 hf]
  · rw [List.findIdx?_append, findIdx?_isMark_eq_none hw, List.findIdx?_cons]
    simp [isMark, hc]

/-- Two texts with the same digits, and with the mark in the same place if there is one, are written
in the same way with a point. -/
theorem pointed_congr {cs ds : List Char} (hcs : cs.countP isMark ≤ 1)
    (hds : ds.countP isMark ≤ 1) (hdigits : cs.filter Char.isDigit = ds.filter Char.isDigit)
    (hplace : cs.findIdx? isMark = ds.findIdx? isMark) : pointed cs = pointed ds := by
  rcases cases_of_countP_le hcs with hall | ⟨whole, c, fraction, rfl, hw, hc, hf⟩
  · rcases cases_of_countP_le hds with hall' | ⟨whole', c', fraction', rfl, hw', hc', hf'⟩
    · rw [List.filter_eq_self.2 hall, List.filter_eq_self.2 hall'] at hdigits
      rw [hdigits]
    · rw [findIdx?_isMark_eq_none hall, (parts_of_mark hw' hc' hf').2] at hplace
      cases hplace
  · rcases cases_of_countP_le hds with hall' | ⟨whole', c', fraction', rfl, hw', hc', hf'⟩
    · rw [findIdx?_isMark_eq_none hall', (parts_of_mark hw hc hf).2] at hplace
      cases hplace
    · rw [(parts_of_mark hw hc hf).1, (parts_of_mark hw' hc' hf').1] at hdigits
      rw [(parts_of_mark hw hc hf).2, (parts_of_mark hw' hc' hf').2, Option.some_inj] at hplace
      obtain ⟨rfl, rfl⟩ := List.append_inj hdigits hplace
      rw [pointed_mark hw hc hf, pointed_mark hw' hc' hf']

/-- All marks are alike. -/
theorem pointed_map {f : Char → Char} (hdigit : ∀ c, c.isDigit = true → f c = c)
    (hmark : ∀ c, isMark c = true → isMark (f c) = true) (cs : List Char) :
    pointed (cs.map f) = pointed cs := by
  rw [pointed, pointed, List.map_map]
  refine List.map_congr_left ?_
  intro c _
  rw [Function.comp_apply]
  cases hc : c.isDigit with
  | true => rw [hdigit c hc, hc]
  | false =>
      have hfc : (f c).isDigit = false := by simpa [isMark, hc] using hmark c
      rw [hfc]
      rfl

theorem pointed_eq_nil_iff {cs : List Char} : pointed cs = [] ↔ cs = [] := List.map_eq_nil_iff

end Numeral

/-! ### Readers -/

open Numeral

/-- A reader of floating-point literals.  Of the texts of digits and points it accepts the numerals,
and refuses the empty text for a reason of its own.  What it makes of other texts, such as those
with a sign, an exponent or a word, is left open, and so are all values. -/
structure FloatReader (α : Type) where
  read : List Char → Except NumeralError α
  accepts_iff : ∀ cs, IsPlain cs → ((∃ a, read cs = .ok a) ↔ IsNumeral cs)
  refuses : ∀ cs, IsPlain cs → ¬ IsNumeral cs →
    read cs = .error (if cs = [] then .empty else .malformed)

namespace FloatReader

variable {α : Type}

/-- What the reader says of a text as it stands. -/
def answer (F : FloatReader α) (cs : List Char) : Except ParseError α :=
  match F.read cs with
  | .ok a => .ok a
  | .error e => .error (.invalidNumber e)

/-- What it says of a text whose marks have become points. -/
def number (F : FloatReader α) (text : String) : Except ParseError α :=
  F.answer (pointed text.toList)

theorem exists_answer_iff (F : FloatReader α) {cs : List Char} (h : IsPlain cs) :
    (∃ a, F.answer cs = .ok a) ↔ IsNumeral cs := by
  rw [← F.accepts_iff cs h, answer]
  cases F.read cs <;> simp

theorem answer_eq_error (F : FloatReader α) {cs : List Char} (h : IsPlain cs)
    (hn : ¬ IsNumeral cs) :
    F.answer cs = .error (.invalidNumber (if cs = [] then .empty else .malformed)) := by
  rw [answer, F.refuses cs h hn]

/-- Which texts are numbers. -/
theorem exists_number_iff (F : FloatReader α) (text : String) :
    (∃ a, F.number text = .ok a) ↔ HoldsNumber text.toList := by
  rw [number, F.exists_answer_iff (isPlain_pointed _), isNumeral_pointed_iff]

/-- Why the others are refused. -/
theorem number_eq_error_iff (F : FloatReader α) (text : String) (e : NumeralError) :
    F.number text = .error (.invalidNumber e) ↔
      ¬ HoldsNumber text.toList ∧ (if text = "" then .empty else .malformed) = e := by
  by_cases h : HoldsNumber text.toList
  · obtain ⟨a, ha⟩ := (F.exists_number_iff text).2 h
    simp [ha, h]
  · have hnil : pointed text.toList = [] ↔ text = "" := by
      rw [pointed_eq_nil_iff, String.toList_eq_nil_iff]
    rw [number, F.answer_eq_error (isPlain_pointed _) (mt isNumeral_pointed_iff.1 h)]
    simp only [hnil, h, not_false_eq_true, true_and, Except.error.injEq,
      ParseError.invalidNumber.injEq]

/-- Which texts are numbers to a reader, and what decides about their values.  A text is a number
exactly if it holds a digit and at most one other character; the empty text is refused as such, and
every other one as no literal.  Digits are read as they stand, and digits around another character
as digits around a point: which character it is, a sign, a letter or any other, makes no difference,
and neither does what the reader makes of texts with signs, exponents or words. -/
structure Recognizes (F : FloatReader α) (text : String) : Prop where
  ok_iff : (∃ a, F.number text = .ok a) ↔
    0 < text.toList.countP Char.isDigit ∧ text.toList.countP isMark ≤ 1
  empty_iff : F.number text = .error (.invalidNumber .empty) ↔ text = ""
  malformed_iff : F.number text = .error (.invalidNumber .malformed) ↔
    text ≠ "" ∧ ¬ ∃ a, F.number text = .ok a
  digits_eq : (∀ c ∈ text.toList, c.isDigit = true) → F.number text = F.answer text.toList
  mark_eq : ∀ whole c fraction, text.toList = whole ++ c :: fraction →
    (∀ d ∈ whole, d.isDigit = true) → isMark c = true → (∀ d ∈ fraction, d.isDigit = true) →
    F.number text = F.answer (whole ++ '.' :: fraction)
  determined : ∀ text', (∃ a, F.number text = .ok a) → (∃ a, F.number text' = .ok a) →
    text'.toList.filter Char.isDigit = text.toList.filter Char.isDigit →
    text'.toList.findIdx? isMark = text.toList.findIdx? isMark →
    F.number text' = F.number text
  marks_alike : ∀ f : Char → Char, (∀ c, c.isDigit = true → f c = c) →
    (∀ c, isMark c = true → isMark (f c) = true) → F.number (text.map f) = F.number text
  unread : ∀ F' : FloatReader α, (∀ cs, IsPlain cs → F'.read cs = F.read cs) →
    F'.number text = F.number text

theorem recognizes (F : FloatReader α) (text : String) : F.Recognizes text where
  ok_iff := (F.exists_number_iff text).trans
    ⟨fun h => ⟨h.digit, h.mark⟩, fun h => ⟨h.1, h.2⟩⟩
  empty_iff := by
    rw [F.number_eq_error_iff]
    by_cases h : text = "" <;> simp [h, not_holdsNumber_nil]
  malformed_iff := by
    rw [F.number_eq_error_iff, F.exists_number_iff, and_comm]
    refine and_congr_left fun _ => ?_
    by_cases h : text = "" <;> simp [h]
  digits_eq h := by rw [number, pointed_eq_self h]
  mark_eq whole c fraction htext hw hc hf := by
    rw [number, htext, pointed_mark hw (by simpa [isMark] using hc) hf]
  determined text' h h' hdigits hplace := by
    rw [F.exists_number_iff] at h h'
    rw [number, number, pointed_congr h'.mark h.mark hdigits hplace]
  marks_alike f hdigit hmark := by
    rw [number, number, String.toList_map, pointed_map hdigit hmark]
  unread F' h := by
    rw [number, number, answer, answer, h _ (isPlain_pointed _)]

end FloatReader

namespace Arithmetic

variable {α : Type}

/-- The reader of the calculator, which knows numerals only. -/
def reader (A : Arithmetic α) : FloatReader α where
  read cs := (Numeral.read cs).map A.ofNumeral
  accepts_iff cs _ := by
    rw [← exists_read_iff]
    cases Numeral.read cs <;> simp [Except.map]
  refuses cs _ hn := by
    rw [read_eq_error hn]
    rfl

theorem number_eq_number_reader (A : Arithmetic α) : A.number = A.reader.number := by
  funext text
  have hread : A.reader.read (pointed text.toList) =
      (Numeral.read (pointed text.toList)).map A.ofNumeral := rfl
  rw [number, FloatReader.number, FloatReader.answer, Numeral.ofText, hread]
  cases Numeral.read (pointed text.toList) <;> rfl

/-- **Which texts are numbers.**  The calculator takes its numbers from a reader of literals, and
whatever such a reader is: a text is a number exactly if it holds at least one digit and at most one
character that is none, be it a separator, a sign, a letter or anything else.  The empty text is
refused with an error of its own, and all other texts with another one.  The value is what the
reader says of the digits with a point in the place of the other character; it depends on the digits
and on that place only.  Nothing but digits and points is ever shown to the reader, so it does not
matter what it makes of signs, exponents and words. -/
theorem number_recognizes (A : Arithmetic α) :
    A.number = A.reader.number ∧ (∀ (F : FloatReader α) (text : String), F.Recognizes text) ∧
      (ParseError.invalidNumber .empty).message =
        "invalid number cannot parse float from empty string" ∧
      (ParseError.invalidNumber .malformed).message = "invalid number invalid float literal" :=
  ⟨A.number_eq_number_reader, fun F text => F.recognizes text, rfl, rfl⟩

/-- A reader that knows a sign in front of a numeral. -/
def signedReader (A : Arithmetic α) : FloatReader α where
  read cs :=
    if cs.head? = some '-' then (Numeral.read cs.tail).map fun n => A.neg (A.ofNumeral n)
    else A.reader.read cs
  accepts_iff cs h := by
    rw [if_neg h.head?_ne_minus, A.reader.accepts_iff cs h]
  refuses cs h hn := by
    rw [if_neg h.head?_ne_minus, A.reader.refuses cs h hn]

/-- To a reader that knows signs, `-5` is the opposite of five.  In the calculator it is a half, as
the sign has become a point before the reader sees it. -/
theorem number_recognizes_signed :
    float.signedReader.answer ['-', '5'] = .ok (float.neg (float.ofNumeral ⟨5, 0⟩)) ∧
      float.signedReader.number "-5" = float.number "-5" ∧
      float.number "-5" = .ok (float.ofNumeral ⟨5, 1⟩) := by
  obtain ⟨hnumber, hrecognizes, -⟩ := number_recognizes float
  have hsame : ∀ cs, IsPlain cs → float.signedReader.read cs = float.reader.read cs :=
    fun _ h => if_neg h.head?_ne_minus
  refine ⟨rfl, ?_, rfl⟩
  rw [hnumber]
  exact (hrecognizes float.reader "-5").unread float.signedReader hsame

end Arithmetic

end Reckon

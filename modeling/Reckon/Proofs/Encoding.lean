/-
**Lines of an encoded text.**

Input is cut into lines before it is decoded.  In the encoding of a text the byte of the line feed
stands for line feeds only, so cutting the bytes never tears a character apart: every line of the
bytes is the encoding of characters without a line feed, and each of them can be decoded.

A file and a prompt deliver the same line with different endings.  A file takes away at most one
carriage return and only in front of a line feed, a prompt takes away all that the line ends with;
so what a file delivers is what the prompt delivers with some carriage returns behind it.

Main definitions:

* `Text.encode` — the bytes of some characters;
* `Line.Holds` — a line that is the encoding of some characters;
* `Text.IsOneLine` — a text without line feeds;
* `Line.Trails` — a text and the same text with carriage returns behind it.

Main results:

* `Text.toList_toUTF8` — the bytes of a text;
* `Text.exists_holds` — every line of an encoded text can be decoded;
* `Line.Holds.exists_trails`, `Text.exists_trails` — **a file delivers what a prompt does, with
  carriage returns behind it**.
-/

import Mathlib.Data.List.DropRight
import Mathlib.Data.List.Forall2
import Reckon.Text.Lines

set_option autoImplicit false
set_option relaxedAutoImplicit false

namespace Reckon

namespace Text

/-- The bytes of some characters, as UTF-8 encodes them. -/
def encode (cs : List Char) : List UInt8 := cs.flatMap String.utf8EncodeChar

def IsOneLine (cs : List Char) : Prop := '\n' ∉ cs

instance (cs : List Char) : Decidable (IsOneLine cs) := inferInstanceAs (Decidable (¬ '\n' ∈ cs))

end Text

/-- The bytes of the line encode the characters, and none of these is a line feed. -/
structure Line.Holds (l : Line) (cs : List Char) : Prop where
  body_eq : l.body = Text.encode cs
  isOneLine : Text.IsOneLine cs

namespace Text

/-! ### The bytes of a text -/

theorem toList_loop (bytes : ByteArray) (i : Nat) (done : List UInt8) :
    ByteArray.toList.loop bytes i done = done.reverse ++ bytes.data.toList.drop i := by
  induction hn : bytes.size - i generalizing i done with
  | zero =>
      have hle : bytes.size ≤ i := Nat.le_of_sub_eq_zero hn
      have hdrop : bytes.data.toList.drop i = [] := List.drop_eq_nil_of_le hle
      rw [ByteArray.toList.loop, if_neg (Nat.not_lt.2 hle), hdrop, List.append_nil]
  | succ n ih =>
      have hlt : i < bytes.size := by omega
      have hi : i < bytes.data.toList.length := hlt
      have hget : bytes.get! i = bytes.data.toList[i] := by
        change bytes.data[i]! = _
        rw [Array.getElem_toList]
        exact getElem!_pos bytes.data i hi
      rw [ByteArray.toList.loop, if_pos hlt, ih (i + 1) _ (by omega), List.reverse_cons,
        List.append_assoc, List.singleton_append, hget, ← List.drop_eq_getElem_cons hi]

/-- The bytes of a text are those of its characters. -/
theorem toList_toUTF8 (text : String) : text.toUTF8.toList = encode text.toList := by
  have hbytes : text.toUTF8 = (encode text.toList).toByteArray := by
    rw [String.toUTF8_eq_toByteArray, encode, ← List.utf8Encode, ← String.toByteArray_ofList,
      String.ofList_toList]
  rw [hbytes, ByteArray.toList, toList_loop, List.toList_data_toByteArray]
  rfl

/-- The byte of the line feed stands for no other character. -/
theorem feed_not_mem_utf8EncodeChar {c : Char} (h : c ≠ '\n') :
    Line.feed ∉ String.utf8EncodeChar c := by
  have hval : c.val.toNat ≠ 10 := by
    intro hval
    exact h (Char.ext (UInt32.toNat_inj.1 hval))
  -- all bytes of a longer encoding are at least 128
  have hbyte : ∀ n : Nat, n % 256 ≠ 10 → Line.feed ≠ UInt8.ofNat n := by
    intro n hn heq
    have hnat := congrArg UInt8.toNat heq
    rw [UInt8.toNat_ofNat'] at hnat
    exact hn hnat.symm
  rw [String.utf8EncodeChar]
  repeat' split
  all_goals
    simp only [List.mem_cons, List.not_mem_nil, or_false, not_or]
    repeat' constructor
    all_goals
      apply hbyte
      omega

/-! ### Cutting -/

/-- Bytes without a line feed go in front of the first line. -/
theorem foldr_consByte {bytes : List UInt8} (hne : bytes ≠ []) (h : Line.feed ∉ bytes)
    (lines : List Line) :
    bytes.foldr consByte lines =
      match lines with
      | [] => [⟨bytes, false⟩]
      | l :: ls => ⟨bytes ++ l.body, l.terminated⟩ :: ls := by
  induction bytes with
  | nil => exact absurd rfl hne
  | cons b bytes ih =>
      obtain ⟨hb, hbytes⟩ := not_or.1 (mt List.mem_cons.2 h)
      rw [List.foldr_cons]
      by_cases hnil : bytes = []
      · subst hnil
        cases lines <;> simp [consByte, Ne.symm hb]
      · rw [ih hnil hbytes]
        cases lines <;> simp [consByte, Ne.symm hb]

/-- Every line of an encoded text is an encoded text without line feeds. -/
theorem exists_holds (cs : List Char) : ∀ l ∈ splitLines (encode cs), ∃ ds, l.Holds ds := by
  induction cs with
  | nil => simp [encode]
  | cons c cs ih =>
      have hcons : splitLines (encode (c :: cs)) =
          (String.utf8EncodeChar c).foldr consByte (splitLines (encode cs)) := by
        rw [encode, List.flatMap_cons, splitLines, List.foldr_append]
        rfl
      rw [hcons]
      by_cases hc : c = '\n'
      · -- the line that the line feed ends is empty
        subst hc
        have hfeed : (String.utf8EncodeChar '\n').foldr consByte (splitLines (encode cs)) =
            ⟨[], true⟩ :: splitLines (encode cs) := rfl
        rw [hfeed]
        exact List.forall_mem_cons.2 ⟨⟨[], rfl, by simp [IsOneLine]⟩, ih⟩
      · rw [foldr_consByte String.utf8EncodeChar_ne_nil (feed_not_mem_utf8EncodeChar hc)]
        cases hls : splitLines (encode cs) with
        | nil =>
            refine List.forall_mem_singleton.2 ⟨[c], ?_, ?_⟩
            · rw [encode, List.flatMap_singleton]
            · simpa [IsOneLine] using Ne.symm hc
        | cons l ls =>
            rw [hls] at ih
            obtain ⟨⟨ds, hds, hone⟩, hls⟩ := List.forall_mem_cons.1 ih
            refine List.forall_mem_cons.2 ⟨⟨c :: ds, ?_, ?_⟩, hls⟩
            · rw [hds, encode, encode, List.flatMap_cons]
            · exact mt List.mem_cons.1 (not_or.2 ⟨Ne.symm hc, hone⟩)

end Text

namespace Line

/-! ### What is delivered -/

variable {l : Line} {cs : List Char}

/-- The characters that a line holds are its text. -/
theorem Holds.text?_eq (h : l.Holds cs) : l.text? = some (String.ofList cs) := by
  have hbytes : ByteArray.mk l.body.toArray = (String.ofList cs).toByteArray := by
    rw [h.body_eq, String.toByteArray_ofList]
    exact ByteArray.ext List.data_toByteArray.symm
  rw [text?, hbytes, String.fromUTF8?, dif_pos (String.ofList cs).isValidUTF8]
  rfl

/-- The second text is the first one with carriage returns behind it, and both are single lines. -/
structure Trails (typed recorded : String) : Prop where
  isOneLine : Text.IsOneLine recorded.toList
  exists_returns : ∃ n, recorded = typed ++ String.ofList (List.replicate n '\r')

theorem toList_dropReturns (text : String) :
    (dropReturns text).toList = text.toList.rdropWhile (· == '\r') := String.toList_ofList

/-- A text is what is left of it and the carriage returns that are taken away. -/
theorem exists_dropReturns (text : String) :
    ∃ n, text = dropReturns text ++ String.ofList (List.replicate n '\r') := by
  have hreturns : text.toList.rtakeWhile (· == '\r') =
      List.replicate (text.toList.rtakeWhile (· == '\r')).length '\r' := by
    refine List.eq_replicate_iff.2 ⟨rfl, ?_⟩
    intro c hc
    have hreturn := List.mem_rtakeWhile_imp hc
    exact beq_iff_eq.1 hreturn
  refine ⟨(text.toList.rtakeWhile (· == '\r')).length, String.toList_inj.1 ?_⟩
  rw [String.toList_append, toList_dropReturns, String.toList_ofList, ← hreturns]
  exact List.rdropWhile_append_rtakeWhile.symm

/-- A carriage return that is taken away first would be taken away anyway. -/
theorem dropReturns_dropReturn (text : String) :
    dropReturns (dropReturn text) = dropReturns text := by
  by_cases hlast : text.toList.getLast? = some '\r'
  · have hconcat := List.dropLast_append_getLast? '\r' hlast
    refine String.toList_inj.1 ?_
    rw [dropReturn, if_pos hlast, toList_dropReturns, toList_dropReturns, String.toList_ofList]
    conv_rhs => rw [← hconcat]
    rw [List.rdropWhile_concat_pos _ _ _ rfl]
  · rw [dropReturn, if_neg hlast]

theorem isOneLine_dropReturn {text : String} (h : Text.IsOneLine text.toList) :
    Text.IsOneLine (dropReturn text).toList := by
  unfold dropReturn
  split
  · rw [String.toList_ofList]
    exact mt (fun hmem => List.dropLast_subset _ hmem) h
  · exact h

/-- **A file delivers what a prompt does, with carriage returns behind it.** -/
theorem Holds.exists_trails (h : l.Holds cs) :
    ∃ typed recorded, l.typed? = some typed ∧ l.recorded? = some recorded ∧
      Trails typed recorded := by
  have hone : Text.IsOneLine (String.ofList cs).toList := by
    rw [String.toList_ofList]
    exact h.isOneLine
  rw [typed?, recorded?, h.text?_eq]
  refine ⟨_, _, rfl, rfl, ?_⟩
  cases l.terminated with
  | false => exact ⟨hone, exists_dropReturns _⟩
  | true =>
      refine ⟨isOneLine_dropReturn hone, ?_⟩
      have hreturns := exists_dropReturns (dropReturn (String.ofList cs))
      rwa [dropReturns_dropReturn] at hreturns

end Line

/-- Line by line, a file with an encoded text delivers what a prompt does, with carriage returns
behind it. -/
theorem Text.exists_trails (text : String) :
    ∃ typed recorded : List String,
      (splitLines text.toUTF8.toList).map Line.typed? = typed.map some ∧
      (splitLines text.toUTF8.toList).map Line.recorded? = recorded.map some ∧
      List.Forall₂ Line.Trails typed recorded := by
  have hholds := exists_holds text.toList
  rw [toList_toUTF8]
  generalize splitLines (encode text.toList) = ls at hholds ⊢
  induction ls with
  | nil => exact ⟨[], [], rfl, rfl, .nil⟩
  | cons l ls ih =>
      obtain ⟨⟨ds, hl⟩, hls⟩ := List.forall_mem_cons.1 hholds
      obtain ⟨line, line', ht, hr, htrails⟩ := hl.exists_trails
      obtain ⟨lines, lines', hts, hrs, hall⟩ := ih hls
      refine ⟨line :: lines, line' :: lines', ?_, ?_, .cons htrails hall⟩
      · rw [List.map_cons, List.map_cons, ht, hts]
      · rw [List.map_cons, List.map_cons, hr, hrs]

end Reckon

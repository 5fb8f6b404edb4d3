/-
**Going on differently behind a token.**

A line can be cut behind any of its tokens, and whatever is written there, the tokens in front of
the cut stay the same, as long as the first character behind it does not go on with the last of
them.  A blank will do, or a letter where the blank is the separator.  So there is a line for
every way to go on from the first tokens of a line.

Main definitions:

* `Lexer.Keeps` — a line that holds the same characters up to some position, and goes on there with
  a character that belongs to no token.

Main results:

* `Lexer.IsCut.move` — a token stands wherever its characters stand and are not gone on with;
* `Lexer.IsCut.keep`, `Lexer.Walk.keep` — the tokens in front of the cut are kept;
* `Lexer.exists_line_continuing` — **a line for every continuation**.
-/

import Reckon.Proofs.Layout

set_option autoImplicit false
set_option relaxedAutoImplicit false

namespace Reckon

/-- Two spans of the same length cover the same characters if these are the same one by one. -/
theorem Span.slice_congr {s s' : Span} {chars chars' : List Char} (hlen : s'.length = s.length)
    (h : ∀ n, n < s.length → chars'[s'.start + n]? = chars[s.start + n]?) :
    s'.slice chars' = s.slice chars := by
  refine List.ext_getElem? ?_
  intro n
  rw [slice, slice, List.getElem?_take, List.getElem?_take, List.getElem?_drop, List.getElem?_drop,
    hlen]
  by_cases hn : n < s.length
  · rw [if_pos hn, if_pos hn, h n hn]
  · rw [if_neg hn, if_neg hn]

namespace Lexer

/-- A token stands in every line that holds its characters, at the same distance each, and behind
them the same character as before or one that belongs to no token. -/
theorem IsCut.move {separator : Char} {chars chars' : List Char} {t u : Token} {d : Nat}
    (ht : IsCut separator chars t) (hkind : u.kind = t.kind) (htext : u.text = t.text)
    (hspan : u.span = some ⟨t.place.start + d, t.place.stop + d⟩)
    (hchars : ∀ i, t.place.Covers i → chars'[i + d]? = chars[i]?)
    (hend : ∀ c, chars'[t.place.stop + d]? = some c →
      chars[t.place.stop]? = some c ∨ startsToken c = false ∧ c ≠ separator) :
    IsCut separator chars' u := by
  have hlt := ht.start_lt
  have hle := ht.stop_le
  have hplace : u.place = ⟨t.place.start + d, t.place.stop + d⟩ := by rw [Token.place, hspan]; rfl
  have hlen : u.place.length = t.place.length := by
    rw [hplace]
    exact Nat.add_sub_add_right _ _ _
  refine ⟨by rw [hspan, hplace], ?_, ?_, ?_, ?_, ?_⟩
  · rw [hplace]
    exact Nat.add_lt_add_right hlt d
  · -- the last character of the token is one of the line
    have hlast := hchars (t.place.stop - 1) ⟨by omega, by omega⟩
    rw [List.getElem?_eq_getElem (show t.place.stop - 1 < chars.length by omega)] at hlast
    have := (List.getElem?_eq_some_iff.1 hlast).1
    rw [hplace]
    change t.place.stop + d ≤ chars'.length
    omega
  · rw [htext, ht.text_eq]
    refine (Span.slice_congr hlen ?_).symm
    intro n hn
    rw [Span.length] at hn
    rw [hplace, Nat.add_right_comm]
    exact hchars _ ⟨Nat.le_add_right _ n, by omega⟩
  · rw [hkind, htext]
    exact ht.glyph
  · intro hk
    rw [hkind] at hk
    obtain ⟨hnumber, hstop⟩ := ht.number hk
    rw [htext, hplace]
    refine ⟨hnumber, ?_⟩
    intro c hc
    rcases hend c hc with hsame | ⟨hstarts, hne⟩
    · exact hstop c hsame
    · exact ⟨(startsToken_eq_false_iff.1 hstarts).2, fun _ => hne⟩

/-- The second line holds what the first one holds up to the position `m`, and the character that
stands there, if any, starts no token and is not the separator. -/
structure Keeps (separator : Char) (m : Nat) (chars chars' : List Char) : Prop where
  take_eq : chars'.take m = chars.take m
  le_length : m ≤ chars'.length
  isGap : ∀ c, chars'[m]? = some c → startsToken c = false ∧ c ≠ separator

variable {separator : Char} {m start : Nat} {chars chars' : List Char} {t : Token}
  {ts us : List Token}

theorem Keeps.getElem?_eq (h : Keeps separator m chars chars') {i : Nat} (hi : i < m) :
    chars'[i]? = chars[i]? := by
  rw [← List.getElem?_take_of_lt hi, h.take_eq, List.getElem?_take_of_lt hi]

/-- A token in front of the cut is kept. -/
theorem IsCut.keep (ht : IsCut separator chars t) (h : Keeps separator m chars chars')
    (hle : t.place.stop ≤ m) : IsCut separator chars' t := by
  refine ht.move rfl rfl (d := 0) ht.span_eq ?_ ?_
  · intro i hi
    exact h.getElem?_eq (Nat.lt_of_lt_of_le hi.2 hle)
  · intro c hc
    rcases Nat.lt_or_eq_of_le hle with hstop | hstop
    · left
      rwa [Nat.add_zero, h.getElem?_eq hstop] at hc
    · -- the last token in front of the cut ends there, as the next character is skipped
      right
      rw [Nat.add_zero, hstop] at hc
      exact h.isGap c hc

theorem Blank.keep {stop : Nat} (hb : Blank chars start stop)
    (h : Keeps separator m chars chars') (hle : stop ≤ m) : Blank chars' start stop := by
  intro i c hi hstop hc
  rw [h.getElem?_eq (Nat.lt_of_lt_of_le hstop hle)] at hc
  exact hb i c hi hstop hc

/-- The first tokens of a walk are those of every line that is the same up to the last of them, and
the other tokens of that line may be any. -/
theorem Walk.keep (hw : Walk separator chars start ts) (hstart : start ≤ chars.length) (k : Nat) :
    ∃ m, start ≤ m ∧ m ≤ chars.length ∧ ∀ chars' us, Keeps separator m chars chars' →
      Walk separator chars' m us → Walk separator chars' start (ts.take k ++ us) := by
  induction hw generalizing k with
  | nil _ =>
      refine ⟨_, Nat.le_refl _, hstart, ?_⟩
      intro chars' us _ hus
      rwa [List.take_nil]
  | @cons start t ts hle hblank ht _ ih =>
      cases k with
      | zero =>
          refine ⟨start, Nat.le_refl _, hstart, ?_⟩
          intro chars' us _ hus
          exact hus
      | succ k =>
          have hlt := ht.start_lt
          obtain ⟨m, hm, hlen, hrest⟩ := ih ht.stop_le k
          refine ⟨m, by omega, hlen, ?_⟩
          intro chars' us hkeep hus
          exact .cons hle (hblank.keep hkeep (by omega)) (ht.keep hkeep hm)
            (hrest chars' us hkeep hus)

/-- The characters up to a position, and any others that open with a gap. -/
theorem keeps_take_append {tail : List Char} (hm : m ≤ chars.length)
    (hgap : ∀ c, tail.head? = some c → startsToken c = false ∧ c ≠ separator) :
    Keeps separator m chars (chars.take m ++ tail) := by
  have hlen : (chars.take m).length = m := by rw [List.length_take, Nat.min_eq_left hm]
  refine ⟨List.take_left' hlen, ?_, ?_⟩
  · rw [List.length_append, hlen]
    exact Nat.le_add_right m _
  · intro c hc
    rw [← List.head?_drop, List.drop_left' hlen] at hc
    exact hgap c hc

/-- Some character belongs to no token. -/
theorem exists_isGap (separator : Char) : ∃ c, startsToken c = false ∧ c ≠ separator := by
  by_cases h : separator = ' '
  · refine ⟨'a', by decide, ?_⟩
    rw [h]
    decide
  · exact ⟨' ', by decide, fun hs => h hs.symm⟩

/-- Lexemes with the same gap in front of each are legible. -/
theorem legible_map_mk {c : Char} (hstarts : startsToken c = false) (hne : c ≠ separator)
    {ws : List Lexeme} (hws : ∀ w ∈ ws, w.IsProper separator) :
    Piece.Legible separator (ws.map (Piece.mk [c])) [] := by
  refine Piece.legible_of_isChain ?_ ?_ (by simp [IsGap]) ?_
  · intro p hp d hd
    obtain ⟨w, -, rfl⟩ := List.mem_map.1 hp
    rw [List.mem_singleton.1 hd]
    exact ⟨hstarts, hne⟩
  · intro p hp
    obtain ⟨w, hw, rfl⟩ := List.mem_map.1 hp
    exact hws w hw
  · have hapart : ∀ w w' : Lexeme, Piece.Apart separator ⟨[c], w⟩ ⟨[c], w'⟩ := by
      rintro w w' - ⟨⟩
    exact (List.isChain_map _).2 (List.pairwise_of_forall hapart).isChain

/-- **A line for every continuation.**  From the first `k` tokens of a line some line goes on with
any given lexemes. -/
theorem exists_line_continuing (separator : Char) (line : String) (k : Nat) {ws : List Lexeme}
    (hws : ∀ w ∈ ws, w.IsProper separator) :
    ∃ line' later, (ofLine separator line').tokens =
        (ofLine separator line).tokens.take k ++ later ∧ later.map Token.lexeme = ws := by
  obtain ⟨c, hstarts, hne⟩ := exists_isGap separator
  obtain ⟨m, -, hm, hkeep⟩ := (stands_ofLine separator line).walk_tokens.keep (Nat.zero_le _) k
  have hlegible := legible_map_mk hstarts hne hws
  generalize htail : Piece.written (ws.map (Piece.mk [c])) [] = tail
  have hkeeps : Keeps separator m line.toList (line.toList.take m ++ tail) := by
    refine keeps_take_append hm ?_
    intro d hd
    cases ws with
    | nil =>
        rw [← htail] at hd
        cases hd
    | cons w ws =>
        rw [← htail] at hd
        cases hd
        exact ⟨hstarts, hne⟩
  have hlen : (line.toList.take m).length = m := by rw [List.length_take, Nat.min_eq_left hm]
  have hstands : Stands (line.toList.take m ++ tail) ⟨separator, tail, m, 0, 0⟩ :=
    ⟨hkeeps.le_length, (List.drop_left' hlen).symm⟩
  have hlater := hstands.walk_tokens
  rw [tokens_of_legible hlegible htail.symm] at hlater
  refine ⟨String.ofList (line.toList.take m ++ tail), Piece.placed m (ws.map (Piece.mk [c])),
    ?_, ?_⟩
  · have hline := (stands_ofLine separator
      (String.ofList (line.toList.take m ++ tail))).walk_tokens
    rw [String.toList_ofList] at hline
    exact hline.unique (hkeep _ _ hkeeps hlater)
  · rw [Piece.lexeme_placed, List.map_map]
    exact List.map_id ws

end Lexer

end Reckon

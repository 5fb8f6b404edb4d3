/-
**The first impossible token.**

When the calculator refuses a token, everything in front of it is the beginning of some expression
that nests no deeper than the limit, and nothing that begins with the token as well is.  The
expression is found where the reader has stopped: if an operand was missing, a number stands for it,
and the groups that are open are closed.  The levels suffice, as a missing operand costs no more of
them than the token in its place.  Nothing that follows the refused token can help, as the reader
has not looked at it, and a higher limit leaves the error as it is.

Main definitions:

* `ParseError.offender?`, `ParseError.Blames` — the place of the token that is to blame, and what
  the error says about it;
* `Tape.Carries` — some tree that fits stands between two places and does with the levels left;
* `Tape.Continues`, `Tape.Completes` — a tape that goes on with tokens of given kinds, and the
  kinds that complete an expression;
* `Tape.Mends`, `Tape.Keeps` — what an error amounts to, and what is promised of a run.

Main results:

* `Tape.read_keeps` — every refused expression can be completed;
* `Parser.not_value_of_offender` — nothing that opens with the refused token is accepted;
* `Calculator.exists_completed_line` — every refused line can be completed;
* `Calculator.offender_first_impossible` — **the error is reported at the first impossible
  token**.
-/

import Reckon.Proofs.Continuing
import Reckon.Proofs.HigherLimit
import Reckon.Proofs.Layers

set_option autoImplicit false
set_option relaxedAutoImplicit false

namespace Reckon

open Calculator (grammar)
open Landing (Meets)

/-! ### The token that is to blame -/

namespace ParseError

/-- The place of the token that is to blame, where the place `j` has been reached: a token that
starts no expression has been taken, a token in the place of another one has not. -/
def offender? : ParseError → Nat → Option Nat
  | noPrefix _ _ _, j => some (j - 1)
  | expected _ _ _, j => some j
  | _, _ => none

/-- The error tells the kind and the place of the token. -/
def Blames : ParseError → Token → Prop
  | noPrefix kind text span, t => kind = t.kind ∧ text = t.text ∧ span = t.span
  | expected _ found span, t => found = t.kind ∧ span = t.span
  | _, _ => False

theorem offender?_eq_none {e : ParseError} (h : ¬ e.IsOfReader) (j : Nat) :
    e.offender? j = none := by
  cases e with
  | noPrefix _ _ _ => exact absurd trivial h
  | expected _ _ _ => exact absurd trivial h
  | _ => rfl

/-- The token that is to blame is the last one that has been looked at. -/
theorem looked_eq_of_offender? {e : ParseError} {j b : Nat} (h : e.offender? j = some b) :
    e.looked j = b := by
  cases e <;> cases h <;> rfl

end ParseError

/-- The number of tokens in front of the one that is to blame. -/
def Outcome.offender? {α : Type} : Outcome α → Option Nat
  | failure e q => e.offender? q.stats.consumed
  | _ => none

theorem Outcome.exists_failure_of_offender? {α : Type} {o : Outcome α} {i : Nat}
    (h : o.offender? = some i) :
    ∃ e q, o = .failure e q ∧ e.offender? q.stats.consumed = some i := by
  cases o with
  | failure e q => exact ⟨e, q, rfl, h⟩
  | value a q => cases h
  | unfinished => cases h

/-- An error of depth blames no token. -/
theorem Outcome.not_isTooDeep_of_offender? {α : Type} {o : Outcome α} {i : Nat}
    (h : o.offender? = some i) : ¬ o.IsTooDeep := by
  rintro ⟨limit, span, q, rfl⟩
  cases h

/-! ### Completing an expression -/

namespace Tape

/-- Some tree stands between the places `i` and `j`, fits on the left spine of a seat with threshold
`θ`, and does with the levels that `depth` expressions leave. -/
def Carries (S : Tape) (limit depth θ i j : Nat) : Prop :=
  ∃ e : Expr, e.Fits grammar θ (S j) ∧ S.Spells i e.tokens j ∧ depth + e.need ≤ limit

/-- Up to place `b` the tape `T` holds what `S` holds, then tokens of the given kinds, and at place
`j` no operator. -/
structure Continues (S T : Tape) (b : Nat) (ks : List Kind) (j : Nat) : Prop where
  eq_before : ∀ n, n < b → T n = S n
  spells : ∃ w, T.Spells b w j ∧ w.map Token.kind = ks
  follower : grammar.precedenceOf (T j).kind = 0

/-- Tokens of the given kinds complete an expression that starts at place `i`. -/
def Completes (S : Tape) (limit depth θ i b : Nat) (ks : List Kind) : Prop :=
  ∀ T j, Continues S T b ks j → T.Carries limit depth θ i j

variable {S T : Tape} {limit depth θ i j b : Nat} {ks : List Kind}

namespace Carries

theorem lt (h : S.Carries limit depth θ i j) : i < j := by
  obtain ⟨e, -, hw, -⟩ := h
  exact Expr.lt_of_spells hw

theorem atom (hr : grammar.prefixRule? (S i).kind = some .atom) (hd : depth < limit) :
    S.Carries limit depth θ i (i + 1) :=
  ⟨.atom (S i), .atom hr, ⟨rfl, rfl⟩, hd⟩

theorem group (hr : grammar.prefixRule? (S i).kind = some .group)
    (h : S.Carries limit (depth + 1) 0 (i + 1) j) (hk : (S j).kind = .rightParen) :
    S.Carries limit depth θ i (j + 1) := by
  obtain ⟨e, hfit, hw, hneed⟩ := h
  have hle : grammar.precedenceOf (S j).kind ≤ 0 := by
    rw [hk]
    exact Nat.le_refl 0
  refine ⟨.group (S i) e (S j), .group hr hfit hle hk,
    Expr.spells_group.2 ⟨rfl, j, hw, rfl, rfl⟩, ?_⟩
  rw [Expr.need]
  omega

theorem unary {m : Nat} (hr : grammar.prefixRule? (S i).kind = some (.unary m))
    (h : S.Carries limit (depth + 1) m (i + 1) j) (hle : grammar.precedenceOf (S j).kind ≤ m) :
    S.Carries limit depth θ i j := by
  obtain ⟨e, hfit, hw, hneed⟩ := h
  refine ⟨.unary (S i) e, .unary hr hfit hle, Expr.spells_unary.2 ⟨rfl, hw⟩, ?_⟩
  rw [Expr.need]
  omega

theorem binary {k prec : Nat} {assoc : Assoc} (hl : S.Carries limit depth θ i j)
    (hr : grammar.infixRule? (S j).kind = some (.binary prec assoc)) (hlt : θ < prec)
    (h : S.Carries limit (depth + 1) (assoc.rightThreshold prec) (j + 1) k)
    (hle : grammar.precedenceOf (S k).kind ≤ assoc.rightThreshold prec) :
    S.Carries limit depth θ i k := by
  obtain ⟨l, hfitl, hwl, hneedl⟩ := hl
  obtain ⟨r, hfitr, hwr, hneedr⟩ := h
  refine ⟨.binary l (S j) r, .binary hr hlt hfitl hfitr hle,
    Expr.spells_binary.2 ⟨j, hwl, rfl, hwr⟩, ?_⟩
  rw [Expr.need]
  omega

/-- A tree can be told from the places that it covers, as long as the token behind it does not bind
tighter. -/
theorem congr (h : S.Carries limit depth θ i j) (hT : ∀ n, n < j → T n = S n)
    (hle : grammar.precedenceOf (T j).kind ≤ grammar.precedenceOf (S j).kind) :
    T.Carries limit depth θ i j := by
  obtain ⟨e, hfit, hw, hneed⟩ := h
  exact ⟨e, hfit.of_precedence_le hle, hw.congr hT, hneed⟩

end Carries

theorem Continues.exists_closing (h : Continues S T b (ks ++ [.rightParen]) j) :
    ∃ k, j = k + 1 ∧ Continues S T b ks k ∧ (T k).kind = .rightParen := by
  obtain ⟨hbefore, ⟨w, hw, hks⟩, -⟩ := h
  obtain ⟨u, v, rfl, hu, hv⟩ := List.map_eq_append_iff.1 hks
  obtain ⟨t, rfl, ht⟩ := List.map_eq_singleton_iff.1 hv
  obtain ⟨k, hwu, htk, rfl⟩ := spells_append.1 hw
  have hk : (T k).kind = .rightParen := by rw [htk, ht]
  refine ⟨k, rfl, ⟨hbefore, ⟨u, hwu, hu⟩, ?_⟩, hk⟩
  rw [hk]
  rfl

/-! How the kinds that complete an expression complete the one around it. -/

namespace Completes

/-- A number takes the place of a missing operand. -/
theorem number (hd : depth < limit) : Completes S limit depth θ b b [.number] := by
  intro T j h
  obtain ⟨-, ⟨w, hw, hks⟩, -⟩ := h
  obtain ⟨t, rfl, ht⟩ := List.map_eq_singleton_iff.1 hks
  obtain ⟨hb, rfl⟩ := hw
  refine Carries.atom ?_ hd
  rw [hb, ht]
  rfl

/-- An expression that has been read needs nothing. -/
theorem nil (h : S.Carries limit depth θ i b) : Completes S limit depth θ i b [] := by
  intro T j hT
  obtain ⟨hbefore, ⟨w, hw, hks⟩, hfollower⟩ := hT
  obtain rfl := List.map_eq_nil_iff.1 hks
  obtain rfl : b = j := hw
  refine h.congr hbefore ?_
  rw [hfollower]
  exact Nat.zero_le _

theorem group (hr : grammar.prefixRule? (S i).kind = some .group) (hi : i < b)
    (h : Completes S limit (depth + 1) 0 (i + 1) b ks) :
    Completes S limit depth θ i b (ks ++ [.rightParen]) := by
  intro T j hT
  rw [← hT.eq_before i hi] at hr
  obtain ⟨k, rfl, hinner, hk⟩ := hT.exists_closing
  exact .group hr (h T k hinner) hk

theorem unary {m : Nat} (hr : grammar.prefixRule? (S i).kind = some (.unary m)) (hi : i < b)
    (h : Completes S limit (depth + 1) m (i + 1) b ks) : Completes S limit depth θ i b ks := by
  intro T j hT
  rw [← hT.eq_before i hi] at hr
  refine .unary hr (h T j hT) ?_
  rw [hT.follower]
  exact Nat.zero_le _

theorem binary {prec : Nat} {assoc : Assoc} (hl : S.Carries limit depth θ i j)
    (hr : grammar.infixRule? (S j).kind = some (.binary prec assoc)) (hlt : θ < prec) (hj : j < b)
    (h : Completes S limit (depth + 1) (assoc.rightThreshold prec) (j + 1) b ks) :
    Completes S limit depth θ i b ks := by
  intro T k hT
  have hTj := hT.eq_before j hj
  have hleft : T.Carries limit depth θ i j := by
    refine hl.congr (fun n hn => hT.eq_before n (Nat.lt_trans hn hj)) ?_
    rw [hTj]
  rw [← hTj] at hr
  refine .binary hleft hr hlt (h T k hT) ?_
  rw [hT.follower]
  exact Nat.zero_le _

end Completes

/-- The error blames the token at place `b`, and some kinds in its place complete the
expression: a number may come first, and then only right parentheses come. -/
structure Mends (S : Tape) (limit depth θ i : Nat) (e : ParseError) (b : Nat) : Prop where
  blames : e.Blames (S b)
  le : i ≤ b
  completes : ∃ ks : List Kind, (∀ k ∈ ks, k = .number ∨ k = .rightParen) ∧
    Completes S limit depth θ i b ks

namespace Mends

variable {e : ParseError}

theorem group (hr : grammar.prefixRule? (S i).kind = some .group)
    (h : Mends S limit (depth + 1) 0 (i + 1) e b) : Mends S limit depth θ i e b := by
  obtain ⟨hblames, hle, ks, hks, hcomplete⟩ := h
  refine ⟨hblames, Nat.le_of_succ_le hle, ks ++ [.rightParen], ?_, hcomplete.group hr hle⟩
  intro k hk
  rcases List.mem_append.1 hk with hk | hk
  · exact hks k hk
  · exact Or.inr (List.mem_singleton.1 hk)

theorem unary {m : Nat} (hr : grammar.prefixRule? (S i).kind = some (.unary m))
    (h : Mends S limit (depth + 1) m (i + 1) e b) : Mends S limit depth θ i e b := by
  obtain ⟨hblames, hle, ks, hks, hcomplete⟩ := h
  exact ⟨hblames, Nat.le_of_succ_le hle, ks, hks, hcomplete.unary hr hle⟩

theorem binary {prec : Nat} {assoc : Assoc} (hl : S.Carries limit depth θ i j)
    (hr : grammar.infixRule? (S j).kind = some (.binary prec assoc)) (hlt : θ < prec)
    (h : Mends S limit (depth + 1) (assoc.rightThreshold prec) (j + 1) e b) :
    Mends S limit depth θ i e b := by
  obtain ⟨hblames, hle, ks, hks, hcomplete⟩ := h
  have hij := hl.lt
  exact ⟨hblames, by omega, ks, hks, hcomplete.binary hl hr hlt hle⟩

end Mends

end Tape

/-! ### What every run promises -/

namespace Tape

variable {α : Type} {I : Interpretation α} {S : Tape} {limit depth θ i j : Nat}
  {operand : Nat → Nat → Landing α}

/-- The error of a run that has reached place `k` can be mended, if it blames a token. -/
def Mendable (S : Tape) (limit depth θ i : Nat) (e : ParseError) (k : Nat) : Prop :=
  ∀ b, e.offender? k = some b → S.Mends limit depth θ i e b

theorem mendable_of_not_isOfReader {e : ParseError} (h : ¬ e.IsOfReader) (k : Nat) :
    S.Mendable limit depth θ i e k := by
  intro b hb
  rw [ParseError.offender?_eq_none h] at hb
  cases hb

/-- What is promised of the reader: behind a value stands no operator of the seat, an expression
lies in front of it, and every error can be mended. -/
def Keeps (S : Tape) (limit depth θ i : Nat) : Landing α → Prop :=
  Meets (fun j => S.Carries limit depth θ i j ∧ grammar.precedenceOf (S j).kind ≤ θ)
    (S.Mendable limit depth θ i)

theorem meets_of_prefixRule (hI : I.Sincere)
    (h : ∀ m j, S.Keeps limit (depth + 1) m j (operand m j)) (hd : depth < limit)
    {rule : PrefixRule} (hr : grammar.prefixRule? (S i).kind = some rule) :
    (rule.read I S operand i).Meets (S.Carries limit depth θ i)
      (S.Mendable limit depth θ i) := by
  cases rule with
  | atom =>
      refine Meets.ofExcept ?_ (Carries.atom hr hd)
      intro e he
      exact mendable_of_not_isOfReader (hI e (.atom he)) (i + 1)
  | group =>
      refine (h 0 (i + 1)).andThen (fun _ _ he b hb => (he b hb).group hr) ?_
      rintro inner j - ⟨hinner, -⟩
      refine PrefixRule.close_meets (S i) inner (fun hk => hinner.group hr hk) ?_
      rintro - b ⟨⟩
      -- only the right parenthesis itself is missing
      have hij := hinner.lt
      refine ⟨⟨rfl, rfl⟩, by omega, [.rightParen], by simp, ?_⟩
      exact (Completes.nil hinner).group hr (by omega)
  | unary m =>
      refine (h m (i + 1)).andThen (fun _ _ he b hb => (he b hb).unary hr) ?_
      rintro a j - ⟨hoperand, hle⟩
      refine Meets.ofExcept ?_ (hoperand.unary hr hle)
      intro e he
      exact mendable_of_not_isOfReader (hI e (.unary he)) j

theorem meets_of_infixRule (hI : I.Sincere)
    (h : ∀ m j, S.Keeps limit (depth + 1) m j (operand m j)) {rule : InfixRule}
    (hl : S.Carries limit depth θ i j) (hr : grammar.infixRule? (S j).kind = some rule)
    (hlt : θ < rule.precedence) (left : α) :
    (rule.read I S operand left j).Meets (S.Carries limit depth θ i)
      (S.Mendable limit depth θ i) := by
  cases rule with
  | binary prec assoc =>
      refine (h _ (j + 1)).andThen (fun _ _ he b hb => (he b hb).binary hl hr hlt) ?_
      rintro right k - ⟨hright, hle⟩
      refine Meets.ofExcept ?_ (hl.binary hr hlt hright hle)
      intro e he
      exact mendable_of_not_isOfReader (hI e (.binary he)) k
  | postfixed prec => exact absurd hr Calculator.infixRule_postfixed

/-- The reader keeps its promises, and its loop keeps those of the expression read so far. -/
theorem keeps_of_bound (hI : I.Sincere) (S : Tape) (limit n : Nat) :
    (∀ depth θ i, S.Keeps limit depth θ i (read grammar I S limit n depth θ i)) ∧
      ∀ depth θ i left j, S.Carries limit depth θ i j →
        S.Keeps limit depth θ i (extend grammar I S limit n (depth + 1) θ left j) := by
  induction n with
  | zero => exact ⟨fun _ _ _ => Meets.unfinished, fun _ _ _ _ _ _ => Meets.unfinished⟩
  | succ n ih =>
      obtain ⟨ihr, ihe⟩ := ih
      constructor
      · intro depth θ i
        rcases Nat.lt_or_ge depth limit with h | h
        · cases hr : grammar.prefixRule? (S i).kind with
          | none =>
              rw [read_of_noPrefix h hr]
              refine Meets.of_failure ?_
              rintro b ⟨⟩
              exact ⟨⟨rfl, rfl, rfl⟩, Nat.le_refl i, [.number], by simp, Completes.number h⟩
          | some rule =>
              rw [read_of_prefixRule h hr]
              refine (meets_of_prefixRule hI (ihr (depth + 1)) h hr).andThen
                (fun _ _ he => he) ?_
              intro a j _ hj
              exact ihe depth θ i a j hj
        · rw [read_of_tooDeep h]
          refine Meets.of_failure ?_
          rintro b ⟨⟩
      · intro depth θ i left j hl
        rcases Nat.lt_or_ge θ (grammar.precedenceOf (S j).kind) with h | h
        · obtain ⟨rule, hr, hlt⟩ := Grammar.exists_infixRule_of_lt h
          rw [extend_of_lt hr hlt]
          refine (meets_of_infixRule hI (ihr (depth + 1)) hl hr hlt left).andThen
            (fun _ _ he => he) ?_
          intro a k _ hk
          exact ihe depth θ i a k hk
        · rw [extend_of_le h]
          exact Meets.of_value ⟨hl, h⟩

/-- Every refused expression can be completed. -/
theorem read_keeps (hI : I.Sincere) (S : Tape) (limit n depth θ i : Nat) :
    S.Keeps limit depth θ i (read grammar I S limit n depth θ i) :=
  (keeps_of_bound hI S limit n).1 depth θ i

end Tape

/-! ### Lines -/

namespace Tape

/-- The tape up to a place, then some tokens, and then ends of the input. -/
def splice (S : Tape) (b : Nat) (w : List Token) : Tape :=
  fun n => if n < b then S n else w[n - b]?.getD (Token.endOfInput none)

theorem continues_splice (S : Tape) (b : Nat) (w : List Token) :
    Continues S (S.splice b w) b (w.map Token.kind) (b + w.length) := by
  refine ⟨fun n hn => if_pos hn, ⟨w, spells_of_getElem? ?_, rfl⟩, ?_⟩
  · intro n t ht
    rw [splice, if_neg (Nat.not_lt_of_le (Nat.le_add_right b n)), Nat.add_sub_cancel_left, ht]
    rfl
  · rw [splice, if_neg (Nat.not_lt_of_le (Nat.le_add_right b _)), Nat.add_sub_cancel_left,
      List.getElem?_length]
    rfl

end Tape

namespace Calculator

/-- No end of the input belongs to an expression. -/
theorem Derives.kind_ne_endOfInput {s : Symbol} {w : List Token} {e : Expr}
    (h : Derives s w e) : ∀ t ∈ w, t.kind ≠ .endOfInput := by
  have hne : ∀ {t : Token} {k : Kind}, t.kind = k → k ≠ .endOfInput → t.kind ≠ .endOfInput := by
    rintro t k rfl hk
    exact hk
  induction h with
  | sum_of_product _ ih => exact ih
  | product_of_power _ ih => exact ih
  | power_of_unary _ ih => exact ih
  | sum _ hop _ ihl ihr =>
      refine List.forall_mem_append.2 ⟨ihl, List.forall_mem_cons.2 ⟨?_, ihr⟩⟩
      rcases hop with hop | hop <;> exact hne hop (by decide)
  | product _ hop _ ihl ihr =>
      refine List.forall_mem_append.2 ⟨ihl, List.forall_mem_cons.2 ⟨?_, ihr⟩⟩
      rcases hop with hop | hop <;> exact hne hop (by decide)
  | power _ hop _ ihl ihr =>
      exact List.forall_mem_append.2
        ⟨ihl, List.forall_mem_cons.2 ⟨hne hop (by decide), ihr⟩⟩
  | sign hop _ ih =>
      refine List.forall_mem_cons.2 ⟨?_, ih⟩
      rcases hop with hop | hop <;> exact hne hop (by decide)
  | number hk => exact List.forall_mem_singleton.2 (hne hk (by decide))
  | group ho _ hc ih =>
      exact List.forall_mem_append.2 ⟨List.forall_mem_cons.2 ⟨hne ho (by decide), ih⟩,
        List.forall_mem_singleton.2 (hne hc (by decide))⟩

/-- The token that is to blame is no later than the first end of the input. -/
theorem le_of_mends {S : Tape} {limit depth θ i b last : Nat} {e : ParseError}
    (h : S.Mends limit depth θ i e b) (hi : i ≤ last) (hlast : (S last).kind = .endOfInput) :
    b ≤ last := by
  obtain ⟨-, -, ks, -, hcomplete⟩ := h
  refine Nat.le_of_not_lt ?_
  intro hlt
  -- otherwise the end would belong to the completed expression
  have hkinds : (ks.map fun k => (⟨k, "", none⟩ : Token)).map Token.kind = ks := by
    rw [List.map_map]
    exact List.map_id ks
  have hsplice := S.continues_splice b (ks.map fun k => ⟨k, "", none⟩)
  rw [hkinds] at hsplice
  obtain ⟨e', hfit, hw, -⟩ := hcomplete _ _ hsplice
  have hmem := hw.mem hi (by omega)
  rw [hsplice.eq_before last hlt] at hmem
  exact (derives_of_fits hfit).kind_ne_endOfInput _ hmem hlast

/-- What is written for a token that is missing. -/
def filler : Kind → Lexeme
  | .number => ⟨.number, ['0']⟩
  | k => .mark k

theorem kind_filler (k : Kind) : (filler k).kind = k := by
  cases k <;> rfl

theorem isProper_filler {separator : Char} {k : Kind} (h : k = .number ∨ k = .rightParen) :
    (filler k).IsProper separator := by
  rcases h with rfl | rfl
  · exact Or.inr ⟨rfl, ['0'], by simp, by simp, Or.inl rfl⟩
  · exact Lexeme.isProper_mark rfl

end Calculator

/-! ### Nothing behind the token helps -/

namespace Parser

variable {α : Type} {g : Grammar} {I : Interpretation α} {θ d d' i : Nat} {s s' : Source}

/-- What a new parser yields without meeting its limit is what the reader yields under every higher
limit. -/
theorem landsOn_of_le (h : d ≤ d') (hdeep : ¬ ((ofSource s d).parseExpression g I θ).IsTooDeep) :
    (((ofSource s d).parseExpression g I θ).mapParser (withLimit d')).LandsOn s.endless d' 0
      (Tape.read g I s.endless d' (ofSource s d).bound 0 θ 0) := by
  have hlock := parse_outlasts g I h (ofSource s d).bound θ (ofSource s d)
  have hland := parse_landsOn g I (ofSource s d).bound θ (follows_ofSource s d')
  rwa [show parse g I (ofSource s d).bound θ (ofSource s d') = _ from
    hlock.eq_mapParser hdeep] at hland

/-- Where one source has been refused for its token at place `i`, no source is accepted that holds
the same tokens up to that place, whatever the limits are. -/
theorem not_value_of_offender (hI : I.Sincere)
    (h : ((ofSource s d).parseExpression g I θ).offender? = some i)
    (hs : ∀ n, n ≤ i → s'.endless n = s.endless n) (a : α) (q : Parser) :
    (ofSource s' d').parseExpression g I θ ≠ .value a q := by
  intro hvalue
  -- a common limit that changes neither of the two runs
  have hland := landsOn_of_le (Nat.le_max_left d d') (Outcome.not_isTooDeep_of_offender? h)
  have hland' := landsOn_of_le (g := g) (I := I) (θ := θ) (s := s') (Nat.le_max_right d d') (by
    rw [hvalue]
    exact Outcome.not_isTooDeep_of_result rfl)
  obtain ⟨e, q₀, hfailure, hoffender⟩ := Outcome.exists_failure_of_offender? h
  rw [hfailure] at hland
  rw [hvalue] at hland'
  obtain ⟨k, hread, hq⟩ := hland.exists_failure_place
  obtain ⟨j, hread', -⟩ := hland'.exists_place
  have hlooked : (Tape.read g I s.endless (max d d') (ofSource s d).bound 0 θ 0).stop?
      ParseError.looked = some i := by
    rw [hread, Landing.stop?, ← hq.consumed_eq]
    exact congrArg some (ParseError.looked_eq_of_offender? hoffender)
  have hsame :=
    Tape.read_until (m := max (ofSource s' d').bound (i + 1)) hI.forward_looked hlooked hs
    (Nat.lt_of_succ_le (Nat.le_max_right _ _))
  have hstable := Tape.read_stable (Nat.le_max_left (ofSource s' d').bound (i + 1))
    (show Tape.read g I s'.endless (max d d') (ofSource s' d').bound 0 θ 0 ≠ .unfinished by
      rw [hread']
      simp)
  rw [hsame, hread, hread'] at hstable
  cases hstable

end Parser

/-! ### The calculator -/

namespace Calculator

section Lines

variable {α : Type} {A : Arithmetic α} {separator : Char} {line : String} {d i : Nat}

/-- The error that blames a token amounts to a completion. -/
theorem exists_mends_of_offender (h : (parse A separator line d).offender? = some i) :
    ∃ e q, parse A separator line d = .failure e q ∧
      (Source.line (.ofLine separator line)).endless.Mends d 0 0 0 e i := by
  obtain ⟨e, q, hfailure, hoffender⟩ := Outcome.exists_failure_of_offender? h
  have hland := Parser.parseExpression_landsOn grammar A.interpretation 0
    (Parser.follows_ofSource (.line (.ofLine separator line)) d)
  rw [show (Parser.ofSource (.line (.ofLine separator line)) d).parseExpression grammar
    A.interpretation 0 = _ from hfailure] at hland
  obtain ⟨k, hread, hq⟩ := hland.exists_failure_place
  rw [hq.consumed_eq] at hoffender
  have hkeeps := Tape.read_keeps A.interpretation_sincere
    (Source.line (.ofLine separator line)).endless d
    (Parser.ofSource (.line (.ofLine separator line)) d).bound 0 0 0
  exact ⟨e, q, hfailure, hkeeps.failure e k hread i hoffender⟩

/-- The tape of a line that goes on differently. -/
theorem continues_of_tokens {line' : String} {later : List Token}
    (hi : i ≤ (Lexer.ofLine separator line).tokens.length)
    (h : (Lexer.ofLine separator line').tokens =
      (Lexer.ofLine separator line).tokens.take i ++ later) :
    Tape.Continues (Source.line (.ofLine separator line)).endless
      (Source.line (.ofLine separator line')).endless i (later.map Token.kind)
      (Lexer.ofLine separator line').tokens.length := by
  have hlen : ((Lexer.ofLine separator line).tokens.take i).length = i := by
    rw [List.length_take, Nat.min_eq_left hi]
  refine ⟨?_, ⟨later, ?_, rfl⟩, ?_⟩
  · intro n hn
    have hget : (Lexer.ofLine separator line').tokens[n]? =
        (Lexer.ofLine separator line).tokens[n]? := by
      rw [h, List.getElem?_append_left (by omega), List.getElem?_take_of_lt hn]
    rw [Source.endless_ofLine, Source.endless_ofLine, hget,
      List.getElem?_eq_getElem (Nat.lt_of_lt_of_le hn hi)]
    rfl
  · have hspells := Source.spells_endless_ofLine separator line'
    generalize (Lexer.ofLine separator line').tokens.length = last at hspells ⊢
    rw [h] at hspells
    obtain ⟨j, hfirst, hlater⟩ := Tape.spells_append.1 hspells
    have hj := hfirst.eq_add
    rw [hlen, Nat.zero_add] at hj
    rwa [hj] at hlater
  · rw [Source.kind_endless_ofLine (Nat.le_refl _)]
    rfl

/-- Every refused line can be completed: some line opens with the tokens in front of the one that
is to blame, and the calculator takes all of it. -/
theorem exists_completed_line {e : ParseError}
    (h : (Source.line (.ofLine separator line)).endless.Mends d 0 0 0 e i)
    (hi : i ≤ (Lexer.ofLine separator line).tokens.length) :
    ∃ line' later, (Lexer.ofLine separator line').tokens =
        (Lexer.ofLine separator line).tokens.take i ++ later ∧
      ∃ a q, parse A separator line' d = .value a q ∧
        (parser separator line' d).Took (Lexer.ofLine separator line').tokens q := by
  obtain ⟨-, -, ks, hks, hcomplete⟩ := h
  have hproper : ∀ w ∈ ks.map filler, w.IsProper separator := by
    intro w hw
    obtain ⟨k, hk, rfl⟩ := List.mem_map.1 hw
    exact isProper_filler (hks k hk)
  obtain ⟨line', later, htokens, hlater⟩ := Lexer.exists_line_continuing separator line i hproper
  have hkinds : later.map Token.kind = ks := by
    have hmap := congrArg (List.map Lexeme.kind) hlater
    simpa [Function.comp_def, kind_filler, Token.lexeme] using hmap
  have hcontinues := continues_of_tokens hi htokens
  rw [hkinds] at hcontinues
  obtain ⟨e', hfit, hw, hneed⟩ := hcomplete _ _ hcontinues
  have hspells := Source.spells_endless_ofLine separator line'
  have hwords : e'.tokens = (Lexer.ofLine separator line').tokens := hw.unique hspells
  have hlead : e'.Leads grammar 0 (Source.line (.ofLine separator line')).endless := by
    refine ⟨?_, ?_, ?_⟩
    · rwa [hwords]
    · rwa [hwords]
    · rw [hwords]
      exact Nat.le_of_eq hcontinues.follower
  obtain ⟨a, ha⟩ := exists_denotes_of_phrase A (phrase_iff.2 ⟨hwords, hlead⟩)
  rw [← Parser.stream_ofSource _ d] at hlead
  obtain ⟨q, hq, htook⟩ := Parser.exists_value_of_leads hlead (denotes_iff.1 ha) hneed
  rw [hwords] at htook
  exact ⟨line', later, htokens, a, q, hq, htook⟩

/-- **The error is reported at the first impossible token.**  If the calculator refuses the token
at place `i` of a line, then the error tells the kind and the place of this token; some line opens
with the tokens in front of it, and the calculator takes all of that line with the same limit; and
no source at all that opens with these tokens and the refused one is accepted, whatever its limit
and whatever comes behind. -/
theorem offender_first_impossible (h : (parse A separator line d).offender? = some i) :
    (∃ e q, parse A separator line d = .failure e q ∧
      e.Blames ((Source.line (.ofLine separator line)).endless i)) ∧
    i ≤ (Lexer.ofLine separator line).tokens.length ∧
    (∃ line' later, (Lexer.ofLine separator line').tokens =
        (Lexer.ofLine separator line).tokens.take i ++ later ∧
      ∃ a q, parse A separator line' d = .value a q ∧
        (parser separator line' d).Took (Lexer.ofLine separator line').tokens q) ∧
    ∀ s : Source, (∀ n, n ≤ i → s.endless n =
        (Source.line (.ofLine separator line)).endless n) →
      ∀ d' a q, (Parser.ofSource s d').parseExpression grammar A.interpretation 0 ≠
        .value a q := by
  obtain ⟨e, q, hfailure, hmends⟩ := exists_mends_of_offender h
  have hi := le_of_mends hmends (Nat.zero_le _) (Source.kind_endless_ofLine (Nat.le_refl _))
  refine ⟨⟨e, q, hfailure, hmends.blames⟩, hi, exists_completed_line hmends hi, ?_⟩
  intro s hs d' a q
  exact Parser.not_value_of_offender A.interpretation_sincere h hs a q

theorem offender_first_impossible_emptyOperand :
    (parse Arithmetic.float '.' "(2*)+1" 3).offender? = some 3 ∧
      (∃ line' later, (Lexer.ofLine '.' line').tokens =
          (Lexer.ofLine '.' "(2*)+1").tokens.take 3 ++ later ∧
        ∃ a q, parse Arithmetic.float '.' line' 3 = .value a q ∧
          (parser '.' line' 3).Took (Lexer.ofLine '.' line').tokens q) ∧
      ∀ d' a q, parse Arithmetic.float '.' "(2*)4)" d' ≠ .value a q := by
  have h : (parse Arithmetic.float '.' "(2*)+1" 3).offender? = some 3 := by rfl
  have hsame : ∀ n, n ≤ 3 → (Source.line (.ofLine '.' "(2*)4)")).endless n =
      (Source.line (.ofLine '.' "(2*)+1")).endless n := by decide
  obtain ⟨-, -, hline, hsource⟩ := offender_first_impossible h
  exact ⟨h, hline, hsource (.line (.ofLine '.' "(2*)4)")) hsame⟩

end Lines

end Calculator

end Reckon

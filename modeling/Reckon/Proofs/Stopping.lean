/-
**Where an error leaves the parser.**

An error of the reader describes one token.  A token that starts no expression has been taken when
it is found out; a token in the place of a right parenthesis and a token beyond the depth limit have
only been looked at.  Whatever was being read around that token, nothing more is taken and nothing
is put back on the way out: the parser stands behind the token or in front of it, exactly the tokens
before that place have been consumed, and the depth is what it was before.

The errors are gathered where they arise, since an error leaves every rule and every loop around it
together with the place; that the place is none before the start follows from reading forward.

Main definitions:

* `ParseError.Describes` — what an error says of its token;
* `ParseError.resume` — the place at which the tokens go on behind an error.

Main results:

* `Tape.exists_described` — every error of the reader describes a token of the tape;
* `Parser.Follows.session` — however a parser has been used, it stands at a place of its stream;
* `Parser.failure_stops_at_token` — **where an error leaves the parser**.
-/

import Reckon.Proofs.Completion
import Reckon.Proofs.Machine

set_option autoImplicit false
set_option relaxedAutoImplicit false

namespace Reckon

namespace ParseError

/-- What the error says of the token is true of it: its kind, its text and its span, as far as the
error names them. -/
def Describes : ParseError → Token → Prop
  | tooDeep _ span, t => span = t.span
  | e, t => e.Blames t

/-- Where the tokens go on behind an error that describes the token at place `i`. -/
def resume : ParseError → Nat → Nat
  | noPrefix _ _ _, i => i + 1
  | _, i => i

theorem looked_resume (e : ParseError) (i : Nat) : e.looked (e.resume i) = i := by
  cases e <;> rfl

end ParseError

namespace Tape

variable {α : Type} {g : Grammar} {I : Interpretation α} {S : Tape} {limit n depth θ i j : Nat}
  {e : ParseError}

/-- An error of the reader arises where its token stands; any other error is one of an operation. -/
theorem confines_describes (hI : I.Sincere) (g : Grammar) (S : Tape) (limit : Nat) :
    Confines g I S limit
      (fun e j => e.IsOfReader → ∃ i, e.Describes (S i) ∧ j = e.resume i) where
  noPrefix i _ _ := ⟨i, ⟨rfl, rfl, rfl⟩, rfl⟩
  expected i _ _ := ⟨i, ⟨rfl, rfl⟩, rfl⟩
  tooDeep i _ := ⟨i, rfl, rfl⟩
  atom _ e _ he hown := absurd hown (hI e (.atom he))
  unary _ _ _ _ e _ he hown := absurd hown (hI e (.unary he))
  binary _ _ _ _ _ _ e _ he hown := absurd hown (hI e (.binary he))
  postfixed _ _ _ e _ he hown := absurd hown (hI e (.postfixed he))

/-- Every error of the reader describes a token from the start on, and the place reached is behind
that token or in front of it. -/
theorem exists_described (hI : I.Sincere)
    (h : read g I S limit n depth θ i = .failure e j) (he : e.IsOfReader) :
    ∃ k, i ≤ k ∧ e.Describes (S k) ∧ j = e.resume k := by
  obtain ⟨k, hk, rfl⟩ :=
    (read_meets (confines_describes hI g S limit) n depth θ i).failure e j h he
  have hle := (read_from hI.forward_looked g S limit n depth θ i).failure e _ h
  rw [ParseError.looked_resume] at hle
  exact ⟨k, hle, hk, rfl⟩

/-- The tokens between two places. -/
theorem exists_spells (S : Tape) (h : i ≤ j) : ∃ w, S.Spells i w j := by
  induction h with
  | refl => exact ⟨[], rfl⟩
  | step _ ih =>
      obtain ⟨w, hw⟩ := ih
      exact ⟨w ++ [S _], spells_append.2 ⟨_, hw, rfl, rfl⟩⟩

end Tape

namespace Parser

variable {α : Type} {g : Grammar} {I : Interpretation α} {S : Tape} {limit depth k : Nat}
  {p q : Parser}

/-! ### Places that are reached -/

/-- A step that is answered leaves the parser at some place.  That the pending tokens are countable
rules out that a look beyond reach is answered. -/
theorem Follows.run (h : p.Follows S limit depth k) (hp : p.Countable) {op : Operation}
    {r : Reply α} (hrun : op.run g I p = .ok (r, q)) : ∃ j, q.Follows S limit depth j := by
  cases op with
  | parse θ =>
      have hleft := Operation.parser?_of_run_parse hrun
      have hland := parseExpression_landsOn g I θ h
      cases ho : parseExpression g I θ p with
      | value a q' =>
          rw [ho] at hleft hland
          cases hleft
          obtain ⟨j, -, hj⟩ := hland.exists_place
          exact ⟨j, hj⟩
      | failure e q' =>
          rw [ho] at hleft hland
          cases hleft
          obtain ⟨j, -, hj⟩ := hland.exists_failure_place
          exact ⟨j, hj⟩
      | unfinished =>
          rw [ho] at hleft
          cases hleft
  | consume =>
      cases hrun
      exact ⟨k + 1, h.consume⟩
  | expect wanted =>
      rw [Operation.run] at hrun
      by_cases hk : (S k).kind = wanted
      · obtain ⟨q', hq, hf⟩ := h.expect_of_eq hk
        rw [hq] at hrun
        cases hrun
        exact ⟨k + 1, hf⟩
      · obtain ⟨q', hq, hf⟩ := h.expect_of_ne hk
        rw [hq] at hrun
        cases hrun
        exact ⟨k, hf⟩
  | accept wanted =>
      rw [Operation.run] at hrun
      by_cases hk : (S k).kind = wanted
      · obtain ⟨q', hq, hf⟩ := h.accept_of_eq hk
        rw [hq] at hrun
        cases hrun
        exact ⟨k + 1, hf⟩
      · obtain ⟨q', hq, hf⟩ := h.accept_of_ne hk
        rw [hq] at hrun
        cases hrun
        exact ⟨k, hf⟩
  | peek distance =>
      have hop : InReach distance.toNat := hp.inReach_of_run hrun
      rw [Operation.run_peek hop] at hrun
      cases hrun
      exact ⟨k, h.peek distance.toNat hop⟩
  | precedence =>
      cases hrun
      exact ⟨k, h.precedence g⟩

/-- However a parser has been used, it stands at a place of the same stream. -/
theorem Follows.session (h : p.Follows S limit depth k) (hp : p.Countable) {ops : List Operation}
    {rs : List (Reply α)} (hs : session g I ops p = .ok (rs, q)) :
    ∃ j, q.Follows S limit depth j := by
  induction ops generalizing p k rs with
  | nil =>
      cases hs
      exact ⟨k, h⟩
  | cons op ops ih =>
      obtain ⟨r, p', rs', hrun, hrest, -⟩ := session_cons_eq_ok.1 hs
      obtain ⟨j, hj⟩ := h.run hp hrun
      exact ih hj (hp.run hrun) hrest

/-! ### The place behind an error -/

/-- A parser that started at the place `k` has taken exactly the tokens up to the place `j`; it
stands there, with the depth and the limit that it had. -/
structure Halts (S : Tape) (limit depth k : Nat) (p q : Parser) (j : Nat) : Prop where
  follows : q.Follows S limit depth j
  took : ∃ w, S.Spells k w j ∧ p.Took w q

theorem Follows.halts {j : Nat} (h : p.Follows S limit depth k) (hq : q.Follows S limit depth j)
    (hle : k ≤ j) : Halts S limit depth k p q j := by
  obtain ⟨w, hw⟩ := S.exists_spells hle
  obtain rfl := hw.eq_add
  refine ⟨hq, w, hw, ?_, ?_, ?_⟩
  · exact (Tape.spells_add fun n => (h.stream_eq n).symm).1 hw
  · intro n
    rw [hq.stream_eq, h.stream_eq, Nat.add_assoc]
  · rw [hq.consumed_eq, h.consumed_eq]

/-- **Where an error leaves the parser.**  Let the operations report no error of the reader.
However a parser over a source has been used, it stands at some place of the stream of the source.
And a parser at any place `k` of a stream, at any depth, that fails to read an expression has taken
exactly the tokens from `k` up to a place `j` and is back at its depth.  If the error is one of the
reader, it describes the token at some place `i` from `k` on; `j` is behind that token if it starts
no expression, and in front of it if it stands for a right parenthesis or is too deep. -/
theorem failure_stops_at_token (hI : I.Sincere) (g : Grammar) :
    (∀ s limit ops rs p, session g I ops (ofSource s limit) = .ok (rs, p) →
      p.Follows s.endless limit 0 p.stats.consumed) ∧
    ∀ S limit depth k p, p.Follows S limit depth k → ∀ n θ e q, parse g I n θ p = .failure e q →
      ∃ j, Halts S limit depth k p q j ∧
        (e.IsOfReader → ∃ i, k ≤ i ∧ e.Describes (S i) ∧ j = e.resume i) := by
  constructor
  · intro s limit ops rs p hs
    obtain ⟨j, hj⟩ := (follows_ofSource s limit).session (countable_ofSource s limit) hs
    rwa [hj.consumed_eq]
  · intro S limit depth k p h n θ e q hq
    have hland := parse_landsOn g I n θ h
    rw [hq] at hland
    obtain ⟨j, hread, hf⟩ := hland.exists_failure_place
    have hle := (Tape.read_from I.forward_reached g S limit n depth θ k).failure e j hread
    exact ⟨j, h.halts hf hle, fun he => Tape.exists_described hI hread he⟩

/-- The line `-(1 2)`, with the sign taken and its operand being read one level below: the group is
not closed by the second number, which stays. -/
theorem failure_stops_at_token_operand :
    ∃ rs p q,
      session Calculator.grammar Expr.interpretation [.peek 5, .consume]
        (ofSource (.line (.ofLine '.' "-(1 2)")) 3) = .ok (rs, p) ∧
      p.enter.Follows (Source.line (.ofLine '.' "-(1 2)")).endless 3 1 1 ∧
      parse Calculator.grammar Expr.interpretation p.bound 6 p.enter =
        .failure (.expected .rightParen .number (some ⟨4, 5⟩)) q ∧
      ∃ j, Halts (Source.line (.ofLine '.' "-(1 2)")).endless 3 1 1 p.enter q j ∧
        ∃ i, 1 ≤ i ∧
          (ParseError.expected .rightParen .number (some ⟨4, 5⟩)).Describes
            ((Source.line (.ofLine '.' "-(1 2)")).endless i) ∧
          j = (ParseError.expected .rightParen .number (some ⟨4, 5⟩)).resume i := by
  obtain ⟨hplace, hstops⟩ :=
    failure_stops_at_token Expr.interpretation_sincere Calculator.grammar
  obtain ⟨rs, p, hs, hfail⟩ : ∃ rs p,
      session Calculator.grammar Expr.interpretation [.peek 5, .consume]
        (ofSource (.line (.ofLine '.' "-(1 2)")) 3) = .ok (rs, p) ∧
      p.stats.consumed = 1 ∧ ∃ q,
        parse Calculator.grammar Expr.interpretation p.bound 6 p.enter =
          .failure (.expected .rightParen .number (some ⟨4, 5⟩)) q := ⟨_, _, rfl, rfl, _, rfl⟩
  obtain ⟨hone, q, hq⟩ := hfail
  have hf := (hplace _ 3 _ rs p hs).enter
  rw [hone] at hf
  obtain ⟨j, hhalts, hdescribed⟩ := hstops _ 3 1 1 p.enter hf p.bound 6 _ q hq
  exact ⟨rs, p, q, hs, hf, hq, j, hhalts, hdescribed trivial⟩

end Parser

end Reckon

/-
**Relabelled tokens.**

Of a token the reader looks at the kind; its text and its span only go into errors, and into the
operations.  So if the tokens of a tape are replaced by others of the same kinds, and the operations
and the errors follow, then the reader takes the same steps and its errors are those that follow.
This holds in particular of spans alone: no operation asks where a token stands.

Main definitions:

* `Token.mapSpan`, `ParseError.mapSpan` — other spans in tokens and errors;
* `Landing.mapError` — other errors of a run;
* `Interpretation.Relabels` — a tape with other tokens, whose operations and errors follow.

Main results:

* `Tape.read_relabels` — **the reader follows**;
* `Parser.result?_relabels` — so does the parser, whatever its source is;
* `Arithmetic.relabels_mapSpan` — other spans are a relabelling.
-/

import Reckon.Arithmetic
import Reckon.Proofs.Endless

set_option autoImplicit false
set_option relaxedAutoImplicit false

namespace Reckon

/-! ### Spans replaced -/

def Token.mapSpan (f : Span → Span) (t : Token) : Token := { t with span := t.span.map f }

@[simp] theorem Token.kind_mapSpan (f : Span → Span) (t : Token) : (t.mapSpan f).kind = t.kind :=
  rfl

@[simp] theorem Token.text_mapSpan (f : Span → Span) (t : Token) : (t.mapSpan f).text = t.text :=
  rfl

@[simp] theorem Token.span_mapSpan (f : Span → Span) (t : Token) :
    (t.mapSpan f).span = t.span.map f := rfl

def ParseError.mapSpan (f : Span → Span) : ParseError → ParseError
  | noPrefix kind text span => noPrefix kind text (span.map f)
  | expected wanted found span => expected wanted found (span.map f)
  | unknownOperation kind span => unknownOperation kind (span.map f)
  | alreadyRegistered kind fixity => alreadyRegistered kind fixity
  | tooDeep depth span => tooDeep depth (span.map f)
  | invalidNumber cause => invalidNumber cause

@[simp] theorem ParseError.span_mapSpan (f : Span → Span) (e : ParseError) :
    (e.mapSpan f).span = e.span.map f := by
  cases e <;> rfl

/-- The message does not tell where the error is. -/
@[simp] theorem ParseError.message_mapSpan (f : Span → Span) (e : ParseError) :
    (e.mapSpan f).message = e.message := by
  cases e <;> rfl

/-! ### Errors replaced -/

namespace Landing

variable {α β : Type} {φ : ParseError → ParseError}

def mapError (φ : ParseError → ParseError) : Landing α → Landing α
  | value a j => value a j
  | failure e j => failure (φ e) j
  | unfinished => unfinished

def result? : Landing α → Option (Except ParseError α)
  | value a _ => some (.ok a)
  | failure e _ => some (.error e)
  | unfinished => none

theorem mapError_andThen (l : Landing α) (next : α → Nat → Landing β) :
    (l.andThen next).mapError φ =
      (l.mapError φ).andThen fun a j => (next a j).mapError φ := by
  cases l <;> rfl

theorem mapError_ofExcept (r : Except ParseError α) (j : Nat) :
    (ofExcept r j).mapError φ = ofExcept (r.mapError φ) j := by
  cases r <;> rfl

theorem result?_mapError (l : Landing α) :
    (l.mapError φ).result? = l.result?.map (Except.mapError φ) := by
  cases l <;> rfl

end Landing

theorem Outcome.LandsOn.result?_eq {α : Type} {S : Tape} {limit depth : Nat} {o : Outcome α}
    {l : Landing α} (h : o.LandsOn S limit depth l) : o.result? = l.result? := by
  cases h <;> rfl

/-- The second tape holds tokens of the same kinds as the first one.  An operation yields the same
value with the one token as with the other, or the errors follow `φ`, and so do the errors of the
reader. -/
structure Interpretation.Relabels {α : Type} (I : Interpretation α) (g : Grammar) (S S' : Tape)
    (φ : ParseError → ParseError) : Prop where
  kind_eq : ∀ n, (S' n).kind = (S n).kind
  noPrefix : ∀ n, g.prefixRule? (S n).kind = none →
    .noPrefix (S' n).kind (S' n).text (S' n).span =
      φ (.noPrefix (S n).kind (S n).text (S n).span)
  expected : ∀ n, .expected .rightParen (S' n).kind (S' n).span =
    φ (.expected .rightParen (S n).kind (S n).span)
  tooDeep : ∀ limit n, .tooDeep limit (S' n).span = φ (.tooDeep limit (S n).span)
  atom : ∀ n, g.prefixRule? (S n).kind = some .atom →
    I.atom (S' n) = (I.atom (S n)).mapError φ
  group : ∀ n a m, I.group (S' n) a (S' m) = I.group (S n) a (S m)
  unary : ∀ n a, I.unary (S' n) a = (I.unary (S n) a).mapError φ
  binary : ∀ a n b, I.binary a (S' n) b = (I.binary a (S n) b).mapError φ
  postfixed : ∀ a n, I.postfixed a (S' n) = (I.postfixed a (S n)).mapError φ

section Rules

variable {α : Type} {I : Interpretation α} {g : Grammar} {S S' : Tape}
  {φ : ParseError → ParseError} {operand operand' : Nat → Nat → Landing α} {i : Nat}

theorem PrefixRule.read_relabels (h : I.Relabels g S S' φ) {rule : PrefixRule}
    (hr : g.prefixRule? (S i).kind = some rule)
    (hoperand : ∀ θ j, operand' θ j = (operand θ j).mapError φ) :
    rule.read I S' operand' i = (rule.read I S operand i).mapError φ := by
  cases rule with
  | atom => rw [read, read, Landing.mapError_ofExcept, h.atom i hr]
  | group =>
      rw [read, read, Landing.mapError_andThen, hoperand]
      congr 1
      funext inner j
      by_cases hk : (S j).kind = .rightParen
      · rw [if_pos hk, if_pos (by rwa [h.kind_eq]), h.group]
        rfl
      · rw [if_neg hk, if_neg (by rwa [h.kind_eq]), h.expected]
        rfl
  | unary m =>
      rw [read, read, Landing.mapError_andThen, hoperand]
      congr 1
      funext a j
      rw [Landing.mapError_ofExcept, h.unary]

theorem InfixRule.read_relabels (h : I.Relabels g S S' φ) (rule : InfixRule)
    (hoperand : ∀ θ j, operand' θ j = (operand θ j).mapError φ) (left : α) :
    rule.read I S' operand' left i = (rule.read I S operand left i).mapError φ := by
  cases rule with
  | binary prec assoc =>
      rw [read, read, Landing.mapError_andThen, hoperand]
      congr 1
      funext right j
      rw [Landing.mapError_ofExcept, h.binary]
  | postfixed prec => rw [read, read, Landing.mapError_ofExcept, h.postfixed]

end Rules

namespace Tape

variable {α : Type} {I : Interpretation α} {g : Grammar} {S S' : Tape}
  {φ : ParseError → ParseError}

theorem relabels_of_bound (h : I.Relabels g S S' φ) (limit n : Nat) :
    (∀ depth θ i, read g I S' limit n depth θ i = (read g I S limit n depth θ i).mapError φ) ∧
      ∀ depth θ left i, extend g I S' limit n depth θ left i =
        (extend g I S limit n depth θ left i).mapError φ := by
  induction n with
  | zero => exact ⟨fun _ _ _ => rfl, fun _ _ _ _ => rfl⟩
  | succ n ih =>
      obtain ⟨ihr, ihe⟩ := ih
      constructor
      · intro depth θ i
        have hk := h.kind_eq i
        rcases Nat.lt_or_ge depth limit with hd | hd
        · cases hr : g.prefixRule? (S i).kind with
          | none =>
              rw [read_of_noPrefix hd hr, read_of_noPrefix hd (by rwa [hk]), h.noPrefix i hr]
              rfl
          | some rule =>
              rw [read_of_prefixRule hd hr, read_of_prefixRule hd (by rwa [hk]),
                Landing.mapError_andThen, PrefixRule.read_relabels h hr (ihr (depth + 1))]
              congr 1
              funext a j
              exact ihe (depth + 1) θ a j
        · rw [read_of_tooDeep hd, read_of_tooDeep hd, h.tooDeep]
          rfl
      · intro depth θ left i
        have hk := h.kind_eq i
        rcases Nat.lt_or_ge θ (g.precedenceOf (S i).kind) with hlt | hle
        · obtain ⟨rule, hr, hθ⟩ := Grammar.exists_infixRule_of_lt hlt
          rw [extend_of_lt hr hθ, extend_of_lt (by rwa [hk]) hθ, Landing.mapError_andThen,
            rule.read_relabels h (ihr depth)]
          congr 1
          funext a j
          exact ihe depth θ a j
        · rw [extend_of_le hle, extend_of_le (by rwa [hk])]
          rfl

/-- **The reader follows.** -/
theorem read_relabels (h : I.Relabels g S S' φ) (limit n depth θ i : Nat) :
    read g I S' limit n depth θ i = (read g I S limit n depth θ i).mapError φ :=
  (relabels_of_bound h limit n).1 depth θ i

end Tape

namespace Parser

variable {α : Type} {I : Interpretation α} {g : Grammar} {s s' : Source}
  {φ : ParseError → ParseError} {limit θ : Nat}

/-- Two parsers on relabelled streams that come to an end come to the same end. -/
theorem result?_relabels (h : I.Relabels g s.endless s'.endless φ)
    (hs : (ofSource s limit).parseExpression g I θ ≠ .unfinished)
    (hs' : (ofSource s' limit).parseExpression g I θ ≠ .unfinished) :
    ((ofSource s' limit).parseExpression g I θ).result? =
      ((ofSource s limit).parseExpression g I θ).result?.map (Except.mapError φ) := by
  -- a bound that is large enough for both runs
  generalize hm : max (ofSource s limit).bound (ofSource s' limit).bound = m
  have hrun := parse_stable (m := m) (by omega) hs
  have hrun' := parse_stable (m := m) (by omega) hs'
  have hland := parse_landsOn g I m θ (follows_ofSource s limit)
  have hland' := parse_landsOn g I m θ (follows_ofSource s' limit)
  rw [← parseExpression] at hrun hrun'
  rw [hrun] at hland
  rw [hrun', Tape.read_relabels h] at hland'
  rw [hland'.result?_eq, hland.result?_eq, Landing.result?_mapError]

end Parser

/-- Arithmetic does not ask where a token stands. -/
theorem Arithmetic.relabels_mapSpan {α : Type} (A : Arithmetic α) (g : Grammar) {S S' : Tape}
    {f : Span → Span} (h : ∀ n, S' n = (S n).mapSpan f) :
    A.interpretation.Relabels g S S' (ParseError.mapSpan f) where
  kind_eq n := by rw [h, Token.kind_mapSpan]
  noPrefix n _ := by
    rw [h, Token.kind_mapSpan, Token.text_mapSpan, Token.span_mapSpan]
    rfl
  expected n := by
    rw [h, Token.kind_mapSpan, Token.span_mapSpan]
    rfl
  tooDeep limit n := by
    rw [h, Token.span_mapSpan]
    rfl
  atom n _ := by
    rw [h]
    change A.number (S n).text = (A.number (S n).text).mapError _
    rw [number]
    cases Numeral.ofText (S n).text <;> rfl
  group _ _ _ := rfl
  unary n a := by
    rw [h]
    change A.unary ((S n).mapSpan f) a = (A.unary (S n) a).mapError _
    rw [unary, unary, Token.kind_mapSpan]
    cases (S n).kind <;> rfl
  binary a n b := by
    rw [h]
    change A.binary a ((S n).mapSpan f) b = (A.binary a (S n) b).mapError _
    rw [binary, binary, Token.kind_mapSpan]
    cases (S n).kind <;> rfl
  postfixed a n := by
    rw [h]
    rfl

end Reckon

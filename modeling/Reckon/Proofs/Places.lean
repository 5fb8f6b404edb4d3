/-
**Where a reader stops.**

A reader only moves forward, behind an error as well as behind a value, and every call of it takes a
token first.  So the last place that a run has looked at tells all that the run depends on: the
tokens up to that place, and how large a bound it can do with.

What the reader does itself has to be told from what the interpretation does.  A *sincere* one
reports errors of its own only.

Main definitions:

* `ParseError.IsOfReader`, `Interpretation.Sincere` — the errors that the reader reports, and the
  interpretations that report none of them;
* `Landing.Meets` — conditions on the place behind a value and on an error with its place;
* `Tape.Confines` — a condition that holds of every error where it arises;
* `Landing.stop?`, `Landing.From` — the place where a run has ended, and a place before it;
* `Landing.Until` — two runs end alike if the first one looks at no place from some place on.

Main results:

* `Tape.read_meets` — what holds of every error where it arises holds of the error of a run;
* `Tape.read_from` — reading moves forward;
* `Tape.read_until` — **what a run depends on**.
-/

import Reckon.Arithmetic
import Reckon.Proofs.Precedence

set_option autoImplicit false
set_option relaxedAutoImplicit false

namespace Reckon

/-! ### Whose error it is -/

/-- The errors that the reader reports, and no operation. -/
def ParseError.IsOfReader : ParseError → Prop
  | noPrefix _ _ _ => True
  | expected _ _ _ => True
  | tooDeep _ _ => True
  | _ => False

section Interpretations

variable {α : Type}

/-- Some operation reports the error. -/
inductive Interpretation.Reports (I : Interpretation α) : ParseError → Prop
  | atom {t : Token} {e : ParseError} : I.atom t = .error e → Reports I e
  | unary {op : Token} {a : α} {e : ParseError} : I.unary op a = .error e → Reports I e
  | binary {a b : α} {op : Token} {e : ParseError} : I.binary a op b = .error e → Reports I e
  | postfixed {a : α} {op : Token} {e : ParseError} : I.postfixed a op = .error e → Reports I e

/-- No operation reports an error in the place of the reader. -/
def Interpretation.Sincere (I : Interpretation α) : Prop := ∀ e, I.Reports e → ¬ e.IsOfReader

/-- Arithmetic reports only unknown operations and texts that are no numerals. -/
theorem Arithmetic.interpretation_sincere (A : Arithmetic α) : A.interpretation.Sincere := by
  intro e h
  cases h with
  | @atom t _ h =>
      rw [show A.interpretation.atom t = A.number t.text from rfl, Arithmetic.number] at h
      split at h <;> cases h
      exact id
  | @unary op a _ h =>
      rw [show A.interpretation.unary op a = A.unary op a from rfl, Arithmetic.unary] at h
      split at h <;> cases h
      exact id
  | @binary a b op _ h =>
      rw [show A.interpretation.binary a op b = A.binary a op b from rfl, Arithmetic.binary] at h
      split at h <;> cases h
      exact id
  | postfixed h =>
      cases h
      exact id

/-- Building trees never fails. -/
theorem Expr.interpretation_sincere : Expr.interpretation.Sincere := by
  intro e h
  cases h with
  | atom h => cases h
  | unary h => cases h
  | binary h => cases h
  | postfixed h => cases h

end Interpretations

/-! ### Moving forward -/

/-- The place that has been reached. -/
def ParseError.reached (_ : ParseError) (j : Nat) : Nat := j

/-- The last place that has been looked at, where the place `j` has been reached: a token that
starts no expression has been taken, other tokens that are to blame have not. -/
def ParseError.looked : ParseError → Nat → Nat
  | noPrefix _ _ _, j => j - 1
  | _, j => j

/-- No error of the reader or of an operation is counted as standing before the place where it is
met. -/
structure Interpretation.Forward {α : Type} (I : Interpretation α)
    (last : ParseError → Nat → Nat) : Prop where
  noPrefix : ∀ k t s j, j ≤ last (.noPrefix k t s) (j + 1)
  expected : ∀ w f s j, j ≤ last (.expected w f s) j
  tooDeep : ∀ limit s j, j ≤ last (.tooDeep limit s) j
  operation : ∀ e j, I.Reports e → j ≤ last e j

theorem Interpretation.forward_reached {α : Type} (I : Interpretation α) :
    I.Forward ParseError.reached where
  noPrefix _ _ _ j := Nat.le_succ j
  expected _ _ _ j := Nat.le_refl j
  tooDeep _ _ j := Nat.le_refl j
  operation _ j _ := Nat.le_refl j

theorem Interpretation.Sincere.forward_looked {α : Type} {I : Interpretation α} (hI : I.Sincere) :
    I.Forward ParseError.looked where
  noPrefix _ _ _ j := Nat.le_refl j
  expected _ _ _ j := Nat.le_refl j
  tooDeep _ _ j := Nat.le_refl j
  operation e j h := by
    have hown := hI e h
    cases e with
    | noPrefix k t s => exact absurd trivial hown
    | _ => exact Nat.le_refl j

/-- Behind a value the place satisfies `P`, and an error with its place satisfies `Q`. -/
structure Landing.Meets {α : Type} (P : Nat → Prop) (Q : ParseError → Nat → Prop)
    (l : Landing α) : Prop where
  value : ∀ a j, l = .value a j → P j
  failure : ∀ e j, l = .failure e j → Q e j

namespace Landing.Meets

variable {α β : Type} {P P' : Nat → Prop} {Q Q' : ParseError → Nat → Prop} {l : Landing α}

theorem of_value {a : α} {j : Nat} (h : P j) : Meets P Q (.value a j) := by
  refine ⟨?_, ?_⟩
  · rintro a j ⟨⟩
    exact h
  · rintro e j ⟨⟩

theorem of_failure {e : ParseError} {j : Nat} (h : Q e j) :
    Meets P Q (.failure e j : Landing α) := by
  refine ⟨?_, ?_⟩
  · rintro a j ⟨⟩
  · rintro e j ⟨⟩
    exact h

theorem unfinished : Meets P Q (.unfinished : Landing α) := by
  refine ⟨?_, ?_⟩
  · rintro a j ⟨⟩
  · rintro e j ⟨⟩

theorem ofExcept {r : Except ParseError α} {j : Nat} (hQ : ∀ e, r = .error e → Q e j)
    (hP : P j) : Meets P Q (.ofExcept r j) := by
  cases r with
  | ok a => exact of_value hP
  | error e => exact of_failure (hQ e rfl)

theorem mono (h : Meets P Q l) (hP : ∀ j, P j → P' j) (hQ : ∀ e j, Q e j → Q' e j) :
    Meets P' Q' l :=
  ⟨fun a j hl => hP j (h.value a j hl), fun e j hl => hQ e j (h.failure e j hl)⟩

/-- An error of the first part is one of the whole. -/
theorem andThen {next : α → Nat → Landing β} (h : Meets P Q l) (hQ : ∀ e j, Q e j → Q' e j)
    (hn : ∀ a j, l = .value a j → P j → Meets P' Q' (next a j)) :
    Meets P' Q' (l.andThen next) := by
  cases l with
  | value a j => exact hn a j rfl (h.value a j rfl)
  | failure e j => exact of_failure (hQ e j (h.failure e j rfl))
  | unfinished => exact unfinished

end Landing.Meets

open Landing (Meets)

/-! ### What holds of every error -/

/-- The condition holds of every error at the place where it arises: of those of the reader, and of
those that the operations report on the tokens handed to them. -/
structure Tape.Confines {α : Type} (g : Grammar) (I : Interpretation α) (S : Tape) (limit : Nat)
    (Q : ParseError → Nat → Prop) : Prop where
  noPrefix : ∀ i, g.prefixRule? (S i).kind = none →
    Q (.noPrefix (S i).kind (S i).text (S i).span) (i + 1)
  expected : ∀ i, (S i).kind ≠ .rightParen → Q (.expected .rightParen (S i).kind (S i).span) i
  tooDeep : ∀ i, Q (.tooDeep limit (S i).span) i
  atom : ∀ i e, g.prefixRule? (S i).kind = some .atom → I.atom (S i) = .error e → Q e (i + 1)
  unary : ∀ i j m a e, g.prefixRule? (S i).kind = some (.unary m) →
    I.unary (S i) a = .error e → Q e j
  binary : ∀ i j prec assoc a b e, g.infixRule? (S i).kind = some (.binary prec assoc) →
    I.binary a (S i) b = .error e → Q e j
  postfixed : ∀ i prec a e, g.infixRule? (S i).kind = some (.postfixed prec) →
    I.postfixed a (S i) = .error e → Q e (i + 1)

section Rules

variable {α : Type} {I : Interpretation α} {g : Grammar} {S : Tape} {limit i : Nat}
  {operand : Nat → Nat → Landing α} {Q : ParseError → Nat → Prop}

/-- What a group does behind the expression inside: it ends behind the closing parenthesis, or with
an error if there is none. -/
theorem PrefixRule.close_meets {P : Nat → Prop} {j : Nat}
    (opening : Token) (inner : α) (hP : (S j).kind = .rightParen → P (j + 1))
    (hQ : (S j).kind ≠ .rightParen → Q (.expected .rightParen (S j).kind (S j).span) j) :
    Meets P Q (if (S j).kind = .rightParen then .value (I.group opening inner (S j)) (j + 1)
      else .failure (.expected .rightParen (S j).kind (S j).span) j) := by
  split
  · exact Meets.of_value (hP ‹_›)
  · exact Meets.of_failure (hQ ‹_›)

theorem PrefixRule.read_meets (hQ : Tape.Confines g I S limit Q) {rule : PrefixRule}
    (hr : g.prefixRule? (S i).kind = some rule)
    (h : ∀ θ j, Meets (fun _ => True) Q (operand θ j)) :
    Meets (fun _ => True) Q (rule.read I S operand i) := by
  cases rule with
  | atom => exact Meets.ofExcept (fun e he => hQ.atom i e hr he) trivial
  | group =>
      refine (h 0 (i + 1)).andThen (fun _ _ he => he) ?_
      intro inner j _ _
      exact close_meets (S i) inner (fun _ => trivial) (hQ.expected j)
  | unary m =>
      refine (h m (i + 1)).andThen (fun _ _ he => he) ?_
      intro a j _ _
      exact Meets.ofExcept (fun e he => hQ.unary i j m a e hr he) trivial

theorem InfixRule.read_meets (hQ : Tape.Confines g I S limit Q) {rule : InfixRule}
    (hr : g.infixRule? (S i).kind = some rule)
    (h : ∀ θ j, Meets (fun _ => True) Q (operand θ j)) (left : α) :
    Meets (fun _ => True) Q (rule.read I S operand left i) := by
  cases rule with
  | binary prec assoc =>
      refine (h _ (i + 1)).andThen (fun _ _ he => he) ?_
      intro b j _ _
      exact Meets.ofExcept (fun e he => hQ.binary i j prec assoc left b e hr he) trivial
  | postfixed prec =>
      exact Meets.ofExcept (fun e he => hQ.postfixed i prec left e hr he) trivial

end Rules

namespace Tape

variable {α : Type} {I : Interpretation α} {g : Grammar} {S : Tape} {limit : Nat}
  {Q : ParseError → Nat → Prop}

theorem meets_of_bound (hQ : Confines g I S limit Q) (n : Nat) :
    (∀ depth θ i, Meets (fun _ => True) Q (read g I S limit n depth θ i)) ∧
      ∀ depth θ left i, Meets (fun _ => True) Q (extend g I S limit n depth θ left i) := by
  induction n with
  | zero => exact ⟨fun _ _ _ => Meets.unfinished, fun _ _ _ _ => Meets.unfinished⟩
  | succ n ih =>
      obtain ⟨ihr, ihe⟩ := ih
      constructor
      · intro depth θ i
        rcases Nat.lt_or_ge depth limit with h | h
        · cases hr : g.prefixRule? (S i).kind with
          | none =>
              rw [read_of_noPrefix h hr]
              exact Meets.of_failure (hQ.noPrefix i hr)
          | some rule =>
              rw [read_of_prefixRule h hr]
              exact (rule.read_meets hQ hr (ihr (depth + 1))).andThen (fun _ _ he => he)
                (fun a j _ _ => ihe (depth + 1) θ a j)
        · rw [read_of_tooDeep h]
          exact Meets.of_failure (hQ.tooDeep i)
      · intro depth θ left i
        rcases Nat.lt_or_ge θ (g.precedenceOf (S i).kind) with h | h
        · obtain ⟨rule, hr, hlt⟩ := Grammar.exists_infixRule_of_lt h
          rw [extend_of_lt hr hlt]
          exact (rule.read_meets hQ hr (ihr depth) left).andThen (fun _ _ he => he)
            (fun a j _ _ => ihe depth θ a j)
        · rw [extend_of_le h]
          exact Meets.of_value trivial

/-- What holds of every error where it arises holds of the error of a run. -/
theorem read_meets (hQ : Confines g I S limit Q) (n depth θ i : Nat) :
    Meets (fun _ => True) Q (read g I S limit n depth θ i) :=
  (meets_of_bound hQ n).1 depth θ i

end Tape

namespace Landing

variable {α β : Type}

/-- The place at which a run has ended; behind an error it is what `last` makes of it. -/
def stop? (last : ParseError → Nat → Nat) : Landing α → Option Nat
  | value _ j => some j
  | failure e j => some (last e j)
  | unfinished => none

/-- If the run has ended, then at place `i` or a later one. -/
def From (last : ParseError → Nat → Nat) (i : Nat) : Landing α → Prop :=
  Meets (fun j => i ≤ j) (fun e j => i ≤ last e j)

namespace From

variable {last : ParseError → Nat → Nat} {i : Nat} {l : Landing α}

theorem le_of_stop? (h : From last i l) {k : Nat} (hk : l.stop? last = some k) : i ≤ k := by
  cases l with
  | value a j =>
      cases hk
      exact h.value a k rfl
  | failure e j =>
      cases hk
      exact h.failure e j rfl
  | unfinished => cases hk

theorem mono {i' : Nat} (h : From last i l) (hi : i' ≤ i) : From last i' l :=
  Meets.mono h (fun _ hj => Nat.le_trans hi hj) (fun _ _ hj => Nat.le_trans hi hj)

theorem andThen {next : α → Nat → Landing β} (h : From last i l)
    (hn : ∀ a j, From last j (next a j)) : From last i (l.andThen next) := by
  refine Meets.andThen h (fun _ _ hj => hj) ?_
  intro a j _ hj
  exact (hn a j).mono hj

end From

end Landing

open Landing (From)

section Rules

variable {α : Type} {I : Interpretation α} {last : ParseError → Nat → Nat} {S : Tape}
  {operand : Nat → Nat → Landing α}

theorem PrefixRule.close_from (hF : I.Forward last) (opening : Token) (inner : α) (j : Nat) :
    From last j (if (S j).kind = .rightParen then .value (I.group opening inner (S j)) (j + 1)
      else .failure (.expected .rightParen (S j).kind (S j).span) j) :=
  close_meets opening inner (fun _ => Nat.le_succ j) (fun _ => hF.expected _ _ _ j)

/-- An operation is no error that stands before the place where it is met. -/
theorem Interpretation.Forward.ofExcept_from (hF : I.Forward last) {r : Except ParseError α}
    (h : ∀ e, r = .error e → I.Reports e) (j : Nat) : From last j (.ofExcept r j) :=
  Meets.ofExcept (fun e he => hF.operation e j (h e he)) (Nat.le_refl j)

theorem Interpretation.Forward.unary_from (hF : I.Forward last) (op : Token) (a : α) (j : Nat) :
    From last j (.ofExcept (I.unary op a) j) :=
  hF.ofExcept_from (fun _ he => .unary he) j

theorem Interpretation.Forward.binary_from (hF : I.Forward last) (a : α) (op : Token) (b : α)
    (j : Nat) : From last j (.ofExcept (I.binary a op b) j) :=
  hF.ofExcept_from (fun _ he => .binary he) j

theorem PrefixRule.read_from (hF : I.Forward last) (rule : PrefixRule)
    (h : ∀ m j, From last j (operand m j)) (i : Nat) :
    From last (i + 1) (rule.read I S operand i) := by
  cases rule with
  | atom => exact hF.ofExcept_from (fun _ he => .atom he) (i + 1)
  | group => exact (h 0 (i + 1)).andThen fun inner j => close_from hF (S i) inner j
  | unary m => exact (h m (i + 1)).andThen fun a j => hF.unary_from (S i) a j

theorem InfixRule.read_from (hF : I.Forward last) (rule : InfixRule)
    (h : ∀ m j, From last j (operand m j)) (left : α) (i : Nat) :
    From last (i + 1) (rule.read I S operand left i) := by
  cases rule with
  | binary prec assoc =>
      exact (h _ (i + 1)).andThen fun right j => hF.binary_from left (S i) right j
  | postfixed prec => exact hF.ofExcept_from (fun _ he => .postfixed he) (i + 1)

end Rules

namespace Tape

variable {α : Type} {I : Interpretation α} {last : ParseError → Nat → Nat}

theorem from_of_bound (hF : I.Forward last) (g : Grammar) (S : Tape) (limit n : Nat) :
    (∀ depth θ i, From last i (read g I S limit n depth θ i)) ∧
      ∀ depth θ left i, From last i (extend g I S limit n depth θ left i) := by
  induction n with
  | zero => exact ⟨fun _ _ _ => Meets.unfinished, fun _ _ _ _ => Meets.unfinished⟩
  | succ n ih =>
      obtain ⟨ihr, ihe⟩ := ih
      constructor
      · intro depth θ i
        rcases Nat.lt_or_ge depth limit with h | h
        · cases hr : g.prefixRule? (S i).kind with
          | none =>
              rw [read_of_noPrefix h hr]
              exact Meets.of_failure (hF.noPrefix _ _ _ i)
          | some rule =>
              have hrule := (rule.read_from (S := S) hF (ihr (depth + 1)) i).andThen
                (ihe (depth + 1) θ)
              rw [read_of_prefixRule h hr]
              exact hrule.mono (Nat.le_succ i)
        · rw [read_of_tooDeep h]
          exact Meets.of_failure (hF.tooDeep _ _ i)
      · intro depth θ left i
        rcases Nat.lt_or_ge θ (g.precedenceOf (S i).kind) with h | h
        · obtain ⟨rule, hr, hlt⟩ := Grammar.exists_infixRule_of_lt h
          have hrule := (rule.read_from (S := S) hF (ihr depth) left i).andThen (ihe depth θ)
          rw [extend_of_lt hr hlt]
          exact hrule.mono (Nat.le_succ i)
        · rw [extend_of_le h]
          exact Meets.of_value (Nat.le_refl i)

/-- Reading moves forward. -/
theorem read_from (hF : I.Forward last) (g : Grammar) (S : Tape) (limit n depth θ i : Nat) :
    From last i (read g I S limit n depth θ i) :=
  (from_of_bound hF g S limit n).1 depth θ i

/-- So does the loop. -/
theorem extend_from (hF : I.Forward last) (g : Grammar) (S : Tape) (limit n depth θ : Nat)
    (left : α) (i : Nat) : From last i (extend g I S limit n depth θ left i) :=
  (from_of_bound hF g S limit n).2 depth θ left i

end Tape

/-! ### What a run depends on -/

/-- If the first run has ended at no place from `stop` on, the second one ends alike. -/
def Landing.Until {α : Type} (last : ParseError → Nat → Nat) (stop : Nat) (l l' : Landing α) :
    Prop :=
  ∀ k, l.stop? last = some k → k < stop → l' = l

namespace Landing.Until

variable {α β : Type} {last : ParseError → Nat → Nat} {stop i : Nat}

theorem refl (l : Landing α) : Until last stop l l := fun _ _ _ => rfl

theorem of_from {l l' : Landing α} (h : From last i l) (hi : stop ≤ i) :
    Until last stop l l' := by
  intro k hk hlt
  exact absurd hlt (Nat.not_lt_of_le (Nat.le_trans hi (h.le_of_stop? hk)))

/-- What follows a value is looked at only if the value has been reached in time. -/
theorem andThen {l l' : Landing α} {next next' : α → Nat → Landing β} (h : Until last stop l l')
    (hl : From last i l) (hfrom : ∀ a j, From last j (next a j))
    (hn : ∀ a j, i ≤ j → j < stop → Until last stop (next a j) (next' a j)) :
    Until last stop (l.andThen next) (l'.andThen next') := by
  intro k hk hlt
  cases l with
  | value a j =>
      have hj : j < stop := Nat.lt_of_le_of_lt ((hfrom a j).le_of_stop? hk) hlt
      rw [h j rfl hj]
      exact hn a j (hl.value a j rfl) hj k hk hlt
  | failure e j =>
      rw [h k hk hlt]
      rfl
  | unfinished => cases hk

end Landing.Until

open Landing (Until)

section Rules

variable {α : Type} {I : Interpretation α} {last : ParseError → Nat → Nat} {S T : Tape}
  {operand operand' : Nat → Nat → Landing α} {stop i : Nat}

theorem PrefixRule.read_until (hF : I.Forward last) (rule : PrefixRule)
    (hST : ∀ k, k < stop → T k = S k) (hi : i < stop)
    (hfrom : ∀ m j, From last j (operand m j))
    (h : ∀ m, Until last stop (operand m (i + 1)) (operand' m (i + 1))) :
    Until last stop (rule.read I S operand i) (rule.read I T operand' i) := by
  cases rule with
  | atom =>
      rw [read, read, hST i hi]
      exact Until.refl _
  | group =>
      refine (h 0).andThen (hfrom 0 (i + 1)) (fun inner j => close_from hF (S i) inner j) ?_
      intro inner j _ hj
      rw [hST i hi, hST j hj]
      exact Until.refl _
  | unary m =>
      refine (h m).andThen (hfrom m (i + 1)) (fun a j => hF.unary_from (S i) a j) ?_
      intro a j _ _
      rw [hST i hi]
      exact Until.refl _

theorem InfixRule.read_until (hF : I.Forward last) (rule : InfixRule)
    (hST : ∀ k, k < stop → T k = S k) (hi : i < stop)
    (hfrom : ∀ m j, From last j (operand m j))
    (h : ∀ m, Until last stop (operand m (i + 1)) (operand' m (i + 1))) (left : α) :
    Until last stop (rule.read I S operand left i) (rule.read I T operand' left i) := by
  cases rule with
  | binary prec assoc =>
      refine (h _).andThen (hfrom _ (i + 1)) (fun b j => hF.binary_from left (S i) b j) ?_
      intro b j _ _
      rw [hST i hi]
      exact Until.refl _
  | postfixed prec =>
      rw [read, read, hST i hi]
      exact Until.refl _

end Rules

namespace Tape

variable {α : Type} {I : Interpretation α} {last : ParseError → Nat → Nat} {S T : Tape} {stop : Nat}

/-- A run depends only on the places it looks at, and as every call takes a token before it calls
again, not on its bound either if that exceeds the number of these places. -/
theorem until_of_bound (hF : I.Forward last) (g : Grammar) (limit : Nat)
    (hST : ∀ k, k < stop → T k = S k) (n : Nat) :
    (∀ m depth θ i, stop ≤ m + i → Until last stop (read g I S limit n depth θ i)
        (read g I T limit m depth θ i)) ∧
      ∀ m depth θ left i, stop ≤ m + i → Until last stop (extend g I S limit n depth θ left i)
        (extend g I T limit m depth θ left i) := by
  induction n with
  | zero =>
      constructor
      · rintro m depth θ i - k ⟨⟩
      · rintro m depth θ left i - k ⟨⟩
  | succ n ih =>
      obtain ⟨ihr, ihe⟩ := ih
      constructor
      · intro m depth θ i hm
        rcases Nat.lt_or_ge i stop with hi | hi
        · obtain ⟨m, rfl⟩ : ∃ m', m = m' + 1 := ⟨m - 1, by omega⟩
          rcases Nat.lt_or_ge depth limit with h | h
          · have hT := hST i hi
            cases hr : g.prefixRule? (S i).kind with
            | none =>
                rw [read_of_noPrefix h hr, read_of_noPrefix h (by rwa [hT]), hT]
                exact Until.refl _
            | some rule =>
                have hfrom := read_from hF g S limit n (depth + 1)
                have hrule := rule.read_until hF hST hi hfrom
                  (fun θ' => ihr m (depth + 1) θ' (i + 1) (by omega))
                rw [read_of_prefixRule h hr, read_of_prefixRule h (by rwa [hT])]
                refine hrule.andThen (rule.read_from hF hfrom i)
                  (extend_from hF g S limit n (depth + 1) θ) ?_
                intro a j hj _
                exact ihe m (depth + 1) θ a j (by omega)
          · rw [read_of_tooDeep h, read_of_tooDeep h, hST i hi]
            exact Until.refl _
        · exact Until.of_from (read_from hF g S limit (n + 1) depth θ i) hi
      · intro m depth θ left i hm
        rcases Nat.lt_or_ge i stop with hi | hi
        · obtain ⟨m, rfl⟩ : ∃ m', m = m' + 1 := ⟨m - 1, by omega⟩
          have hT := hST i hi
          rcases Nat.lt_or_ge θ (g.precedenceOf (S i).kind) with h | h
          · obtain ⟨rule, hr, hlt⟩ := Grammar.exists_infixRule_of_lt h
            have hfrom := read_from hF g S limit n depth
            have hrule := rule.read_until hF hST hi hfrom
              (fun θ' => ihr m depth θ' (i + 1) (by omega)) left
            rw [extend_of_lt hr hlt, extend_of_lt (by rwa [hT]) hlt]
            refine hrule.andThen (rule.read_from hF hfrom left i)
              (extend_from hF g S limit n depth θ) ?_
            intro a j hj _
            exact ihe m depth θ a j (by omega)
          · rw [extend_of_le h, extend_of_le (by rwa [hT])]
            exact Until.refl _
        · exact Until.of_from (extend_from hF g S limit (n + 1) depth θ left i) hi

/-- A run on one tape is a run on every other that holds the same tokens as far as it looks. -/
theorem read_until {g : Grammar} {limit n m depth θ i k : Nat} (hF : I.Forward last)
    (h : (read g I S limit n depth θ i).stop? last = some k)
    (hST : ∀ j, j ≤ k → T j = S j) (hk : k < m + i) :
    read g I T limit m depth θ i = read g I S limit n depth θ i := by
  have hbefore : ∀ j, j < k + 1 → T j = S j := fun j hj => hST j (Nat.le_of_lt_succ hj)
  exact (until_of_bound hF g limit hbefore n).1 m depth θ i hk k h (Nat.lt_succ_self k)

end Tape

end Reckon

/-
**Reading from a tape.**

Take away the buffer, the source and the counters of a parser, and what is left is an endless tape
of tokens and a place on it.  The rules of a grammar read an expression from a tape as well: they
look at the token at the place and move the place forward.  Nothing has to be drawn, and nothing
has to be restored behind an error, so statements about expressions are proved of this reader
first and carried over to the parser afterwards.

Main definitions:

* `Landing` — a value or an error with the place that has been reached, or an endless run;
* `PrefixRule.read`, `InfixRule.read` — applying a rule on a tape;
* `Tape.read`, `Tape.extend` — reading an expression, and its loop;
* `Tape.Reads` — the answer of the reader, whatever the bound;
* `Tape.Spells` — the tokens that stand between two places;
* `Tape.EndsAt` — a tape that from some place on holds nothing but ends of the input.

Main results:

* `Tape.read_stable`, `Tape.reads_unique` — a larger bound changes no finished run, so there is at
  most one answer;
* `Tape.read_endsFrom` — **reading ends** on a tape that from some place on holds no operators.
-/

import Reckon.Parser.Climb

set_option autoImplicit false
set_option relaxedAutoImplicit false

namespace Reckon

/-- An endless row of tokens. -/
abbrev Tape := Nat → Token

/-- How reading from a tape ends, and the place that has been reached. -/
inductive Landing (α : Type) where
  | value (result : α) (place : Nat)
  | failure (error : ParseError) (place : Nat)
  | unfinished

namespace Landing

variable {α β : Type}

def andThen (l : Landing α) (next : α → Nat → Landing β) : Landing β :=
  match l with
  | value a j => next a j
  | failure e j => failure e j
  | unfinished => unfinished

def ofExcept (r : Except ParseError α) (place : Nat) : Landing α :=
  match r with
  | .ok a => value a place
  | .error e => failure e place

@[simp] theorem andThen_value (a : α) (j : Nat) (next : α → Nat → Landing β) :
    (value a j).andThen next = next a j := rfl

@[simp] theorem andThen_failure (e : ParseError) (j : Nat) (next : α → Nat → Landing β) :
    (failure e j).andThen next = failure e j := rfl

@[simp] theorem andThen_unfinished (next : α → Nat → Landing β) :
    (unfinished : Landing α).andThen next = unfinished := rfl

@[simp] theorem ofExcept_ok (a : α) (j : Nat) : ofExcept (.ok a) j = value a j := rfl

@[simp] theorem ofExcept_error (e : ParseError) (j : Nat) :
    (ofExcept (.error e) j : Landing α) = failure e j := rfl

theorem andThen_eq_value {l : Landing α} {next : α → Nat → Landing β} {b : β} {k : Nat}
    (h : l.andThen next = value b k) : ∃ a j, l = value a j ∧ next a j = value b k := by
  cases l with
  | value a j => exact ⟨a, j, rfl, h⟩
  | failure e j => exact absurd h (by simp)
  | unfinished => exact absurd h (by simp)

theorem ofExcept_eq_value {r : Except ParseError α} {a : α} {j k : Nat}
    (h : ofExcept r j = value a k) : r = .ok a ∧ j = k := by
  cases r with
  | ok b =>
      cases h
      exact ⟨rfl, rfl⟩
  | error e => exact absurd h (by simp)

end Landing

section Rules

variable {α : Type}

/-- Applies the rule of the token at place `i`, which starts an expression.  The operand is read
by `operand`, which is given the threshold and the place. -/
def PrefixRule.read (I : Interpretation α) (S : Tape) (operand : Nat → Nat → Landing α)
    (rule : PrefixRule) (i : Nat) : Landing α :=
  match rule with
  | .atom => .ofExcept (I.atom (S i)) (i + 1)
  | .group =>
      (operand 0 (i + 1)).andThen fun inner j =>
        if (S j).kind = .rightParen then .value (I.group (S i) inner (S j)) (j + 1)
        else .failure (.expected .rightParen (S j).kind (S j).span) j
  | .unary threshold =>
      (operand threshold (i + 1)).andThen fun a j => .ofExcept (I.unary (S i) a) j

/-- Applies the rule of the token at place `i`, which stands behind the expression of value
`left`. -/
def InfixRule.read (I : Interpretation α) (S : Tape) (operand : Nat → Nat → Landing α)
    (rule : InfixRule) (left : α) (i : Nat) : Landing α :=
  match rule with
  | .binary prec assoc =>
      (operand (assoc.rightThreshold prec) (i + 1)).andThen fun right j =>
        .ofExcept (I.binary left (S i) right) j
  | .postfixed _ => .ofExcept (I.postfixed left (S i)) (i + 1)

end Rules

namespace Tape

variable {α : Type}

mutual

/-- Reads an expression whose operators all bind tighter than `threshold`, `depth` expressions
being read already. -/
def read (g : Grammar) (I : Interpretation α) (S : Tape) (limit : Nat) :
    Nat → Nat → Nat → Nat → Landing α
  | 0, _, _, _ => .unfinished
  | n + 1, depth, threshold, i =>
      if limit ≤ depth then .failure (.tooDeep limit (S i).span) i
      else
        match g.prefixRule? (S i).kind with
        | none => .failure (.noPrefix (S i).kind (S i).text (S i).span) (i + 1)
        | some rule =>
            (rule.read I S (read g I S limit n (depth + 1)) i).andThen
              (extend g I S limit n (depth + 1) threshold)
termination_by structural n => n

/-- Extends the expression of value `left` by the operators behind it, as long as they bind
tighter than `threshold`. -/
def extend (g : Grammar) (I : Interpretation α) (S : Tape) (limit : Nat) :
    Nat → Nat → Nat → α → Nat → Landing α
  | 0, _, _, _, _ => .unfinished
  | n + 1, depth, threshold, left, i =>
      match g.infixRule? (S i).kind with
      | none => .value left i
      | some rule =>
          if threshold < rule.precedence then
            (rule.read I S (read g I S limit n depth) left i).andThen
              (extend g I S limit n depth threshold)
          else .value left i
termination_by structural n => n

end

/-! ### One equation for each way to go on -/

section Equations

variable {g : Grammar} {I : Interpretation α} {S : Tape} {limit n depth threshold i : Nat}
  {left : α}

theorem read_of_tooDeep (h : limit ≤ depth) :
    read g I S limit (n + 1) depth threshold i = .failure (.tooDeep limit (S i).span) i := by
  rw [read, if_pos h]

theorem read_of_noPrefix (h : depth < limit) (hr : g.prefixRule? (S i).kind = none) :
    read g I S limit (n + 1) depth threshold i =
      .failure (.noPrefix (S i).kind (S i).text (S i).span) (i + 1) := by
  rw [read, if_neg (Nat.not_le_of_lt h)]
  simp only [hr]

theorem read_of_prefixRule {rule : PrefixRule} (h : depth < limit)
    (hr : g.prefixRule? (S i).kind = some rule) :
    read g I S limit (n + 1) depth threshold i =
      (rule.read I S (read g I S limit n (depth + 1)) i).andThen
        (extend g I S limit n (depth + 1) threshold) := by
  rw [read, if_neg (Nat.not_le_of_lt h)]
  simp only [hr]

theorem extend_of_le (h : g.precedenceOf (S i).kind ≤ threshold) :
    extend g I S limit (n + 1) depth threshold left i = .value left i := by
  rw [extend]
  cases hr : g.infixRule? (S i).kind with
  | none => rfl
  | some rule =>
      rw [Grammar.precedenceOf_some hr] at h
      exact if_neg (Nat.not_lt_of_le h)

theorem extend_of_lt {rule : InfixRule} (hr : g.infixRule? (S i).kind = some rule)
    (h : threshold < rule.precedence) :
    extend g I S limit (n + 1) depth threshold left i =
      (rule.read I S (read g I S limit n depth) left i).andThen
        (extend g I S limit n depth threshold) := by
  rw [extend]
  simp only [hr, if_pos h]

end Equations

end Tape

/-! ### Larger bounds -/

/-- The first landing is the second one, or none at all. -/
def Landing.Settles {α : Type} (l l' : Landing α) : Prop := l = .unfinished ∨ l = l'

namespace Landing.Settles

variable {α β : Type}

theorem refl (l : Landing α) : Settles l l := Or.inr rfl

theorem andThen {l l' : Landing α} {next next' : α → Nat → Landing β} (h : Settles l l')
    (hn : ∀ a j, Settles (next a j) (next' a j)) : Settles (l.andThen next) (l'.andThen next') := by
  rcases h with rfl | rfl
  · exact Or.inl rfl
  · cases l with
    | value a j => exact hn a j
    | failure e j => exact refl _
    | unfinished => exact refl _

end Landing.Settles

namespace Tape

variable {α : Type} {g : Grammar} {I : Interpretation α} {S : Tape} {limit : Nat}

/-- One more unit of the bound changes no finished run. -/
theorem settles_succ (g : Grammar) (I : Interpretation α) (S : Tape) (limit n : Nat) :
    (∀ depth threshold i, (read g I S limit n depth threshold i).Settles
        (read g I S limit (n + 1) depth threshold i)) ∧
      ∀ depth threshold left i, (extend g I S limit n depth threshold left i).Settles
        (extend g I S limit (n + 1) depth threshold left i) := by
  induction n with
  | zero => exact ⟨fun _ _ _ => Or.inl rfl, fun _ _ _ _ => Or.inl rfl⟩
  | succ n ih =>
      obtain ⟨ihr, ihe⟩ := ih
      constructor
      · intro depth threshold i
        rcases Nat.lt_or_ge depth limit with h | h
        · cases hr : g.prefixRule? (S i).kind with
          | none => exact Or.inr (by rw [read_of_noPrefix h hr, read_of_noPrefix h hr])
          | some rule =>
              rw [read_of_prefixRule h hr, read_of_prefixRule h hr]
              refine Landing.Settles.andThen ?_ (ihe (depth + 1) threshold)
              cases rule with
              | atom => exact .refl _
              | group => exact (ihr _ _ _).andThen (fun _ _ => .refl _)
              | unary m => exact (ihr _ _ _).andThen (fun _ _ => .refl _)
        · exact Or.inr (by rw [read_of_tooDeep h, read_of_tooDeep h])
      · intro depth threshold left i
        rcases Nat.lt_or_ge threshold (g.precedenceOf (S i).kind) with h | h
        · obtain ⟨rule, hr, hlt⟩ := Grammar.exists_infixRule_of_lt h
          rw [extend_of_lt hr hlt, extend_of_lt hr hlt]
          refine Landing.Settles.andThen ?_ (ihe depth threshold)
          cases rule with
          | binary prec assoc => exact (ihr _ _ _).andThen (fun _ _ => .refl _)
          | postfixed prec => exact .refl _
        · exact Or.inr (by rw [extend_of_le h, extend_of_le h])

theorem read_stable {n m depth threshold i : Nat} (hnm : n ≤ m)
    (h : read g I S limit n depth threshold i ≠ .unfinished) :
    read g I S limit m depth threshold i = read g I S limit n depth threshold i := by
  induction hnm with
  | refl => rfl
  | step _ ih =>
      rcases (settles_succ g I S limit _).1 depth threshold i with hu | he
      · rw [ih] at hu
        exact absurd hu h
      · rw [← he, ih]

/-- What reading an expression from place `i` yields, and the place behind it.  The bound of
`Tape.read` has no part in this: any bound that is large enough will do. -/
def Reads (g : Grammar) (I : Interpretation α) (S : Tape) (limit threshold i : Nat)
    (r : Except ParseError α) (j : Nat) : Prop :=
  ∃ n, read g I S limit n 0 threshold i =
    match r with
    | .ok a => .value a j
    | .error e => .failure e j

/-- There is at most one answer. -/
theorem reads_unique {threshold i j j' : Nat} {r r' : Except ParseError α}
    (h : Reads g I S limit threshold i r j) (h' : Reads g I S limit threshold i r' j') :
    r = r' ∧ j = j' := by
  obtain ⟨n, hn⟩ := h
  obtain ⟨m, hm⟩ := h'
  have hle := read_stable (Nat.le_max_left n m)
    (show read g I S limit n 0 threshold i ≠ .unfinished by rw [hn]; cases r <;> simp)
  have hle' := read_stable (Nat.le_max_right n m)
    (show read g I S limit m 0 threshold i ≠ .unfinished by rw [hm]; cases r' <;> simp)
  rw [hle', hm, hn] at hle
  cases r <;> cases r' <;> cases hle <;> exact ⟨rfl, rfl⟩

end Tape

/-! ### Reading ends -/

/-- The run has ended, and behind a value the place is `i` or a later one. -/
def Landing.EndsFrom {α : Type} (i : Nat) (l : Landing α) : Prop :=
  l ≠ .unfinished ∧ ∀ a j, l = .value a j → i ≤ j

namespace Landing.EndsFrom

variable {α β : Type} {i : Nat}

theorem value {a : α} {j : Nat} (h : i ≤ j) : EndsFrom i (Landing.value a j) := by
  refine ⟨by simp, ?_⟩
  intro b k hk
  cases hk
  exact h

theorem failure (e : ParseError) (j : Nat) : EndsFrom i (Landing.failure e j : Landing α) :=
  ⟨by simp, by intro a k hk; cases hk⟩

theorem ofExcept (r : Except ParseError α) {j : Nat} (h : i ≤ j) :
    EndsFrom i (Landing.ofExcept r j) := by
  cases r with
  | ok a => exact value h
  | error e => exact failure e j

theorem andThen {l : Landing α} {next : α → Nat → Landing β} (h : EndsFrom i l)
    (hn : ∀ a j, i ≤ j → EndsFrom i (next a j)) : EndsFrom i (l.andThen next) := by
  cases l with
  | value a j => exact hn a j (h.2 a j rfl)
  | failure e j => exact failure e j
  | unfinished => exact absurd rfl h.1

theorem mono {l : Landing α} {i' : Nat} (h : EndsFrom i l) (hi : i' ≤ i) : EndsFrom i' l :=
  ⟨h.1, fun a j hj => Nat.le_trans hi (h.2 a j hj)⟩

end Landing.EndsFrom

open Landing (EndsFrom)

section Rules

variable {α : Type} {I : Interpretation α} {S : Tape} {operand : Nat → Nat → Landing α} {i : Nat}

theorem PrefixRule.read_endsFrom (rule : PrefixRule)
    (h : ∀ m j, i + 1 ≤ j → EndsFrom j (operand m j)) :
    EndsFrom (i + 1) (rule.read I S operand i) := by
  cases rule with
  | atom => exact EndsFrom.ofExcept _ (Nat.le_refl _)
  | group =>
      refine (h 0 (i + 1) (Nat.le_refl _)).andThen ?_
      intro inner j hj
      split
      · exact EndsFrom.value (Nat.le_succ_of_le hj)
      · exact EndsFrom.failure _ j
  | unary m =>
      exact (h m (i + 1) (Nat.le_refl _)).andThen (fun _ _ hj => EndsFrom.ofExcept _ hj)

theorem InfixRule.read_endsFrom (rule : InfixRule) (left : α)
    (h : ∀ m j, i + 1 ≤ j → EndsFrom j (operand m j)) :
    EndsFrom (i + 1) (rule.read I S operand left i) := by
  cases rule with
  | binary prec assoc =>
      exact (h _ (i + 1) (Nat.le_refl _)).andThen (fun _ _ hj => EndsFrom.ofExcept _ hj)
  | postfixed prec => exact EndsFrom.ofExcept _ (Nat.le_refl _)

end Rules

namespace Tape

variable {α : Type} {g : Grammar} {S : Tape}

/-- If no token from place `last` on is an operator behind an expression, a bound above the number
of tokens before that place and the number of free levels is large enough. -/
theorem endsFrom_of_bound (I : Interpretation α) (limit : Nat) {last : Nat}
    (hlast : ∀ k, last ≤ k → g.infixRule? (S k).kind = none) (n : Nat) :
    (∀ depth threshold i, (last - i) + (limit - depth) < n →
        EndsFrom (i + 1) (read g I S limit n depth threshold i)) ∧
      ∀ depth threshold left i, (last - i) + (limit - depth) < n →
        EndsFrom i (extend g I S limit n depth threshold left i) := by
  induction n with
  | zero => exact ⟨fun _ _ _ h => absurd h (by omega), fun _ _ _ _ h => absurd h (by omega)⟩
  | succ n ih =>
      obtain ⟨ihr, ihe⟩ := ih
      constructor
      · intro depth threshold i hn
        rcases Nat.lt_or_ge depth limit with h | h
        · cases hr : g.prefixRule? (S i).kind with
          | none =>
              rw [read_of_noPrefix h hr]
              exact EndsFrom.failure _ _
          | some rule =>
              rw [read_of_prefixRule h hr]
              -- a level is taken, so nothing has to be known about the token
              refine (rule.read_endsFrom ?_).andThen ?_
              · intro m j hj
                exact (ihr (depth + 1) m j (by omega)).mono (Nat.le_succ j)
              · intro a j hj
                exact (ihe (depth + 1) threshold a j (by omega)).mono hj
        · rw [read_of_tooDeep h]
          exact EndsFrom.failure _ _
      · intro depth threshold left i hn
        rcases Nat.lt_or_ge threshold (g.precedenceOf (S i).kind) with h | h
        · obtain ⟨rule, hr, hlt⟩ := Grammar.exists_infixRule_of_lt h
          have hi : i < last := by
            rcases Nat.lt_or_ge i last with hi | hi
            · exact hi
            · rw [hlast i hi] at hr
              exact absurd hr (by simp)
          rw [extend_of_lt hr hlt]
          refine ((rule.read_endsFrom left ?_).andThen ?_).mono (Nat.le_succ i)
          · intro m j hj
            exact (ihr depth m j (by omega)).mono (Nat.le_succ j)
          · intro a j hj
            exact (ihe depth threshold a j (by omega)).mono hj
        · rw [extend_of_le h]
          exact EndsFrom.value (Nat.le_refl i)

theorem read_endsFrom (I : Interpretation α) {limit last n depth threshold i : Nat}
    (hlast : ∀ k, last ≤ k → g.infixRule? (S k).kind = none)
    (hn : (last - i) + (limit - depth) < n) :
    EndsFrom (i + 1) (read g I S limit n depth threshold i) :=
  (endsFrom_of_bound I limit hlast n).1 depth threshold i hn

/-! ### Stretches of a tape -/

/-- Between the places `i` and `j` the tape holds the tokens `w`. -/
def Spells (S : Tape) : Nat → List Token → Nat → Prop
  | i, [], j => i = j
  | i, t :: w, j => S i = t ∧ Spells S (i + 1) w j

theorem Spells.eq_add {i j : Nat} {w : List Token} (h : Spells S i w j) : j = i + w.length := by
  induction w generalizing i with
  | nil => exact h.symm
  | cons t w ih =>
      rw [ih h.2, List.length_cons]
      omega

/-- The tokens between two places are determined by the places. -/
theorem Spells.unique {i j : Nat} {w w' : List Token} (h : Spells S i w j)
    (h' : Spells S i w' j) : w = w' := by
  induction w generalizing i w' with
  | nil =>
      have hlen := h'.eq_add
      rw [← show i = j from h] at hlen
      exact (List.length_eq_zero_iff.1 (by omega)).symm
  | cons t w ih =>
      have hlen := h.eq_add
      cases w' with
      | nil =>
          rw [List.length_cons, ← show i = j from h'] at hlen
          omega
      | cons t' w' => rw [← h.1, ← h'.1, ih h.2 h'.2]

/-- Every token of a stretch stands on the tape. -/
theorem Spells.exists_of_mem {i j : Nat} {w : List Token} (h : Spells S i w j) {t : Token}
    (ht : t ∈ w) : ∃ n, S n = t := by
  induction w generalizing i with
  | nil => exact absurd ht (List.not_mem_nil)
  | cons u w ih =>
      rcases List.mem_cons.1 ht with rfl | ht
      · exact ⟨i, h.1⟩
      · exact ih h.2 ht

/-- Every place of a stretch holds one of its tokens. -/
theorem Spells.mem {i j n : Nat} {w : List Token} (h : Spells S i w j) (hi : i ≤ n) (hj : n < j) :
    S n ∈ w := by
  induction w generalizing i with
  | nil =>
      obtain rfl : i = j := h
      exact absurd hj (Nat.not_lt_of_le hi)
  | cons t w ih =>
      rcases Nat.eq_or_lt_of_le hi with rfl | hi
      · rw [h.1]
        exact List.mem_cons_self ..
      · exact List.mem_cons_of_mem _ (ih h.2 hi)

/-- A stretch can be told from the places that it covers. -/
theorem Spells.congr {T : Tape} {i j : Nat} {w : List Token} (h : Spells S i w j)
    (hT : ∀ n, n < j → T n = S n) : Spells T i w j := by
  induction w generalizing i with
  | nil => exact h
  | cons t w ih =>
      have hlen := h.2.eq_add
      exact ⟨(hT i (by omega)).trans h.1, ih h.2⟩

/-- A tape that starts later holds the same tokens at earlier places. -/
theorem spells_add {S' : Tape} {c : Nat} (h : ∀ n, S (c + n) = S' n) {i j : Nat}
    {w : List Token} : Spells S (c + i) w (c + j) ↔ Spells S' i w j := by
  induction w generalizing i with
  | nil => exact Nat.add_left_cancel_iff
  | cons t w ih =>
      rw [Spells, Spells, h, Nat.add_assoc, ih]

theorem spells_append {i k : Nat} {u v : List Token} :
    Spells S i (u ++ v) k ↔ ∃ j, Spells S i u j ∧ Spells S j v k := by
  induction u generalizing i with
  | nil =>
      constructor
      · intro h
        exact ⟨i, rfl, h⟩
      · rintro ⟨j, rfl, h⟩
        exact h
  | cons t u ih =>
      constructor
      · rintro ⟨ht, h⟩
        obtain ⟨j, hu, hv⟩ := ih.1 h
        exact ⟨j, ⟨ht, hu⟩, hv⟩
      · rintro ⟨j, ⟨ht, hu⟩, hv⟩
        exact ⟨ht, ih.2 ⟨j, hu, hv⟩⟩

/-- The first tokens of a stretch. -/
theorem Spells.take {i j k : Nat} {w : List Token} (h : Spells S i w j) (hk : k ≤ w.length) :
    Spells S i (w.take k) (i + k) := by
  rw [← List.take_append_drop k w] at h
  obtain ⟨m, hm, -⟩ := spells_append.1 h
  have hlen := hm.eq_add
  rw [List.length_take, Nat.min_eq_left hk] at hlen
  rwa [← hlen]

/-! ### Ends of the input -/

/-- From the place `last` on the tape holds nothing but ends of the input without text. -/
def EndsAt (S : Tape) (last : Nat) : Prop :=
  ∀ k, last ≤ k → ∃ span, S k = Token.endOfInput span

theorem EndsAt.kind_eq {last k : Nat} (h : S.EndsAt last) (hk : last ≤ k) :
    (S k).kind = .endOfInput := by
  obtain ⟨span, hspan⟩ := h k hk
  rw [hspan, Token.kind_endOfInput]

/-- A token of another kind stands before the ends. -/
theorem EndsAt.lt_of_kind {last k : Nat} (h : S.EndsAt last) (hk : (S k).kind ≠ .endOfInput) :
    k < last :=
  Nat.lt_of_not_le fun hge => hk (h.kind_eq hge)

end Tape

end Reckon

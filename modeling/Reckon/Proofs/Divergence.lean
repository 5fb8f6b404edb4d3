/-
**Which tables of rules go on for ever.**

Behind the last token of a source there is always one more end of the input, and nothing keeps an
end from being given a rule.  The loop goes on for as long as it meets operators that bind tightly
enough, so it goes on for ever if an end is such an operator and if applying it always succeeds.
That takes little: an operator behind its operand succeeds as soon as there is an operand, and one
between two operands succeeds if the next end is an operand by itself — unless the operator groups
to the right, for then its operand takes the end behind that as an operator again, and so on, until
the depth limit puts an end to it.

These are the only ways.  In every other table no operator among the ends finds its operand, so the
loop takes one of them at most, and what is left to count are the tokens and the levels.

Main definitions:

* `Interpretation.Total` — operations that never fail;
* `Grammar.Loops` — the tables in which an end of the input is an operator and finds its operand;
* `Parser.Terminates` — some bound is large enough for a run.

Main results:

* `Tape.ended_of_bound` — in every other table every run comes to an end;
* `Tape.extend_eq_unfinished` — in these tables the loop behind the last token does not;
* `Parser.lists_terminate_iff_not_loops` — **the tables in which all runs end**;
* `Parser.accepted_rules_loop` — two rules for the end of the input that are accepted and loop.
-/

import Reckon.Proofs.Bounds
import Reckon.Proofs.Wiring

set_option autoImplicit false
set_option relaxedAutoImplicit false

namespace Reckon

variable {α β : Type}

/-- No operation fails. -/
structure Interpretation.Total (I : Interpretation α) : Prop where
  atom : ∀ t, ∃ a, I.atom t = .ok a
  unary : ∀ t a, ∃ b, I.unary t a = .ok b
  binary : ∀ a t b, ∃ c, I.binary a t b = .ok c
  postfixed : ∀ a t, ∃ b, I.postfixed a t = .ok b

/-- Building trees never fails. -/
theorem Expr.interpretation_total : Expr.interpretation.Total :=
  ⟨fun _ => ⟨_, rfl⟩, fun _ _ => ⟨_, rfl⟩, fun _ _ _ => ⟨_, rfl⟩, fun _ _ => ⟨_, rfl⟩⟩

/-- An end of the input is an operator, and it either groups to the left and finds its right operand
in the next end, or it stands behind its operand and some operand can be had. -/
inductive Grammar.Loops (g : Grammar) : Prop
  | binary {prec : Nat} : g.prefixRule? .endOfInput = some .atom →
      g.infixRule? .endOfInput = some (.binary prec .left) → 0 < prec → Loops g
  | postfixed {prec : Nat} {k : Kind} : g.prefixRule? k = some .atom →
      g.infixRule? .endOfInput = some (.postfixed prec) → 0 < prec → Loops g

/-- Some bound is large enough for reading an expression: the engine would come to an end without
one. -/
def Parser.Terminates (g : Grammar) (I : Interpretation α) (θ : Nat) (p : Parser) : Prop :=
  ∃ n, Parser.parse g I n θ p ≠ .unfinished

/-! ### Where every run ends -/

namespace Landing

theorem andThen_ne_unfinished {l : Landing α} {next : α → Nat → Landing β}
    (h : l ≠ .unfinished) (hn : ∀ a j, l = .value a j → next a j ≠ .unfinished) :
    l.andThen next ≠ .unfinished := by
  cases l with
  | value a j => exact hn a j rfl
  | failure e j => simp
  | unfinished => exact absurd rfl h

theorem ofExcept_ne_unfinished (r : Except ParseError α) (j : Nat) :
    ofExcept r j ≠ .unfinished := by
  cases r <;> simp

end Landing

section Rules

variable {I : Interpretation α} {S : Tape} {operand : Nat → Nat → Landing α} {i : Nat}

theorem PrefixRule.read_ne_unfinished (rule : PrefixRule)
    (h : ∀ m, operand m (i + 1) ≠ .unfinished) : rule.read I S operand i ≠ .unfinished := by
  cases rule with
  | atom => exact Landing.ofExcept_ne_unfinished _ _
  | group =>
      refine Landing.andThen_ne_unfinished (h 0) ?_
      intro inner j _
      split <;> simp
  | unary m =>
      exact Landing.andThen_ne_unfinished (h m) fun _ _ _ => Landing.ofExcept_ne_unfinished _ _

theorem InfixRule.read_ne_unfinished (rule : InfixRule)
    (h : ∀ m, operand m (i + 1) ≠ .unfinished) (left : α) :
    rule.read I S operand left i ≠ .unfinished := by
  cases rule with
  | binary prec assoc =>
      exact Landing.andThen_ne_unfinished (h _) fun _ _ _ => Landing.ofExcept_ne_unfinished _ _
  | postfixed prec => exact Landing.ofExcept_ne_unfinished _ _

end Rules

/-- A tree that fits has a leaf. -/
theorem Expr.Fits.exists_atom {g : Grammar} {θ : Nat} {e : Expr} {next : Token}
    (h : e.Fits g θ next) : ∃ k, g.prefixRule? k = some .atom := by
  induction h with
  | atom hr => exact ⟨_, hr⟩
  | group _ _ _ _ ih => exact ih
  | unary _ _ _ ih => exact ih
  | binary _ _ _ _ _ ih _ => exact ih
  | postfixed _ _ _ ih => exact ih

namespace Tape

variable {g : Grammar} {I : Interpretation α} {S : Tape} {limit last : Nat}

/-- In a table that does not loop no operator among the ends finds its operand. -/
theorem infixRule_ne_value (hg : ¬ g.Loops) (hends : S.EndsAt last) {k : Kind}
    (hatom : g.prefixRule? k = some .atom) {rule : InfixRule}
    (hr : g.infixRule? .endOfInput = some rule) {θ : Nat} (hlt : θ < rule.precedence)
    {n depth i j : Nat} (hi : last ≤ i) {left a : α} :
    rule.read I S (read g I S limit n depth) left i ≠ .value a j := by
  intro ha
  have hpos : 0 < rule.precedence := Nat.lt_of_le_of_lt (Nat.zero_le θ) hlt
  cases rule with
  | binary prec assoc =>
      rw [InfixRule.precedence_binary] at hpos
      obtain ⟨b, m, hb, -⟩ := Landing.andThen_eq_value ha
      obtain ⟨hend, hle, -⟩ := atom_of_read hends (Nat.le_succ_of_le hi) hb
      rw [Grammar.precedenceOf_some hr, InfixRule.precedence_binary] at hle
      cases assoc with
      | left => exact hg (.binary hend hr hpos)
      | right =>
          -- the operand of such an operator is left only at a token that binds less tightly
          rw [Assoc.rightThreshold_right] at hle
          omega
  | postfixed prec => exact hg (.postfixed hatom hr hpos)

/-- Every call takes a token or a level before it calls again.  A level counts for two, as an end
that is an operand by itself is taken before the loop looks at the next one; and the loop, which is
reached only behind an operand, goes on from an end at most once. -/
theorem ended_of_bound (hg : ¬ g.Loops) (I : Interpretation α) (hends : S.EndsAt last)
    (limit n : Nat) :
    (∀ depth θ i, (last - i) + 2 * (limit - depth) < n →
        read g I S limit n depth θ i ≠ .unfinished) ∧
      ∀ depth θ left i, (∃ k, g.prefixRule? k = some .atom) →
        (last - i) + 2 * (limit - depth) + 1 < n →
          extend g I S limit n depth θ left i ≠ .unfinished := by
  induction n with
  | zero => exact ⟨fun _ _ _ h => absurd h (by omega), fun _ _ _ _ _ h => absurd h (by omega)⟩
  | succ n ih =>
      obtain ⟨ihr, ihe⟩ := ih
      constructor
      · intro depth θ i hn
        rcases Nat.lt_or_ge depth limit with h | h
        · cases hr : g.prefixRule? (S i).kind with
          | none => simp [read_of_noPrefix h hr]
          | some rule =>
              rw [read_of_prefixRule h hr]
              refine Landing.andThen_ne_unfinished (rule.read_ne_unfinished ?_) ?_
              · intro m
                exact ihr (depth + 1) m (i + 1) (by omega)
              · intro a j ha
                have hj := (rule.read_from (S := S) I.forward_reached
                  (read_from I.forward_reached g S limit n (depth + 1)) i).value a j ha
                obtain ⟨e, hfit, -⟩ := holds_of_prefixRule (θ := θ)
                  ((sound_of_bound g I S limit n).1 (depth + 1)) hr ha
                exact ihe (depth + 1) θ a j hfit.exists_atom (by omega)
        · simp [read_of_tooDeep h]
      · rintro depth θ left i ⟨k, hatom⟩ hn
        rcases Nat.lt_or_ge θ (g.precedenceOf (S i).kind) with h | h
        · obtain ⟨rule, hr, hlt⟩ := Grammar.exists_infixRule_of_lt h
          rw [extend_of_lt hr hlt]
          refine Landing.andThen_ne_unfinished (rule.read_ne_unfinished ?_ left) ?_
          · intro m
            exact ihr depth m (i + 1) (by omega)
          · intro a j ha
            have hj := (rule.read_from (S := S) I.forward_reached
              (read_from I.forward_reached g S limit n depth) left i).value a j ha
            rcases Nat.lt_or_ge i last with hi | hi
            · exact ihe depth θ a j ⟨k, hatom⟩ (by omega)
            · rw [hends.kind_eq hi] at hr
              exact absurd ha (infixRule_ne_value hg hends hatom hr hlt hi)
        · simp [extend_of_le h]

theorem read_ne_unfinished (hg : ¬ g.Loops) (hends : S.EndsAt last) {n depth θ i : Nat}
    (hn : (last - i) + 2 * (limit - depth) < n) : read g I S limit n depth θ i ≠ .unfinished :=
  (ended_of_bound hg I hends limit n).1 depth θ i hn

/-! ### Where the loop goes on for ever -/

/-- If applying the operator that an end of the input is never fails, the loop behind the last token
does not end. -/
theorem extend_eq_unfinished {rule : InfixRule} {depth θ : Nat} (hends : S.EndsAt last)
    (hr : g.infixRule? .endOfInput = some rule) (hlt : θ < rule.precedence)
    (h : ∀ n left i, last ≤ i →
      Landing.Free (fun _ => True) (rule.read I S (read g I S limit n depth) left i))
    (n : Nat) (left : α) {i : Nat} (hi : last ≤ i) :
    extend g I S limit n depth θ left i = .unfinished := by
  induction n generalizing left i with
  | zero => rfl
  | succ n ih =>
      have hri := hr
      rw [← hends.kind_eq hi] at hri
      rw [extend_of_lt hri hlt]
      cases hrun : rule.read I S (read g I S limit n depth) left i with
      | value a j =>
          have hj := (rule.read_from (S := S) I.forward_reached
            (read_from I.forward_reached g S limit n depth) left i).value a j hrun
          exact ih a (Nat.le_trans hi (Nat.le_of_succ_le hj))
      | failure e j => exact absurd trivial ((h n left i hi).failure e j hrun)
      | unfinished => rfl

/-- An operand by itself in front of a loop that does not end. -/
theorem read_eq_unfinished (hI : I.Total) {depth θ i : Nat} (hd : depth < limit)
    (hatom : g.prefixRule? (S i).kind = some .atom)
    (h : ∀ n left, extend g I S limit n (depth + 1) θ left (i + 1) = .unfinished) (n : Nat) :
    read g I S limit n depth θ i = .unfinished := by
  cases n with
  | zero => rfl
  | succ n =>
      obtain ⟨a, ha⟩ := hI.atom (S i)
      rw [read_of_prefixRule hd hatom, PrefixRule.read, ha]
      exact h n a

/-- An operator among the ends that groups to the left and finds its operand in the next end. -/
theorem read_eq_unfinished_of_binary (hI : I.Total) (hends : S.EndsAt last)
    (hatom : g.prefixRule? .endOfInput = some .atom) {prec depth θ i : Nat}
    (hr : g.infixRule? .endOfInput = some (.binary prec .left)) (hlt : θ < prec)
    (hd : depth + 1 < limit) (hi : last ≤ i) (n : Nat) :
    read g I S limit n depth θ i = .unfinished := by
  have hfirst : g.prefixRule? (S i).kind = some .atom := by rwa [hends.kind_eq hi]
  have hle : g.precedenceOf .endOfInput ≤ Assoc.rightThreshold .left prec :=
    Nat.le_of_eq (Grammar.precedenceOf_some hr)
  refine read_eq_unfinished hI (Nat.lt_of_succ_lt hd) hfirst ?_ n
  intro n left
  refine extend_eq_unfinished hends hr hlt ?_ n left (Nat.le_succ_of_le hi)
  intro n left j hj
  refine InfixRule.read_free ?_ ?_ left
  · intro a b e he
    obtain ⟨c, hc⟩ := hI.binary a (S j) b
    rw [hc] at he
    cases he
  · rintro prec' assoc' ⟨⟩
    refine read_free_of_atom hends (Nat.le_succ_of_le hj) ?_ hatom hle hd n
    intro e he
    obtain ⟨a, ha⟩ := hI.atom (S (j + 1))
    rw [ha] at he
    cases he

/-- An operator among the ends that stands behind its operand, which is the token in front of
them. -/
theorem read_eq_unfinished_of_postfixed (hI : I.Total) {i : Nat} (hends : S.EndsAt (i + 1))
    (hatom : g.prefixRule? (S i).kind = some .atom) {prec depth θ : Nat}
    (hr : g.infixRule? .endOfInput = some (.postfixed prec)) (hlt : θ < prec)
    (hd : depth < limit) (n : Nat) : read g I S limit n depth θ i = .unfinished := by
  refine read_eq_unfinished hI hd hatom ?_ n
  intro n left
  refine extend_eq_unfinished hends hr hlt ?_ n left (Nat.le_refl _)
  intro n left j _
  refine InfixRule.read_free ?_ (by rintro prec' assoc' ⟨⟩) left
  intro a e he
  obtain ⟨b, hb⟩ := hI.postfixed a (S j)
  rw [hb] at he
  cases he

end Tape

/-! ### Parsers -/

namespace Parser

variable {g : Grammar} {I : Interpretation α} {θ : Nat}

/-- In a table that does not loop every run ends, and the bound that is computed from the input is
large enough. -/
theorem parseExpression_ne_unfinished_of_not_loops (hg : ¬ g.Loops) (I : Interpretation α)
    (θ : Nat) (p : Parser) : p.parseExpression g I θ ≠ .unfinished := by
  have hbound : p.bound = p.pending.length + p.source.size + 2 * p.maxDepth + 4 := rfl
  have hread : Tape.read g I p.tape p.maxDepth p.bound p.depth θ p.stats.consumed ≠ .unfinished :=
    Tape.read_ne_unfinished hg p.follows_tape.endsAt (by omega)
  intro hu
  have hland := parseExpression_landsOn g I θ p.follows_tape
  rw [hu] at hland
  exact hread hland.eq_unfinished

/-- A run does not end if the reader does not. -/
theorem not_terminates {s : Source} {limit : Nat}
    (h : ∀ n, Tape.read g I s.endless limit n 0 θ 0 = .unfinished) :
    ¬ Terminates g I θ (ofSource s limit) := by
  rintro ⟨n, hn⟩
  have hland := parse_landsOn g I n θ (follows_ofSource s limit)
  rw [h n] at hland
  cases ho : parse g I n θ (ofSource s limit) with
  | value a q => rw [ho] at hland; cases hland
  | failure e q => rw [ho] at hland; cases hland
  | unfinished => exact hn ho

/-- In a table that loops, a list of one token at most is enough for a run without end. -/
theorem exists_not_terminates (hI : I.Total) (hg : g.Loops) :
    ∃ ts : List Token, ts.length ≤ 1 ∧ ¬ Terminates g I 0 (ofSource (.list ts) 2) := by
  cases hg with
  | binary hatom hr hpos =>
      refine ⟨[], Nat.zero_le 1, not_terminates ?_⟩
      exact Tape.read_eq_unfinished_of_binary hI (Source.list []).endsAt_endless hatom hr hpos
        (by decide) (Nat.le_refl 0)
  | @postfixed prec k hatom hr hpos =>
      refine ⟨[⟨k, "", none⟩], Nat.le_refl 1, not_terminates ?_⟩
      exact Tape.read_eq_unfinished_of_postfixed hI (Source.list [⟨k, "", none⟩]).endsAt_endless
        hatom hr hpos (by decide)

/-- **The tables in which all runs end.**  Whatever rules the kinds have been given, the end of the
input included: reading an expression ends for every list of tokens, every threshold and every depth
limit, unless an end of the input is an operator and finds its operand — as one that groups to the
left and has an end as its right operand, or as one that stands behind its operand. -/
theorem lists_terminate_iff_not_loops (hI : I.Total) :
    (∀ ts limit θ, Terminates g I θ (ofSource (.list ts) limit)) ↔ ¬ g.Loops := by
  constructor
  · intro h hg
    obtain ⟨ts, -, hts⟩ := exists_not_terminates hI hg
    exact hts (h ts 2 0)
  · intro hg ts limit θ
    exact ⟨_, parseExpression_ne_unfinished_of_not_loops hg I θ _⟩

/-- The rules of the calculator do not loop, and building trees never fails. -/
theorem lists_terminate_iff_not_loops_calculator :
    Expr.interpretation.Total ∧ ¬ Calculator.grammar.Loops ∧
      ∀ ts limit θ, Terminates Calculator.grammar Expr.interpretation θ
        (ofSource (.list ts) limit) := by
  have hg : ¬ Calculator.grammar.Loops := by
    rintro (⟨hatom, -, -⟩ | ⟨-, hr, -⟩)
    · cases hatom
    · cases hr
  exact ⟨Expr.interpretation_total, hg,
    (lists_terminate_iff_not_loops Expr.interpretation_total).2 hg⟩

/-- Two rules by which an end of the input is an operand by itself as well as an operator between
two operands. -/
def endRules : List Registration :=
  [.prefixed .endOfInput .atom, .infixed .endOfInput (.binary Level.sum.precedence .left)]

/-- Both rules are accepted, the end of the input then binds like a sum, and with them there is no
end to reading an expression from no tokens at all. -/
theorem accepted_rules_loop :
    (Grammar.empty.registerAll endRules).1 = [none, none] ∧
      (Grammar.empty.registerAll endRules).2.precedenceOf .endOfInput = Level.sum.precedence ∧
      ¬ Terminates (Grammar.empty.registerAll endRules).2 Expr.interpretation 0
        (ofSource (.list []) defaultMaxDepth) := by
  refine ⟨rfl, rfl, not_terminates ?_⟩
  exact Tape.read_eq_unfinished_of_binary Expr.interpretation_total
    (Source.list []).endsAt_endless rfl rfl (by decide) (by decide) (Nat.le_refl 0)

end Parser

end Reckon

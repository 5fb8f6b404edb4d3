/-
**Enough of the bound.**

The engine counts down a bound so that it ends by itself, and the bound is computed from the input.
It has to be large enough for every run that would end without it.  Such a run ends early: behind
the last token of a source it can take two ends of the input for every level that is left, and no
more.  If an end of the input is an operator that finds its operand among the ends, its loop goes on
for ever, as whatever succeeds on one end succeeds on the next.

The last is said of the operations as well, and so it is asked of them that whether they fail can be
told from their token.  For errors that no operation reports, nothing has to be asked.

Main definitions:

* `Interpretation.Alike`, `Interpretation.Uniform` — whether an operation fails can be told from
  its token, for some errors and for all of them;
* `Landing.NotBeyond` — a run that ends with one of the errors ends at some place or before it;
* `Landing.Free` — a run does not end with one of the errors.

Main results:

* `Tape.read_notBeyond` — **where an error is met**;
* `Parser.parseExpression_eq_of_ended` — **the bound is large enough** for every run that ends,
  whatever the table of rules;
* `Parser.parseExpression_eq_of_tooDeep` — the same for a run that stops at the depth limit.
-/

import Reckon.Proofs.Places

set_option autoImplicit false
set_option relaxedAutoImplicit false

namespace Reckon

open Landing (Meets)

/-! ### Errors of one kind -/

/-- The error is that of the depth limit. -/
def ParseError.IsOfDepth : ParseError → Prop
  | tooDeep _ _ => True
  | _ => False

theorem ParseError.IsOfDepth.isOfReader {e : ParseError} (h : e.IsOfDepth) : e.IsOfReader := by
  cases e with
  | tooDeep _ _ => trivial
  | _ => exact absurd h id

/-- With tokens of the same kind and text an operation does not both succeed and fail with an error
of `E`. -/
structure Interpretation.Alike {α : Type} (I : Interpretation α) (E : ParseError → Prop) :
    Prop where
  atom : ∀ {t u : Token} {a : α} {e : ParseError}, t.kind = u.kind → t.text = u.text →
    I.atom t = .ok a → I.atom u = .error e → ¬ E e
  unary : ∀ {t u : Token} {a b c : α} {e : ParseError}, t.kind = u.kind → t.text = u.text →
    I.unary t a = .ok b → I.unary u c = .error e → ¬ E e
  binary : ∀ {t u : Token} {a b c a' b' : α} {e : ParseError}, t.kind = u.kind → t.text = u.text →
    I.binary a t b = .ok c → I.binary a' u b' = .error e → ¬ E e
  postfixed : ∀ {t u : Token} {a b c : α} {e : ParseError}, t.kind = u.kind → t.text = u.text →
    I.postfixed a t = .ok b → I.postfixed c u = .error e → ¬ E e

/-- Whether an operation fails can be told from the kind and the text of its token. -/
def Interpretation.Uniform {α : Type} (I : Interpretation α) : Prop := I.Alike fun _ => True

section Interpretations

variable {α : Type}

/-- Operations that report no error of the reader report none of the depth limit. -/
theorem Interpretation.Sincere.alike {I : Interpretation α} (hI : I.Sincere) :
    I.Alike ParseError.IsOfDepth where
  atom _ _ _ he hdeep := hI _ (.atom he) hdeep.isOfReader
  unary _ _ _ he hdeep := hI _ (.unary he) hdeep.isOfReader
  binary _ _ _ he hdeep := hI _ (.binary he) hdeep.isOfReader
  postfixed _ _ _ he hdeep := hI _ (.postfixed he) hdeep.isOfReader

/-- Arithmetic fails for the text of a number or the kind of an operator. -/
theorem Arithmetic.interpretation_uniform (A : Arithmetic α) : A.interpretation.Uniform where
  atom {t u a e} _ htext ha he _ := by
    rw [show A.interpretation.atom t = A.number t.text from rfl, htext] at ha
    rw [show A.interpretation.atom u = A.number u.text from rfl, ha] at he
    cases he
  unary {t u a b c e} hkind _ hb he _ := by
    rw [show A.interpretation.unary t a = A.unary t a from rfl, Arithmetic.unary, hkind] at hb
    rw [show A.interpretation.unary u c = A.unary u c from rfl, Arithmetic.unary] at he
    cases hk : u.kind <;> simp [hk] at hb he
  binary {t u a b c a' b' e} hkind _ hc he _ := by
    rw [show A.interpretation.binary a t b = A.binary a t b from rfl, Arithmetic.binary,
      hkind] at hc
    rw [show A.interpretation.binary a' u b' = A.binary a' u b' from rfl, Arithmetic.binary] at he
    cases hk : u.kind <;> simp [hk] at hc he
  postfixed _ _ hb _ _ := by cases hb

/-- Building trees never fails. -/
theorem Expr.interpretation_uniform : Expr.interpretation.Uniform where
  atom _ _ _ he _ := by cases he
  unary _ _ _ he _ := by cases he
  binary _ _ _ he _ := by cases he
  postfixed _ _ _ he _ := by cases he

end Interpretations

/-! ### Where an error is met -/

namespace Landing

variable {α β : Type} {E : ParseError → Prop} {b : Nat}

/-- If the run ends with an error of `E`, then at the place `b` or before it. -/
def NotBeyond (E : ParseError → Prop) (b : Nat) : Landing α → Prop :=
  Meets (fun _ => True) (fun e k => E e → k ≤ b)

/-- The run does not end with an error of `E`. -/
def Free (E : ParseError → Prop) : Landing α → Prop :=
  Meets (fun _ => True) (fun e _ => ¬ E e)

theorem Free.ofExcept {r : Except ParseError α} (h : ∀ e, r = .error e → ¬ E e)
    (j : Nat) : Free E (.ofExcept r j) :=
  Meets.ofExcept h trivial

theorem Free.andThen {l : Landing α} {next : α → Nat → Landing β} (h : Free E l)
    (hn : ∀ a j, l = .value a j → Free E (next a j)) : Free E (l.andThen next) :=
  Meets.andThen h (fun _ _ hfree => hfree) (fun a j hl _ => hn a j hl)

theorem Free.notBeyond {l : Landing α} (h : Free E l) : NotBeyond E b l :=
  h.mono (fun _ _ => trivial) (fun _ _ hfree he => absurd he hfree)

theorem NotBeyond.ofExcept (r : Except ParseError α) {j : Nat} (h : j ≤ b) :
    NotBeyond E b (.ofExcept r j) :=
  Meets.ofExcept (fun _ _ _ => h) trivial

theorem NotBeyond.mono {l : Landing α} {b' : Nat} (h : NotBeyond E b l) (hb : b ≤ b') :
    NotBeyond E b' l :=
  Meets.mono h (fun _ _ => trivial) (fun _ _ hle he => Nat.le_trans (hle he) hb)

theorem NotBeyond.andThen {l : Landing α} {next : α → Nat → Landing β} (h : NotBeyond E b l)
    (hn : ∀ a j, l = .value a j → NotBeyond E b (next a j)) : NotBeyond E b (l.andThen next) :=
  Meets.andThen h (fun _ _ hle => hle) (fun a j hl _ => hn a j hl)

end Landing

open Landing (Free NotBeyond)

section Rules

variable {α : Type} {I : Interpretation α} {E : ParseError → Prop} {S : Tape}
  {operand : Nat → Nat → Landing α} {b i : Nat}

theorem PrefixRule.read_notBeyond (rule : PrefixRule)
    (h : ∀ m, NotBeyond E b (operand m (i + 1)))
    (hvalue : ∀ m a j, operand m (i + 1) = .value a j → j ≤ b) (hi : i + 1 ≤ b) :
    NotBeyond E b (rule.read I S operand i) := by
  cases rule with
  | atom => exact .ofExcept _ hi
  | group =>
      refine (h 0).andThen ?_
      intro inner j hinner
      exact close_meets (S i) inner (fun _ => trivial) (fun _ _ => hvalue 0 inner j hinner)
  | unary m => exact (h m).andThen (fun a j ha => .ofExcept _ (hvalue m a j ha))

theorem InfixRule.read_notBeyond (rule : InfixRule)
    (h : ∀ m, NotBeyond E b (operand m (i + 1)))
    (hvalue : ∀ m a j, operand m (i + 1) = .value a j → j ≤ b) (hi : i + 1 ≤ b) (left : α) :
    NotBeyond E b (rule.read I S operand left i) := by
  cases rule with
  | binary prec assoc => exact (h _).andThen (fun a j ha => .ofExcept _ (hvalue _ a j ha))
  | postfixed prec => exact .ofExcept _ hi

/-- The operation of the rule does not fail with an error of `E` on the token. -/
def InfixRule.Spares (I : Interpretation α) (E : ParseError → Prop) (rule : InfixRule)
    (t : Token) : Prop :=
  match rule with
  | .binary _ _ => ∀ a b e, I.binary a t b = .error e → ¬ E e
  | .postfixed _ => ∀ a e, I.postfixed a t = .error e → ¬ E e

/-- An operation that has succeeded does not fail with a token of the same kind and text. -/
theorem InfixRule.spares_of_value (hI : I.Alike E) {rule : InfixRule} {left a : α} {j : Nat}
    {t : Token} (hkind : (S i).kind = t.kind) (htext : (S i).text = t.text)
    (h : rule.read I S operand left i = .value a j) : rule.Spares I E t := by
  cases rule with
  | binary prec assoc =>
      obtain ⟨c, k, -, hop⟩ := Landing.andThen_eq_value h
      obtain ⟨hok, -⟩ := Landing.ofExcept_eq_value hop
      exact fun _ _ _ => hI.binary hkind htext hok
  | postfixed prec =>
      obtain ⟨hok, -⟩ := Landing.ofExcept_eq_value h
      exact fun _ _ => hI.postfixed hkind htext hok

/-- The rule of an operator whose operation and right operand do not fail with an error of `E`. -/
theorem InfixRule.read_free {rule : InfixRule} (hop : rule.Spares I E (S i))
    (h : ∀ prec assoc, rule = .binary prec assoc →
      Free E (operand (assoc.rightThreshold prec) (i + 1))) (left : α) :
    Free E (rule.read I S operand left i) := by
  cases rule with
  | binary prec assoc =>
      exact (h prec assoc rfl).andThen (fun a j _ => .ofExcept (hop left a) j)
  | postfixed prec => exact .ofExcept (hop left) (i + 1)

end Rules

namespace Tape

variable {α : Type} {g : Grammar} {I : Interpretation α} {E : ParseError → Prop} {S : Tape}
  {limit last : Nat}

/-- A tree that fits reaches at most one place beyond the last token and its own start. -/
theorem Holds.le_succ {θ i j : Nat} {a : α} (h : Holds g I S θ i a j) (hends : S.EndsAt last)
    (hle : g.precedenceOf (S j).kind ≤ θ) : j ≤ max last i + 1 := by
  obtain ⟨e, hfit, -, hw⟩ := h
  rcases Nat.lt_or_ge j last with hj | hj
  · omega
  · exact hfit.le_succ_of_ends (fun _ hk => hends.kind_eq hk) (hends.kind_eq hj) hle hw

/-- Two ends of the input have the same kind and text. -/
theorem EndsAt.alike (h : S.EndsAt last) {i j : Nat} (hi : last ≤ i) (hj : last ≤ j) :
    (S i).kind = (S j).kind ∧ (S i).text = (S j).text := by
  obtain ⟨span, hspan⟩ := h i hi
  obtain ⟨span', hspan'⟩ := h j hj
  rw [hspan, hspan']
  exact ⟨rfl, rfl⟩

/-- An expression is read only where a level is left. -/
theorem lt_of_read {n depth θ i j : Nat} {a : α}
    (h : read g I S limit n depth θ i = .value a j) : depth < limit := by
  refine Nat.lt_of_not_le ?_
  intro hd
  cases n with
  | zero => exact absurd h (by simp [read])
  | succ n => exact absurd h (by simp [read_of_tooDeep hd])

section Ends

variable {depth θ : Nat}

/-- Among ends of the input only an operand by itself is read. -/
theorem atom_of_read {n i j : Nat} {a : α} (hends : S.EndsAt last) (hi : last ≤ i)
    (h : read g I S limit n depth θ i = .value a j) :
    g.prefixRule? .endOfInput = some .atom ∧ g.precedenceOf .endOfInput ≤ θ ∧
      I.atom (S i) = .ok a := by
  obtain ⟨hholds, hle⟩ := holds_of_read h
  have hj := hholds.le_succ hends hle
  obtain ⟨e, hfit, he, hw⟩ := hholds
  have hij := Expr.lt_of_spells hw
  obtain rfl : j = i + 1 := by omega
  obtain rfl := Expr.eq_atom_of_spells hw
  rw [hends.kind_eq (by omega)] at hle
  cases hfit with
  | atom hr =>
      rw [hends.kind_eq hi] at hr
      exact ⟨hr, hle, he⟩

/-- If an end of the input is an operand by itself that nothing extends, reading one does not fail
with an error of `E`. -/
theorem read_free_of_atom (hends : S.EndsAt last) {i : Nat} (hi : last ≤ i)
    (hatom : ∀ e, I.atom (S i) = .error e → ¬ E e)
    (hr : g.prefixRule? .endOfInput = some .atom) (hle : g.precedenceOf .endOfInput ≤ θ)
    (hd : depth < limit) (n : Nat) : Free E (read g I S limit n depth θ i) := by
  cases n with
  | zero => exact Meets.unfinished
  | succ n =>
      rw [← hends.kind_eq hi] at hr
      rw [read_of_prefixRule hd hr]
      refine (Free.ofExcept hatom (i + 1)).andThen ?_
      intro a j hj
      obtain ⟨-, rfl⟩ := Landing.ofExcept_eq_value hj
      cases n with
      | zero => exact Meets.unfinished
      | succ n =>
          rw [← hends.kind_eq (Nat.le_succ_of_le hi)] at hle
          rw [extend_of_le hle]
          exact Meets.of_value trivial

/-- If the operator that an end of the input is does not fail with an error of `E`, neither does
the loop behind the last token. -/
theorem extend_free {rule : InfixRule} (hends : S.EndsAt last)
    (hr : g.infixRule? .endOfInput = some rule) (hlt : θ < rule.precedence)
    (h : ∀ n left i, last ≤ i → Free E (rule.read I S (read g I S limit n depth) left i))
    (n : Nat) (left : α) {i : Nat} (hi : last ≤ i) :
    Free E (extend g I S limit n depth θ left i) := by
  induction n generalizing left i with
  | zero => exact Meets.unfinished
  | succ n ih =>
      have hri := hr
      rw [← hends.kind_eq hi] at hri
      rw [extend_of_lt hri hlt]
      refine (h n left i hi).andThen ?_
      intro a j hj
      have hfrom := (rule.read_from (S := S) I.forward_reached
        (read_from I.forward_reached g S limit n depth) left i).value a j hj
      exact ih a (by omega)

/-- If an operator behind the last token has found its operand, the loop goes on without an error
of `E`. -/
theorem extend_free_of_value {rule : InfixRule} (hI : I.Alike E) (hends : S.EndsAt last)
    (hr : g.infixRule? .endOfInput = some rule) (hlt : θ < rule.precedence) {n i j : Nat}
    {left a : α} (hi : last ≤ i)
    (ha : rule.read I S (read g I S limit n depth) left i = .value a j) (m : Nat) :
    Free E (extend g I S limit m depth θ a j) := by
  have hfrom := (rule.read_from (S := S) I.forward_reached
    (read_from I.forward_reached g S limit n depth) left i).value a j ha
  refine extend_free hends hr hlt ?_ m a (Nat.le_trans hi (Nat.le_of_succ_le hfrom))
  intro m left' i' hi'
  obtain ⟨hkind, htext⟩ := hends.alike hi hi'
  refine InfixRule.read_free (InfixRule.spares_of_value hI hkind htext ha) ?_ left'
  rintro prec assoc rfl
  obtain ⟨b, k, hb, -⟩ := Landing.andThen_eq_value ha
  have hnext : last ≤ i + 1 := Nat.le_succ_of_le hi
  have hnext' : last ≤ i' + 1 := Nat.le_succ_of_le hi'
  obtain ⟨hr', hle, hatom⟩ := atom_of_read hends hnext hb
  obtain ⟨hkind', htext'⟩ := hends.alike hnext hnext'
  exact read_free_of_atom hends hnext' (fun _ => hI.atom hkind' htext' hatom) hr' hle
    (lt_of_read hb) m

end Ends

/-- Every level costs at most two places behind the last token: one for an operator, one for its
left operand. -/
theorem notBeyond_of_bound (hI : I.Alike E) (g : Grammar) (limit : Nat) (hends : S.EndsAt last)
    (n : Nat) :
    (∀ depth θ i, NotBeyond E (max last i + 2 * (limit - depth))
        (read g I S limit n depth θ i)) ∧
      ∀ depth θ left i, NotBeyond E (max (last + 1) i + 1 + 2 * (limit - depth))
        (extend g I S limit n depth θ left i) := by
  induction n with
  | zero => exact ⟨fun _ _ _ => Meets.unfinished, fun _ _ _ _ => Meets.unfinished⟩
  | succ n ih =>
      obtain ⟨ihr, ihe⟩ := ih
      -- an operand that has been read reaches at most one place beyond the last token
      have hoperand : ∀ depth m i a j, read g I S limit n depth m i = .value a j →
          depth < limit ∧ j ≤ max last i + 1 := by
        intro depth m i a j ha
        obtain ⟨hholds, hle⟩ := holds_of_read ha
        exact ⟨lt_of_read ha, hholds.le_succ hends hle⟩
      constructor
      · intro depth θ i
        rcases Nat.lt_or_ge depth limit with h | h
        · cases hr : g.prefixRule? (S i).kind with
          | none =>
              rw [read_of_noPrefix h hr]
              exact Meets.of_failure (fun _ => by omega)
          | some rule =>
              rw [read_of_prefixRule h hr]
              refine (rule.read_notBeyond ?_ ?_ (by omega)).andThen ?_
              · intro m
                exact (ihr (depth + 1) m (i + 1)).mono (by omega)
              · intro m a j ha
                have := hoperand (depth + 1) m (i + 1) a j ha
                omega
              · intro a j ha
                -- any threshold will do for what a rule in front yields
                have hholds : Holds g I S (g.precedenceOf (S j).kind) i a j :=
                  holds_of_prefixRule ((sound_of_bound g I S limit n).1 (depth + 1)) hr ha
                have hj := hholds.le_succ hends (Nat.le_refl _)
                exact (ihe (depth + 1) θ a j).mono (by omega)
        · rw [read_of_tooDeep h]
          exact Meets.of_failure (fun _ => by omega)
      · intro depth θ left i
        rcases Nat.lt_or_ge θ (g.precedenceOf (S i).kind) with h | h
        · obtain ⟨rule, hr, hlt⟩ := Grammar.exists_infixRule_of_lt h
          rw [extend_of_lt hr hlt]
          refine (rule.read_notBeyond ?_ ?_ (by omega) left).andThen ?_
          · intro m
            exact (ihr depth m (i + 1)).mono (by omega)
          · intro m a j ha
            have := hoperand depth m (i + 1) a j ha
            omega
          · intro a j ha
            rcases Nat.lt_or_ge i last with hi | hi
            · have hj : j ≤ last + 1 := by
                cases rule with
                | binary prec assoc =>
                    obtain ⟨b, k, hb, hk⟩ := Landing.andThen_eq_value ha
                    obtain ⟨-, rfl⟩ := Landing.ofExcept_eq_value hk
                    have := hoperand depth _ (i + 1) b k hb
                    omega
                | postfixed prec =>
                    obtain ⟨-, rfl⟩ := Landing.ofExcept_eq_value ha
                    omega
              exact (ihe depth θ a j).mono (by omega)
            · rw [hends.kind_eq hi] at hr
              exact (extend_free_of_value hI hends hr hlt hi ha n).notBeyond
        · rw [extend_of_le h]
          exact Meets.of_value trivial

/-- A run that ends with an error of `E` ends at most two places for every level behind the last
token. -/
theorem read_notBeyond (hI : I.Alike E) (hends : S.EndsAt last) (n depth θ i : Nat) :
    NotBeyond E (max last i + 2 * (limit - depth)) (read g I S limit n depth θ i) :=
  (notBeyond_of_bound hI g limit hends n).1 depth θ i

end Tape

namespace Parser

variable {α : Type} {g : Grammar} {I : Interpretation α} {E : ParseError → Prop}
  {θ n limit : Nat} {p q : Parser}

/-- A run that ends, with whatever bound, ends with the bound that is computed from the input, if
it does not go far beyond the last token. -/
theorem parseExpression_eq_of_read {k : Nat} (h : parse g I n θ p ≠ .unfinished)
    (hk : (Tape.read g I p.tape p.maxDepth n p.depth θ p.stats.consumed).stop?
      ParseError.reached = some k) (hlt : k < p.bound + p.stats.consumed) :
    p.parseExpression g I θ = parse g I n θ p := by
  have hfinished : Tape.read g I p.tape p.maxDepth p.bound p.depth θ p.stats.consumed ≠
      .unfinished := by
    rw [Tape.read_until I.forward_reached hk (fun _ _ => rfl) hlt]
    intro hu
    rw [hu] at hk
    cases hk
  have hended : p.parseExpression g I θ ≠ .unfinished := by
    intro hu
    have hland := parseExpression_landsOn g I θ p.follows_tape
    rw [hu] at hland
    exact hfinished hland.eq_unfinished
  rcases Nat.le_total n p.bound with hle | hle
  · exact parse_stable hle h
  · exact (parse_stable hle hended).symm

/-- So does every run that ends with an error of `E`. -/
theorem parseExpression_eq_of_failure (hI : I.Alike E) {e : ParseError} (he : E e)
    (h : parse g I n θ p = .failure e q) : p.parseExpression g I θ = .failure e q := by
  have hbound : p.bound = p.pending.length + p.source.size + 2 * p.maxDepth + 4 := rfl
  have hland := parse_landsOn g I n θ p.follows_tape
  rw [h] at hland
  obtain ⟨k, hread, -⟩ := hland.exists_failure_place
  have hk := (Tape.read_notBeyond hI p.follows_tape.endsAt n p.depth θ
    p.stats.consumed).failure e k hread he
  have hlt : k < p.bound + p.stats.consumed := by omega
  rw [← h]
  exact parseExpression_eq_of_read (by simp [h]) (by rw [hread]; rfl) hlt

/-- A run that stops at the depth limit, with whatever bound, stops there with the bound that is
computed from the input. -/
theorem parseExpression_eq_of_tooDeep {span : Option Span} (hI : I.Sincere)
    (h : parse g I n θ p = .failure (.tooDeep limit span) q) :
    p.parseExpression g I θ = .failure (.tooDeep limit span) q :=
  parseExpression_eq_of_failure hI.alike trivial h

/-- **The bound is large enough.**  If it can be told from a token whether its operation fails,
every run that ends, with whatever bound, ends alike with the bound that is computed from the
input. -/
theorem parseExpression_eq_of_ended (hI : I.Uniform) (h : parse g I n θ p ≠ .unfinished) :
    p.parseExpression g I θ = parse g I n θ p := by
  cases hrun : parse g I n θ p with
  | value a q =>
      have hbound : p.bound = p.pending.length + p.source.size + 2 * p.maxDepth + 4 := rfl
      have hland := parse_landsOn g I n θ p.follows_tape
      rw [hrun] at hland
      obtain ⟨k, hread, -⟩ := hland.exists_place
      obtain ⟨hholds, hle⟩ := Tape.holds_of_read hread
      have hk := hholds.le_succ p.follows_tape.endsAt hle
      rw [← hrun]
      exact parseExpression_eq_of_read h (by rw [hread]; rfl) (by omega)
  | failure e q => exact parseExpression_eq_of_failure hI trivial hrun
  | unfinished => exact absurd hrun h

end Parser

end Reckon

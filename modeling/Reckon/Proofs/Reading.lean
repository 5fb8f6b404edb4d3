/-
**The reader finds the tree that fits.**

On a tape the reader and the trees determine each other.  What the reader yields as a value is the
value of a tree that stands at the place and fits there; and where a tree fits, the reader goes
through it part by part.  It yields the value of the tree if there are enough levels, and otherwise
it stops at the first token that starts a part that is too low.  The loop of the reader follows the
left spine from the leftmost operand upwards, so that the statements about the loop are about trees
that have been read so far.

Main definitions:

* `Tape.Holds` — some tree of the given value stands between two places and fits there.

Main results:

* `Tape.holds_of_read` — **soundness**: a value is the value of a tree that fits;
* `Tape.read_eq_value` — **completeness**: a tree that fits is read, given enough levels;
* `Tape.fits_unique` — **unambiguity**: at most one tree fits;
* `Tape.read_eq_tooDeep` — given too few levels, the overflow of the tree is to blame.
-/

import Reckon.Proofs.Placement
import Reckon.Proofs.Nesting

set_option autoImplicit false
set_option relaxedAutoImplicit false

namespace Reckon

/-! ### Values of trees and of their parts -/

namespace Expr

variable {α : Type} {I : Interpretation α} {a : α}

theorem eval_group_eq_ok {opening closing : Token} {inner : Expr} :
    (group opening inner closing).eval I = .ok a ↔
      ∃ b, inner.eval I = .ok b ∧ I.group opening b closing = a := by
  rw [eval]
  cases inner.eval I <;> simp

theorem eval_unary_eq_ok {op : Token} {operand : Expr} :
    (unary op operand).eval I = .ok a ↔ ∃ b, operand.eval I = .ok b ∧ I.unary op b = .ok a := by
  rw [eval]
  cases operand.eval I <;> simp

theorem eval_binary_eq_ok {op : Token} {left right : Expr} :
    (binary left op right).eval I = .ok a ↔
      ∃ b c, left.eval I = .ok b ∧ right.eval I = .ok c ∧ I.binary b op c = .ok a := by
  rw [eval]
  cases left.eval I <;> cases right.eval I <;> simp

theorem eval_postfixed_eq_ok {op : Token} {operand : Expr} :
    (postfixed operand op).eval I = .ok a ↔
      ∃ b, operand.eval I = .ok b ∧ I.postfixed b op = .ok a := by
  rw [eval]
  cases operand.eval I <;> simp

end Expr

namespace Tape

variable {α : Type} {g : Grammar} {I : Interpretation α} {S : Tape} {limit : Nat}

/-! ### Soundness -/

/-- Between the places `i` and `j` stands a tree of value `a` that fits on the left spine of a seat
with threshold `θ`. -/
def Holds (g : Grammar) (I : Interpretation α) (S : Tape) (θ i : Nat) (a : α) (j : Nat) : Prop :=
  ∃ e : Expr, e.Fits g θ (S j) ∧ e.eval I = .ok a ∧ S.Spells i e.tokens j

/-- Reading finds only trees that fit in the seat. -/
def Sound (g : Grammar) (I : Interpretation α) (S : Tape)
    (operand : Nat → Nat → Landing α) : Prop :=
  ∀ m i a j, operand m i = .value a j → Holds g I S m i a j ∧ g.precedenceOf (S j).kind ≤ m

theorem holds_of_prefixRule {operand : Nat → Nat → Landing α} (h : Sound g I S operand)
    {rule : PrefixRule} {θ i j : Nat} {a : α} (hr : g.prefixRule? (S i).kind = some rule)
    (ha : rule.read I S operand i = .value a j) : Holds g I S θ i a j := by
  cases rule with
  | atom =>
      obtain ⟨hv, rfl⟩ := Landing.ofExcept_eq_value ha
      exact ⟨.atom (S i), .atom hr, hv, rfl, rfl⟩
  | group =>
      obtain ⟨b, k, hb, hc⟩ := Landing.andThen_eq_value ha
      obtain ⟨⟨e, hfit, he, hw⟩, hle⟩ := h 0 (i + 1) b k hb
      split at hc
      · rename_i hk
        cases hc
        refine ⟨.group (S i) e (S k), .group hr hfit hle hk,
          Expr.eval_group_eq_ok.2 ⟨b, he, rfl⟩, ?_⟩
        exact Expr.spells_group.2 ⟨rfl, k, hw, rfl, rfl⟩
      · exact absurd hc (by simp)
  | unary m =>
      obtain ⟨b, k, hb, hc⟩ := Landing.andThen_eq_value ha
      obtain ⟨⟨e, hfit, he, hw⟩, hle⟩ := h m (i + 1) b k hb
      obtain ⟨hv, rfl⟩ := Landing.ofExcept_eq_value hc
      refine ⟨.unary (S i) e, .unary hr hfit hle, Expr.eval_unary_eq_ok.2 ⟨b, he, hv⟩, ?_⟩
      exact Expr.spells_unary.2 ⟨rfl, hw⟩

theorem holds_of_infixRule {operand : Nat → Nat → Landing α} (h : Sound g I S operand)
    {rule : InfixRule} {θ i j k : Nat} {a b : α} (hr : g.infixRule? (S j).kind = some rule)
    (hlt : θ < rule.precedence) (hleft : Holds g I S θ i a j)
    (hb : rule.read I S operand a j = .value b k) : Holds g I S θ i b k := by
  obtain ⟨l, hfit, hl, hw⟩ := hleft
  cases rule with
  | binary prec assoc =>
      obtain ⟨c, k', hc, hb⟩ := Landing.andThen_eq_value hb
      obtain ⟨⟨r, hfit', he, hw'⟩, hle⟩ := h _ (j + 1) c k' hc
      obtain ⟨hv, rfl⟩ := Landing.ofExcept_eq_value hb
      refine ⟨.binary l (S j) r, .binary hr hlt hfit hfit' hle,
        Expr.eval_binary_eq_ok.2 ⟨a, c, hl, he, hv⟩, ?_⟩
      exact Expr.spells_binary.2 ⟨j, hw, rfl, hw'⟩
  | postfixed prec =>
      obtain ⟨hv, rfl⟩ := Landing.ofExcept_eq_value hb
      refine ⟨.postfixed l (S j), .postfixed hr hlt hfit,
        Expr.eval_postfixed_eq_ok.2 ⟨a, hl, hv⟩, ?_⟩
      exact Expr.spells_postfixed.2 ⟨j, hw, rfl, rfl⟩

/-- The reader finds only trees that fit, and its loop turns one into another. -/
theorem sound_of_bound (g : Grammar) (I : Interpretation α) (S : Tape) (limit n : Nat) :
    (∀ depth, Sound g I S (read g I S limit n depth)) ∧
      ∀ depth θ i a j b k, Holds g I S θ i a j → extend g I S limit n depth θ a j = .value b k →
        Holds g I S θ i b k ∧ g.precedenceOf (S k).kind ≤ θ := by
  induction n with
  | zero =>
      exact ⟨fun _ _ _ _ _ h => absurd h (by simp [read]),
        fun _ _ _ _ _ _ _ _ h => absurd h (by simp [extend])⟩
  | succ n ih =>
      obtain ⟨ihr, ihe⟩ := ih
      constructor
      · intro depth θ i a j h
        rcases Nat.lt_or_ge depth limit with hd | hd
        · cases hr : g.prefixRule? (S i).kind with
          | none => exact absurd h (by simp [read_of_noPrefix hd hr])
          | some rule =>
              rw [read_of_prefixRule hd hr] at h
              obtain ⟨b, k, hb, hk⟩ := Landing.andThen_eq_value h
              exact ihe _ θ i b k a j (holds_of_prefixRule (ihr _) hr hb) hk
        · exact absurd h (by simp [read_of_tooDeep hd])
      · intro depth θ i a j b k hleft h
        rcases Nat.lt_or_ge θ (g.precedenceOf (S j).kind) with hlt | hle
        · obtain ⟨rule, hr, hlt⟩ := Grammar.exists_infixRule_of_lt hlt
          rw [extend_of_lt hr hlt] at h
          obtain ⟨c, m, hc, hm⟩ := Landing.andThen_eq_value h
          exact ihe _ θ i c m b k (holds_of_infixRule (ihr _) hr hlt hleft hc) hm
        · rw [extend_of_le hle] at h
          cases h
          exact ⟨hleft, hle⟩

/-- What the reader yields as a value is the value of a tree that fits. -/
theorem holds_of_read {n depth θ i j : Nat} {a : α}
    (h : read g I S limit n depth θ i = .value a j) :
    Holds g I S θ i a j ∧ g.precedenceOf (S j).kind ≤ θ :=
  (sound_of_bound g I S limit n).1 depth θ i a j h

/-! ### Completeness -/

/-- The reader has come to place `j` with the value `a`, and enough of its bound is left. -/
def Reaches (g : Grammar) (I : Interpretation α) (S : Tape) (limit n depth θ i : Nat) (a : α)
    (j : Nat) : Prop :=
  ∃ m, n + i ≤ m + j ∧ read g I S limit n depth θ i = extend g I S limit m (depth + 1) θ a j

theorem Reaches.read_eq_value {n depth θ i j : Nat} {a : α}
    (h : Reaches g I S limit n depth θ i a j) (hn : j < n + i)
    (hle : g.precedenceOf (S j).kind ≤ θ) :
    read g I S limit n depth θ i = .value a j := by
  obtain ⟨m, hm, h⟩ := h
  obtain ⟨m, rfl⟩ : ∃ m', m = m' + 1 := ⟨m - 1, by omega⟩
  rw [h, extend_of_le hle]

/-- Over a tree on a left spine the reader comes to the place behind it. -/
theorem reaches_of_fits {θ : Nat} {e : Expr} {next : Token} (h : e.Fits g θ next)
    {n depth i j : Nat} {a : α} (hnext : S j = next) (hw : S.Spells i e.tokens j)
    (ha : e.eval I = .ok a) (hn : j < n + i) (hd : depth + e.need ≤ limit) :
    Reaches g I S limit n depth θ i a j := by
  induction h generalizing n depth i j a with
  | atom hr =>
      obtain ⟨rfl, rfl⟩ := Expr.spells_atom.1 hw
      obtain ⟨n, rfl⟩ : ∃ m, n = m + 1 := ⟨n - 1, by omega⟩
      refine ⟨n, by omega, ?_⟩
      rw [Expr.eval] at ha
      rw [read_of_prefixRule hd hr, PrefixRule.read, ha]
      rfl
  | group hr _ hle hc ih =>
      obtain ⟨rfl, k, hop, rfl, rfl⟩ := Expr.spells_group.1 hw
      obtain ⟨b, hb, rfl⟩ := Expr.eval_group_eq_ok.1 ha
      have := Expr.lt_of_spells hop
      obtain ⟨n, rfl⟩ : ∃ m, n = m + 1 := ⟨n - 1, by omega⟩
      rw [Expr.need] at hd
      refine ⟨n, by omega, ?_⟩
      have hread : read g I S limit n (depth + 1) 0 (i + 1) = .value b k :=
        (ih rfl hop hb (by omega) (by omega)).read_eq_value (by omega) hle
      rw [read_of_prefixRule (by omega) hr, PrefixRule.read, hread, Landing.andThen_value,
        if_pos hc]
      rfl
  | @unary _ m _ _ _ hr _ hle ih =>
      obtain ⟨rfl, hop⟩ := Expr.spells_unary.1 hw
      obtain ⟨b, hb, ha⟩ := Expr.eval_unary_eq_ok.1 ha
      have := Expr.lt_of_spells hop
      obtain ⟨n, rfl⟩ : ∃ m, n = m + 1 := ⟨n - 1, by omega⟩
      rw [Expr.need] at hd
      refine ⟨n, by omega, ?_⟩
      have hread : read g I S limit n (depth + 1) m (i + 1) = .value b j :=
        (ih hnext hop hb (by omega) (by omega)).read_eq_value (by omega) (by rwa [hnext])
      rw [read_of_prefixRule (by omega) hr, PrefixRule.read, hread, Landing.andThen_value, ha]
      rfl
  | @binary θ prec assoc _ _ _ _ hr hlt _ _ hle ihl ihr =>
      obtain ⟨k, hwl, rfl, hwr⟩ := Expr.spells_binary.1 hw
      obtain ⟨b, c, hb, hc, ha⟩ := Expr.eval_binary_eq_ok.1 ha
      have := Expr.lt_of_spells hwr
      rw [Expr.need] at hd
      have hreach : Reaches g I S limit n depth θ i b k :=
        ihl rfl hwl hb (by omega) (by omega)
      obtain ⟨m, hm, hleft⟩ := hreach
      obtain ⟨m, rfl⟩ : ∃ m', m = m' + 1 := ⟨m - 1, by omega⟩
      refine ⟨m, by omega, ?_⟩
      have hread : read g I S limit m (depth + 1) (assoc.rightThreshold prec) (k + 1) =
          .value c j :=
        (ihr hnext hwr hc (by omega) (by omega)).read_eq_value (by omega) (by rwa [hnext])
      rw [hleft, extend_of_lt hr hlt, InfixRule.read, hread, Landing.andThen_value, ha]
      rfl
  | @postfixed θ _ _ _ _ hr hlt _ ih =>
      obtain ⟨k, hop, rfl, rfl⟩ := Expr.spells_postfixed.1 hw
      obtain ⟨b, hb, ha⟩ := Expr.eval_postfixed_eq_ok.1 ha
      have hreach : Reaches g I S limit n depth θ i b k := ih rfl hop hb (by omega) hd
      obtain ⟨m, hm, hleft⟩ := hreach
      obtain ⟨m, rfl⟩ : ∃ m', m = m' + 1 := ⟨m - 1, by omega⟩
      refine ⟨m, by omega, ?_⟩
      rw [hleft, extend_of_lt hr hlt, InfixRule.read, ha]
      rfl

/-- A tree that fits in its seat is read, if there are enough levels. -/
theorem read_eq_value {θ n depth i j : Nat} {e : Expr} {a : α} (h : e.Fits g θ (S j))
    (hle : g.precedenceOf (S j).kind ≤ θ) (hw : S.Spells i e.tokens j) (ha : e.eval I = .ok a)
    (hn : j < n + i) (hd : depth + e.need ≤ limit) :
    read g I S limit n depth θ i = .value a j :=
  (reaches_of_fits h rfl hw ha hn hd).read_eq_value hn hle

/-- At most one tree stands at a place and fits there. -/
theorem fits_unique {θ i j j' : Nat} {e e' : Expr} (h : e.Fits g θ (S j))
    (hle : g.precedenceOf (S j).kind ≤ θ) (hw : S.Spells i e.tokens j) (h' : e'.Fits g θ (S j'))
    (hle' : g.precedenceOf (S j').kind ≤ θ) (hw' : S.Spells i e'.tokens j') :
    e = e' ∧ j = j' := by
  -- any bound and any limit that are large enough for both trees
  have hread : read g Expr.interpretation S (max e.need e'.need) (j + j' + 1) 0 θ i = .value e j :=
    read_eq_value h hle hw e.eval_interpretation (by omega) (by omega)
  have hread' : read g Expr.interpretation S (max e.need e'.need) (j + j' + 1) 0 θ i =
      .value e' j' :=
    read_eq_value h' hle' hw' e'.eval_interpretation (by omega) (by omega)
  rw [hread] at hread'
  cases hread'
  exact ⟨rfl, rfl⟩

/-- If there are too few levels, the first token that starts a part that is too low is the last one
the reader looks at. -/
theorem read_eq_tooDeep {m : Nat} {e : Expr} {θ n depth i j k : Nat} {a : α}
    (h : e.Fits g θ (S j)) (hw : S.Spells i e.tokens j) (ha : e.eval I = .ok a)
    (hn : j < n + i) (hm : depth + m = limit) (hk : e.overflow m = some k) :
    read g I S limit n depth θ i = .failure (.tooDeep limit (S (i + k)).span) (i + k) := by
  induction m, e using Expr.overflow.induct generalizing n depth θ i j k a with
  | case1 e =>
      have := Expr.lt_of_spells hw
      obtain ⟨n, rfl⟩ : ∃ n', n = n' + 1 := ⟨n - 1, by omega⟩
      rw [Expr.overflow_zero, Option.some.injEq] at hk
      rw [read_of_tooDeep (by omega), ← hk, Nat.add_zero]
  | case2 m t => exact absurd hk (by simp [Expr.overflow])
  | case3 m opening inner closing ih =>
      obtain ⟨k, hk', rfl⟩ := Option.map_eq_some_iff.1 hk
      obtain ⟨rfl, l, hop, rfl, rfl⟩ := Expr.spells_group.1 hw
      obtain ⟨b, hb, -⟩ := Expr.eval_group_eq_ok.1 ha
      have := Expr.lt_of_spells hop
      obtain ⟨n, rfl⟩ : ∃ n', n = n' + 1 := ⟨n - 1, by omega⟩
      cases h with
      | group hr hfit _ _ =>
          have hread : read g I S limit n (depth + 1) 0 (i + 1) =
              .failure (.tooDeep limit (S (i + 1 + k)).span) (i + 1 + k) :=
            ih hfit hop hb (by omega) (by omega) hk'
          rw [read_of_prefixRule (by omega) hr, PrefixRule.read, hread, Nat.add_right_comm,
            Nat.add_assoc]
          rfl
  | case4 m op operand ih =>
      obtain ⟨k, hk', rfl⟩ := Option.map_eq_some_iff.1 hk
      obtain ⟨rfl, hop⟩ := Expr.spells_unary.1 hw
      obtain ⟨b, hb, -⟩ := Expr.eval_unary_eq_ok.1 ha
      have := Expr.lt_of_spells hop
      obtain ⟨n, rfl⟩ : ∃ n', n = n' + 1 := ⟨n - 1, by omega⟩
      cases h with
      | @unary _ θ' _ _ _ hr hfit _ =>
          have hread : read g I S limit n (depth + 1) θ' (i + 1) =
              .failure (.tooDeep limit (S (i + 1 + k)).span) (i + 1 + k) :=
            ih hfit hop hb (by omega) (by omega) hk'
          rw [read_of_prefixRule (by omega) hr, PrefixRule.read, hread, Nat.add_right_comm,
            Nat.add_assoc]
          rfl
  | case5 m left op right k' hl ihl =>
      -- the left operand stands on the level of the whole, and its error is that of the whole
      obtain ⟨l, hwl, rfl, hwr⟩ := Expr.spells_binary.1 hw
      obtain ⟨b, c, hb, -, -⟩ := Expr.eval_binary_eq_ok.1 ha
      have := Expr.lt_of_spells hwr
      simp only [Expr.overflow, hl, Option.some.injEq] at hk
      cases h with
      | binary _ _ hfit _ _ => exact ihl hfit hwl hb (by omega) hm (hk ▸ hl)
  | case6 m left op right hl ihl ihr =>
      obtain ⟨l, hwl, rfl, hwr⟩ := Expr.spells_binary.1 hw
      obtain ⟨b, c, hb, hc, -⟩ := Expr.eval_binary_eq_ok.1 ha
      have := Expr.lt_of_spells hwr
      have hneed := Expr.overflow_eq_none_iff.1 hl
      simp only [Expr.overflow, hl] at hk
      obtain ⟨k, hk', rfl⟩ := Option.map_eq_some_iff.1 hk
      cases h with
      | @binary _ prec assoc _ _ _ _ hr hlt hfit hfit' _ =>
          -- the left operand is read, and the error is that of the right one
          have hreach : Reaches g I S limit n depth θ i b l :=
            reaches_of_fits hfit rfl hwl hb (by omega) (by omega)
          obtain ⟨n', hn', hleft⟩ := hreach
          obtain ⟨n', rfl⟩ : ∃ m', n' = m' + 1 := ⟨n' - 1, by omega⟩
          have hread : read g I S limit n' (depth + 1) (assoc.rightThreshold prec) (l + 1) =
              .failure (.tooDeep limit (S (l + 1 + k)).span) (l + 1 + k) :=
            ihr hfit' hwr hc (by omega) (by omega) hk'
          have hplace : l + 1 + k = i + (left.tokens.length + 1 + k) := by
            have := hwl.eq_add
            omega
          rw [hleft, extend_of_lt hr hlt, InfixRule.read, hread, hplace]
          rfl
  | case7 m operand op ih =>
      obtain ⟨l, hop, rfl, rfl⟩ := Expr.spells_postfixed.1 hw
      obtain ⟨b, hb, -⟩ := Expr.eval_postfixed_eq_ok.1 ha
      cases h with
      | postfixed _ _ hfit => exact ih hfit hop hb (by omega) hm hk

end Tape

end Reckon

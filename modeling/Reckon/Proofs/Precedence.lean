/-
**The parser finds the tree that fits.**

The statements about trees on a tape carry over to the parser, whatever it has drawn in advance
and wherever it stands.  If it yields a value, a tree of that value leads the tokens ahead, and
the tokens of the tree have been taken.  Conversely a tree that leads the tokens ahead is found,
unless it nests too deep, and then the parser stops at the overflow of the tree.  All this holds
for every table of rules: several associativities may share a precedence, a kind may have a rule
in front as well as behind, and an operator in front may bind as loosely as it likes.

Main definitions:

* `Expr.Leads` — a tree whose tokens open a tape and that fits there;
* `Outcome.IsTooDeep` — the run has ended at the depth limit.

Main results:

* `Parser.exists_leads_of_value` — a value is the value of a tree that leads the tokens ahead;
* `Parser.exists_value_of_leads`, `Parser.exists_tooDeep_of_leads` — such a tree is found, or its
  overflow is;
* `Parser.value_iff_placed` — **precedence climbing**: the tree that the engine builds is the one
  whose seats are all respected.
-/

import Reckon.Proofs.Reading
import Reckon.Proofs.Refinement

set_option autoImplicit false
set_option relaxedAutoImplicit false

namespace Reckon

/-- The tape starts with the tokens of the tree, and the tree fits in a seat with the given
threshold in front of the token behind them. -/
structure Expr.Leads (g : Grammar) (θ : Nat) (S : Tape) (e : Expr) : Prop where
  spells : S.Spells 0 e.tokens e.tokens.length
  fits : e.Fits g θ (S e.tokens.length)
  follower_le : g.precedenceOf (S e.tokens.length).kind ≤ θ

/-- A tree is well placed on a tape exactly if it leads the tape. -/
theorem Expr.placed_iff {g : Grammar} {θ : Nat} {S : Tape} {w : List Token} {e : Expr} :
    e.Placed g θ S w ↔ e.tokens = w ∧ e.Leads g θ S := by
  constructor
  · rintro ⟨hm, rfl, hw, hs⟩
    obtain ⟨hfit, hle⟩ := Expr.fits_iff.2 ⟨hm, hs⟩
    exact ⟨rfl, hw, hfit, hle⟩
  · rintro ⟨rfl, hw, hfit, hle⟩
    obtain ⟨hm, hs⟩ := Expr.fits_iff.1 ⟨hfit, hle⟩
    exact ⟨hm, rfl, hw, hs⟩

/-- The run has ended at the depth limit. -/
def Outcome.IsTooDeep {α : Type} (o : Outcome α) : Prop :=
  ∃ limit span q, o = .failure (.tooDeep limit span) q

theorem Outcome.not_isTooDeep_of_result {α : Type} {o : Outcome α} {a : α}
    (h : o.result? = some (.ok a)) : ¬ o.IsTooDeep := by
  rintro ⟨limit, span, q, rfl⟩
  exact absurd h (by simp [result?])

namespace Parser

variable {α : Type} {g : Grammar} {I : Interpretation α} {θ : Nat} {p q : Parser} {e : Expr} {a : α}

/-- A value is the value of a tree that leads the tokens ahead, and its tokens have been taken. -/
theorem exists_leads_of_value (h : p.parseExpression g I θ = .value a q) :
    ∃ e : Expr, e.Leads g θ p.stream ∧ e.eval I = .ok a ∧ p.Took e.tokens q := by
  have hland := parseExpression_landsOn g I θ p.follows_tape
  rw [h] at hland
  obtain ⟨j, hread, hq⟩ := hland.exists_place
  obtain ⟨⟨e, hfit, he, hw⟩, hle⟩ := Tape.holds_of_read hread
  have htook := (took_iff hq).2 hw
  obtain rfl := hw.eq_add
  rw [tape_add] at hfit hle
  exact ⟨e, ⟨htook.spells, hfit, hle⟩, he, htook⟩

/-! ### Trees ahead of the parser -/

/-- A tree that leads the tokens ahead stands on the tape where the parser stands. -/
theorem stands_of_leads (h : e.Leads g θ p.stream) :
    p.tape.Spells p.stats.consumed e.tokens (p.stats.consumed + e.tokens.length) ∧
      e.Fits g θ (p.tape (p.stats.consumed + e.tokens.length)) ∧
        g.precedenceOf (p.tape (p.stats.consumed + e.tokens.length)).kind ≤ θ := by
  refine ⟨spells_tape.2 h.spells, ?_⟩
  rw [tape_add]
  exact ⟨h.fits, h.follower_le⟩

/-- The bound that is computed from the input exceeds the number of tokens of such a tree. -/
theorem length_lt_bound (h : e.Leads g θ p.stream) : e.tokens.length < p.bound := by
  obtain ⟨hw, hfit, hle⟩ := stands_of_leads h
  have hbound : p.bound = p.pending.length + p.source.size + 2 * p.maxDepth + 4 := rfl
  rcases Nat.lt_or_ge e.tokens.length (p.pending.length + p.source.size) with hlt | hge
  · omega
  · -- the follower is an end of the input, so at most one end belongs to the tree
    have hends : ∀ k, p.stats.consumed + (p.pending.length + p.source.size) ≤ k →
        (p.tape k).kind = .endOfInput := by
      intro k hk
      exact p.follows_tape.endsAt.kind_eq hk
    have hlen := hfit.le_succ_of_ends hends (hends _ (by omega)) hle hw
    omega

/-- A tree that leads the tokens ahead is found, if there are enough levels. -/
theorem exists_value_of_leads (h : e.Leads g θ p.stream) (ha : e.eval I = .ok a)
    (hd : p.depth + e.need ≤ p.maxDepth) :
    ∃ q, p.parseExpression g I θ = .value a q ∧ p.Took e.tokens q := by
  obtain ⟨hw, hfit, hle⟩ := stands_of_leads h
  have hbound := length_lt_bound h
  have hread := Tape.read_eq_value (n := p.bound) hfit hle hw ha (by omega) hd
  have hland := parseExpression_landsOn g I θ p.follows_tape
  rw [hread] at hland
  obtain ⟨q, hq, hf⟩ := hland.exists_value
  exact ⟨q, hq, (took_iff hf).2 hw⟩

/-- If there are too few levels, the parser stops at the overflow of the tree, which is not
taken. -/
theorem exists_tooDeep_of_leads (h : e.Leads g θ p.stream) (ha : e.eval I = .ok a) {m k : Nat}
    (hm : p.depth + m = p.maxDepth) (hk : e.overflow m = some k) :
    ∃ q, p.parseExpression g I θ = .failure (.tooDeep p.maxDepth (p.stream k).span) q ∧
      p.Took (e.tokens.take k) q := by
  obtain ⟨hw, hfit, -⟩ := stands_of_leads h
  have hbound := length_lt_bound h
  have hread := Tape.read_eq_tooDeep (n := p.bound) hfit hw ha (by omega) hm hk
  have hland := parseExpression_landsOn g I θ p.follows_tape
  rw [hread, tape_add] at hland
  obtain ⟨q, hq, hf⟩ := hland.exists_failure
  exact ⟨q, hq, (took_iff hf).2 (hw.take (Nat.le_of_lt (Expr.overflow_lt hk)))⟩

/-- A tree that leads the tokens ahead is missed only for its depth. -/
theorem isTooDeep_of_lt (h : e.Leads g θ p.stream) (ha : e.eval I = .ok a)
    (hd : p.maxDepth < p.depth + e.need) : (p.parseExpression g I θ).IsTooDeep := by
  rcases Nat.lt_or_ge p.depth p.maxDepth with hlt | hge
  · obtain ⟨m, hm⟩ := Nat.exists_eq_add_of_le (Nat.le_of_lt hlt)
    obtain ⟨k, hk⟩ := Expr.exists_overflow (e := e) (m := m) (by omega)
    obtain ⟨q, hq, -⟩ := exists_tooDeep_of_leads h ha hm.symm hk
    exact ⟨_, _, q, hq⟩
  · exact ⟨_, _, _, parse_of_tooDeep hge⟩

/-- **Precedence climbing.**  Unless the expression nests too deep, the engine builds a tree of
the tokens `w` exactly if the tokens of the tree are `w`, every token has the rule that its part
calls for, and every seat is respected. -/
theorem value_iff_placed {t : Expr} {w : List Token}
    (h : ¬ (p.parseExpression g Expr.interpretation θ).IsTooDeep) :
    (∃ q, p.parseExpression g Expr.interpretation θ = .value t q ∧ p.Took w q) ↔
      t.Placed g θ p.stream w := by
  constructor
  · rintro ⟨q, hq, htook⟩
    obtain ⟨e, hlead, he, htook'⟩ := exists_leads_of_value hq
    rw [Expr.eval_interpretation] at he
    cases he
    exact Expr.placed_iff.2 ⟨htook'.unique htook, hlead⟩
  · intro hplaced
    obtain ⟨rfl, hlead⟩ := Expr.placed_iff.1 hplaced
    refine exists_value_of_leads hlead t.eval_interpretation (Nat.le_of_not_lt ?_)
    intro hlt
    exact h (isTooDeep_of_lt hlead t.eval_interpretation hlt)

end Parser

/-- A table in which `-` binds looser in front of an expression than behind one, where it groups to
the right, and in which everything else is an operand. -/
def Grammar.looseSign : Grammar where
  prefixRule? k := if k = .minus then some (.unary 2) else some .atom
  infixRule? k := if k = .minus then some (.binary 4 .right) else none

/-- The tree of `-1-2` in that table. -/
def Expr.looseSign : Expr :=
  .unary ⟨.minus, "-", none⟩
    (.binary (.atom ⟨.number, "1", none⟩) ⟨.minus, "-", none⟩ (.atom ⟨.number, "2", none⟩))

namespace Parser

theorem value_iff_placed_looseSign :
    ¬ ((ofSource (.list Expr.looseSign.tokens) 3).parseExpression .looseSign
        Expr.interpretation 0).IsTooDeep ∧
      ((∃ q, (ofSource (.list Expr.looseSign.tokens) 3).parseExpression .looseSign
          Expr.interpretation 0 = .value Expr.looseSign q ∧
            (ofSource (.list Expr.looseSign.tokens) 3).Took Expr.looseSign.tokens q) ↔
        Expr.looseSign.Placed .looseSign 0 (ofSource (.list Expr.looseSign.tokens) 3).stream
          Expr.looseSign.tokens) := by
  have h : ¬ ((ofSource (.list Expr.looseSign.tokens) 3).parseExpression .looseSign
      Expr.interpretation 0).IsTooDeep :=
    Outcome.not_isTooDeep_of_result (a := Expr.looseSign) rfl
  exact ⟨h, value_iff_placed h⟩

end Parser

end Reckon

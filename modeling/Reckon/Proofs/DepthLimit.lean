/-
**The depth limit is exact.**

Whether an expression nests too deep is decided by its tree alone: the parser succeeds exactly if
the limit allows the levels of the tree.  Otherwise the first token that starts a part one level
too low takes the blame, it is the next one to be consumed, and everything in front of it has been
consumed.  In the calculator the levels are those of groups, signs and right operands, so a chain
of operators that groups to the left may be as long as it likes.

Main definitions:

* `Parser.ObeysLimit` — what the limit does to the reading of one tree.

Main results:

* `Parser.obeysLimit_of_leads` — for every table of rules;
* `Calculator.depth_limit_exact` — **the limit of the calculator**, for every source.
-/

import Reckon.Proofs.Layers

set_option autoImplicit false
set_option relaxedAutoImplicit false

namespace Reckon

namespace Parser

variable {α : Type} {g : Grammar} {I : Interpretation α} {p : Parser} {e : Expr} {a : α}

/-- The parser reads the tree `e`, of value `a`, if its limit allows the levels of the tree; and
otherwise it stops at the first token that starts a part one level below the limit. -/
structure ObeysLimit (g : Grammar) (I : Interpretation α) (p : Parser) (e : Expr) (a : α) :
    Prop where
  value_of_le : e.need ≤ p.maxDepth →
    ∃ q, p.parseExpression g I 0 = .value a q ∧ p.Took e.tokens q
  tooDeep_of_lt : p.maxDepth < e.need →
    ∃ k q, IsLeast {k | e.Starts (p.maxDepth + 1) k} k ∧
      p.parseExpression g I 0 = .failure (.tooDeep p.maxDepth (p.stream k).span) q ∧
      p.Took (e.tokens.take k) q ∧ q.stats.consumed = p.stats.consumed + k ∧
      q.consume.1 = p.stream k

/-- A parser that is reading nothing yet obeys its limit on the tree that leads the tokens ahead,
whatever the table of rules. -/
theorem obeysLimit_of_leads (hp : p.depth = 0) (h : e.Leads g 0 p.stream)
    (ha : e.eval I = .ok a) : p.ObeysLimit g I e a := by
  constructor
  · intro hle
    exact exists_value_of_leads h ha (by omega)
  · intro hlt
    obtain ⟨k, hk⟩ := Expr.exists_overflow hlt
    obtain ⟨q, hq, htook⟩ := exists_tooDeep_of_leads h ha (by omega) hk
    have hlen : (e.tokens.take k).length = k := by
      have := Expr.overflow_lt hk
      rw [List.length_take]
      omega
    have hconsumed := htook.consumed_eq
    have hnext := htook.stream_eq 0
    rw [hlen] at hconsumed hnext
    exact ⟨k, q, Expr.isLeast_of_overflow hk, hq, htook, hconsumed, by rw [consume_fst, hnext]; rfl⟩

end Parser

namespace Calculator

/-- **The limit of the calculator.**  Where a source opens with a phrase, the parser obeys its
limit `d` on the tree of the phrase: when it builds the tree, when it computes on a line, and under
every interpretation that gives the tree a value.  If the phrase is a chain that groups to the
left, its levels are those of the first operand and one more than those of each right operand. -/
theorem depth_limit_exact {s : Source} {w : List Token} {e : Expr} (h : Phrase s.endless w e)
    (d : Nat) :
    (Parser.ofSource s d).ObeysLimit grammar Expr.interpretation e e ∧
    (∀ {α : Type} (A : Arithmetic α) (l : Lexer), s = .line l →
      ∃ a, e.eval A.interpretation = .ok a ∧
        (Parser.ofSource s d).ObeysLimit grammar A.interpretation e a) ∧
    (∀ {α : Type} (I : Interpretation α) (a : α), e.eval I = .ok a →
      (Parser.ofSource s d).ObeysLimit grammar I e a) ∧
    (∀ first links, e = Expr.chain first links →
      (e.need ≤ d ↔ first.need ≤ d ∧ ∀ link ∈ links, link.2.need + 1 ≤ d)) := by
  have hlead := (phrase_iff.1 h).2
  rw [← Parser.stream_ofSource s d] at hlead
  refine ⟨?_, ?_, ?_, ?_⟩
  · exact Parser.obeysLimit_of_leads rfl hlead e.eval_interpretation
  · rintro α A l rfl
    obtain ⟨a, hvalue⟩ := exists_denotes_of_phrase A h
    have ha := denotes_iff.1 hvalue
    exact ⟨a, ha, Parser.obeysLimit_of_leads rfl hlead ha⟩
  · intro α I a ha
    exact Parser.obeysLimit_of_leads rfl hlead ha
  · rintro first links rfl
    exact Expr.need_chain_le_iff

/-- The tree of the line `(2)`. -/
def groupedTwo : Expr :=
  .group ⟨.leftParen, "(", some ⟨0, 1⟩⟩ (.atom ⟨.number, "2", some ⟨1, 2⟩⟩)
    ⟨.rightParen, ")", some ⟨2, 3⟩⟩

theorem depth_limit_exact_groupedTwo :
    Phrase (Source.line (.ofLine '.' "(2)")).endless groupedTwo.tokens groupedTwo ∧
      (Parser.ofSource (.line (.ofLine '.' "(2)")) 1).ObeysLimit grammar Expr.interpretation
        groupedTwo groupedTwo ∧ 1 < groupedTwo.need := by
  have hinner : Derives .sum [⟨.number, "2", some ⟨1, 2⟩⟩] (.atom ⟨.number, "2", some ⟨1, 2⟩⟩) :=
    .sum_of_product (.product_of_power (.power_of_unary (.number rfl)))
  have hwords : Derives .unary groupedTwo.tokens groupedTwo := .group rfl hinner rfl
  have h : Phrase (Source.line (.ofLine '.' "(2)")).endless groupedTwo.tokens groupedTwo := by
    refine ⟨hwords.loosen (by decide), ⟨rfl, rfl, rfl, rfl⟩, ?_⟩
    decide
  exact ⟨h, (depth_limit_exact h 1).1, by decide⟩

end Calculator

end Reckon

/-
**How deep an expression nests.**

The whole expression stands on level one, and so does everything on its left spine.  The inside of
a group, the operand of an operator in front, and the right operand of an operator in between stand
one level below the expression around them.  A limit on the number of levels is therefore no limit
on the length of a chain that groups to the left.

Main definitions:

* `Expr.need` — the number of levels of an expression;
* `Expr.Starts` — at which level, and how many tokens behind the start, some part starts;
* `Expr.overflow` — the first token that starts a part below the given number of levels;
* `Expr.chain` — a chain of operators that groups to the left.

Main results:

* `Expr.overflow_eq_none_iff` — no part is too low exactly if there are enough levels;
* `Expr.isLeast_of_overflow` — **the overflow is the first start** of a part one level too low;
* `Expr.need_chain_le_iff` — the length of a chain costs no levels.
-/

import Mathlib.Order.Bounds.Defs
import Reckon.Expr

set_option autoImplicit false
set_option relaxedAutoImplicit false

namespace Reckon

namespace Expr

/-- The number of levels of an expression. -/
def need : Expr → Nat
  | atom _ => 1
  | group _ inner _ => 1 + inner.need
  | unary _ operand => 1 + operand.need
  | binary left _ right => max left.need (1 + right.need)
  | postfixed operand _ => operand.need

theorem need_pos (e : Expr) : 0 < e.need := by
  induction e with
  | atom t => exact Nat.one_pos
  | group opening inner closing ih => exact Nat.add_pos_left Nat.one_pos _
  | unary op operand ih => exact Nat.add_pos_left Nat.one_pos _
  | binary left op right ihl ihr => exact Nat.lt_of_lt_of_le ihl (Nat.le_max_left _ _)
  | postfixed operand op ih => exact ih

/-- A part of the expression on the given level starts the given number of tokens behind the start
of the expression. -/
inductive Starts : Expr → Nat → Nat → Prop
  | root (e : Expr) : Starts e 1 0
  | group {opening closing : Token} {inner : Expr} {level k : Nat} :
      Starts inner level k → Starts (group opening inner closing) (level + 1) (k + 1)
  | unary {op : Token} {operand : Expr} {level k : Nat} :
      Starts operand level k → Starts (unary op operand) (level + 1) (k + 1)
  | left {op : Token} {left right : Expr} {level k : Nat} :
      Starts left level k → Starts (binary left op right) level k
  | right {op : Token} {left right : Expr} {level k : Nat} :
      Starts right level k →
        Starts (binary left op right) (level + 1) (left.tokens.length + 1 + k)
  | postfixed {op : Token} {operand : Expr} {level k : Nat} :
      Starts operand level k → Starts (postfixed operand op) level k

/-- The place of the first token that starts a part for which `levels` levels are too few. -/
def overflow : Nat → Expr → Option Nat
  | 0, _ => some 0
  | _ + 1, atom _ => none
  | m + 1, group _ inner _ => (inner.overflow m).map (· + 1)
  | m + 1, unary _ operand => (operand.overflow m).map (· + 1)
  | m + 1, binary left _ right =>
      match left.overflow (m + 1) with
      | some k => some k
      | none => (right.overflow m).map (left.tokens.length + 1 + ·)
  | m + 1, postfixed operand _ => operand.overflow (m + 1)

@[simp] theorem overflow_zero (e : Expr) : e.overflow 0 = some 0 := by
  cases e <;> rfl

/-- There are enough levels exactly if no part is too low. -/
theorem overflow_eq_none_iff {e : Expr} {m : Nat} : e.overflow m = none ↔ e.need ≤ m := by
  induction m, e using overflow.induct with
  | case1 e =>
      have := e.need_pos
      simp only [overflow_zero, reduceCtorEq, false_iff]
      omega
  | case2 m t => simp [overflow, need]
  | case3 m opening inner closing ih =>
      rw [overflow, Option.map_eq_none_iff, ih, need]
      omega
  | case4 m op operand ih =>
      rw [overflow, Option.map_eq_none_iff, ih, need]
      omega
  | case5 m left op right k hl ihl =>
      simp only [hl, reduceCtorEq, false_iff] at ihl
      simp only [overflow, hl, reduceCtorEq, need, false_iff]
      omega
  | case6 m left op right hl ihl ihr =>
      have hn := ihl.1 hl
      simp only [overflow, hl, Option.map_eq_none_iff, ihr, need]
      omega
  | case7 m operand op ih => exact ih

/-- An overflow lies inside the expression. -/
theorem overflow_lt {e : Expr} {m k : Nat} (h : e.overflow m = some k) : k < e.tokens.length := by
  induction m, e using overflow.induct generalizing k with
  | case1 e =>
      rw [overflow_zero, Option.some.injEq] at h
      rw [← h]
      exact List.length_pos_iff.2 e.tokens_ne_nil
  | case2 m t => exact absurd h (by simp [overflow])
  | case3 m opening inner closing ih =>
      obtain ⟨j, hj, rfl⟩ := Option.map_eq_some_iff.1 h
      have := ih hj
      simp only [tokens, List.length_append, List.length_cons]
      omega
  | case4 m op operand ih =>
      obtain ⟨j, hj, rfl⟩ := Option.map_eq_some_iff.1 h
      exact Nat.succ_lt_succ (ih hj)
  | case5 m left op right j hl ihl =>
      simp only [overflow, hl, Option.some.injEq] at h
      have := ihl hl
      simp only [tokens, List.length_append, List.length_cons]
      omega
  | case6 m left op right hl ihl ihr =>
      simp only [overflow, hl] at h
      obtain ⟨j, hj, rfl⟩ := Option.map_eq_some_iff.1 h
      have := ihr hj
      simp only [tokens, List.length_append, List.length_cons]
      omega
  | case7 m operand op ih =>
      have := ih h
      simp only [tokens, List.length_append]
      omega

theorem starts_of_overflow {e : Expr} {m k : Nat} (h : e.overflow m = some k) :
    e.Starts (m + 1) k := by
  induction m, e using overflow.induct generalizing k with
  | case1 e =>
      rw [overflow_zero, Option.some.injEq] at h
      rw [← h]
      exact .root e
  | case2 m t => exact absurd h (by simp [overflow])
  | case3 m opening inner closing ih =>
      obtain ⟨j, hj, rfl⟩ := Option.map_eq_some_iff.1 h
      exact .group (ih hj)
  | case4 m op operand ih =>
      obtain ⟨j, hj, rfl⟩ := Option.map_eq_some_iff.1 h
      exact .unary (ih hj)
  | case5 m left op right j hl ihl =>
      simp only [overflow, hl, Option.some.injEq] at h
      rw [← h]
      exact .left (ihl hl)
  | case6 m left op right hl ihl ihr =>
      simp only [overflow, hl] at h
      obtain ⟨j, hj, rfl⟩ := Option.map_eq_some_iff.1 h
      exact .right (ihr hj)
  | case7 m operand op ih => exact .postfixed (ih h)

/-- Nothing on the level starts before the overflow. -/
theorem overflow_le_of_starts {e : Expr} {m k : Nat} (h : e.Starts (m + 1) k) :
    ∃ j, e.overflow m = some j ∧ j ≤ k := by
  induction m, e using overflow.induct generalizing k with
  | case1 e => exact ⟨0, overflow_zero e, Nat.zero_le k⟩
  | case2 m t => cases h
  | case3 m opening inner closing ih =>
      cases h with
      | group h' =>
          obtain ⟨j, hj, hle⟩ := ih h'
          exact ⟨j + 1, by simp [overflow, hj], Nat.succ_le_succ hle⟩
  | case4 m op operand ih =>
      cases h with
      | unary h' =>
          obtain ⟨j, hj, hle⟩ := ih h'
          exact ⟨j + 1, by simp [overflow, hj], Nat.succ_le_succ hle⟩
  | case5 m left op right i hl ihl =>
      -- the left operand comes first, so its overflow goes first
      refine ⟨i, by simp [overflow, hl], ?_⟩
      cases h with
      | left h' =>
          obtain ⟨j, hj, hle⟩ := ihl h'
          rw [hl, Option.some.injEq] at hj
          rwa [hj]
      | right h' =>
          have := overflow_lt hl
          omega
  | case6 m left op right hl ihl ihr =>
      cases h with
      | left h' =>
          obtain ⟨j, hj, -⟩ := ihl h'
          rw [hl] at hj
          exact absurd hj (by simp)
      | right h' =>
          obtain ⟨j, hj, hle⟩ := ihr h'
          exact ⟨left.tokens.length + 1 + j, by simp [overflow, hl, hj], by omega⟩
  | case7 m operand op ih =>
      cases h with
      | postfixed h' => exact ih h'

theorem isLeast_of_overflow {e : Expr} {m k : Nat} (h : e.overflow m = some k) :
    IsLeast {k | e.Starts (m + 1) k} k := by
  refine ⟨starts_of_overflow h, ?_⟩
  intro k' hk'
  obtain ⟨j, hj, hle⟩ := overflow_le_of_starts hk'
  rw [h] at hj
  cases hj
  exact hle

/-- If there are too few levels, some token is the first to start a part that is too low. -/
theorem exists_overflow {e : Expr} {m : Nat} (h : m < e.need) : ∃ k, e.overflow m = some k := by
  cases hk : e.overflow m with
  | some k => exact ⟨k, rfl⟩
  | none => exact absurd (overflow_eq_none_iff.1 hk) (Nat.not_le_of_lt h)

/-! ### Chains -/

/-- The tree of a chain of operators that groups to the left. -/
def chain (first : Expr) (links : List (Token × Expr)) : Expr :=
  links.foldl (fun left link => binary left link.1 link.2) first

/-- However long a chain is, it needs no more levels than its first operand, or one more than its
deepest right operand. -/
theorem need_chain_le_iff {first : Expr} {links : List (Token × Expr)} {m : Nat} :
    (chain first links).need ≤ m ↔ first.need ≤ m ∧ ∀ link ∈ links, link.2.need + 1 ≤ m := by
  induction links generalizing first with
  | nil => simp [chain]
  | cons link links ih =>
      have hneed : (binary first link.1 link.2).need ≤ m ↔
          first.need ≤ m ∧ link.2.need + 1 ≤ m := by
        rw [need]
        omega
      rw [chain, List.foldl_cons, ← chain, ih, hneed, List.forall_mem_cons, and_assoc]

end Expr

end Reckon

/-
**Where the parts of an expression may stand.**

Precedences decide which tree a row of tokens stands for, and the decision can be told from the
tree alone.  An expression has *seats*: the whole tree, the inside of every group, the operand of
every operator in front, and the right operand of every operator in between.  Each seat has a
threshold, an occupant, and a token that follows the occupant.  A seat is respected if the
operators on the left spine of its occupant bind tighter than the threshold and the follower does
not.  Left operands have no seats of their own: they belong to the left spine of the seat around
them.

Main definitions:

* `Expr.Matches` — every token of the tree has the rule that its part in the tree calls for;
* `Expr.spine`, `Seat`, `Expr.seats`, `Seat.Respected` — the description above;
* `Expr.Placed` — a tree whose tokens open a tape, and whose seats are all respected;
* `Expr.Fits` — the same as a family of rules, one for each kind of tree.

Main results:

* `Expr.fits_iff` — **the rules say what the seats say**;
* `Expr.Fits.le_succ_of_ends` — where a tape holds nothing but ends of the input, at most one of
  them belongs to a tree that fits.
-/

import Reckon.Expr
import Reckon.Proofs.Tape

set_option autoImplicit false
set_option relaxedAutoImplicit false

namespace Reckon

namespace Grammar

/-- The threshold that a kind of operator sets for the operand behind it, where the operator stands
in front. -/
def operandThreshold (g : Grammar) (k : Kind) : Nat :=
  match g.prefixRule? k with
  | some (.unary threshold) => threshold
  | _ => 0

/-- The threshold that a kind of operator sets for its right operand. -/
def rightThreshold (g : Grammar) (k : Kind) : Nat :=
  match g.infixRule? k with
  | some (.binary prec assoc) => assoc.rightThreshold prec
  | _ => 0

theorem operandThreshold_eq {g : Grammar} {k : Kind} {m : Nat}
    (h : g.prefixRule? k = some (.unary m)) : g.operandThreshold k = m := by
  simp [operandThreshold, h]

theorem rightThreshold_eq {g : Grammar} {k : Kind} {prec : Nat} {assoc : Assoc}
    (h : g.infixRule? k = some (.binary prec assoc)) :
    g.rightThreshold k = assoc.rightThreshold prec := by
  simp [rightThreshold, h]

end Grammar

namespace Expr

/-- The kind of every token has the rule that the part of the token in the tree calls for. -/
def Matches (g : Grammar) : Expr → Prop
  | atom t => g.prefixRule? t.kind = some .atom
  | group opening inner closing =>
      g.prefixRule? opening.kind = some .group ∧ inner.Matches g ∧ closing.kind = .rightParen
  | unary op operand => (∃ m, g.prefixRule? op.kind = some (.unary m)) ∧ operand.Matches g
  | binary left op right =>
      (∃ prec assoc, g.infixRule? op.kind = some (.binary prec assoc)) ∧
        left.Matches g ∧ right.Matches g
  | postfixed operand op =>
      (∃ prec, g.infixRule? op.kind = some (.postfixed prec)) ∧ operand.Matches g

/-- The operators that are met on the way from the root to the leftmost operand, as long as they
stand behind an expression. -/
def spine : Expr → List Token
  | atom _ => []
  | group _ _ _ => []
  | unary _ _ => []
  | binary left op _ => op :: left.spine
  | postfixed operand op => op :: operand.spine

end Expr

/-- A place in an expression that holds an expression read with a threshold of its own, and the
token right behind it. -/
structure Seat where
  threshold : Nat
  occupant : Expr
  follower : Token

/-- The operators on the left spine of the occupant bind tighter than the threshold, and the
follower does not. -/
def Seat.Respected (g : Grammar) (s : Seat) : Prop :=
  (∀ op ∈ s.occupant.spine, s.threshold < g.precedenceOf op.kind) ∧
    g.precedenceOf s.follower.kind ≤ s.threshold

namespace Expr

/-- The seats inside a tree that is followed by `next`. -/
def innerSeats (g : Grammar) : Expr → Token → List Seat
  | atom _, _ => []
  | group _ inner closing, _ => ⟨0, inner, closing⟩ :: inner.innerSeats g closing
  | unary op operand, next =>
      ⟨g.operandThreshold op.kind, operand, next⟩ :: operand.innerSeats g next
  | binary left op right, next =>
      left.innerSeats g op ++
        ⟨g.rightThreshold op.kind, right, next⟩ :: right.innerSeats g next
  | postfixed operand op, _ => operand.innerSeats g op

/-- The seats of a tree that is read with `threshold` and followed by `next`. -/
def seats (g : Grammar) (threshold : Nat) (e : Expr) (next : Token) : List Seat :=
  ⟨threshold, e, next⟩ :: e.innerSeats g next

/-- The tokens of the tree are `w`, the tape starts with them, and every seat is respected. -/
structure Placed (g : Grammar) (threshold : Nat) (S : Tape) (w : List Token) (e : Expr) : Prop where
  matched : e.Matches g
  tokens_eq : e.tokens = w
  spells : S.Spells 0 w w.length
  respected : ∀ s ∈ e.seats g threshold (S w.length), s.Respected g

/-! ### The rules of placement -/

/-- The tree is well placed on the left spine of a seat with the given threshold, in front of the
given token. -/
inductive Fits (g : Grammar) : Nat → Expr → Token → Prop
  | atom {θ : Nat} {t next : Token} : g.prefixRule? t.kind = some .atom → Fits g θ (atom t) next
  | group {θ : Nat} {opening closing next : Token} {inner : Expr} :
      g.prefixRule? opening.kind = some .group → Fits g 0 inner closing →
      g.precedenceOf closing.kind ≤ 0 → closing.kind = .rightParen →
      Fits g θ (group opening inner closing) next
  | unary {θ m : Nat} {op next : Token} {operand : Expr} :
      g.prefixRule? op.kind = some (.unary m) → Fits g m operand next →
      g.precedenceOf next.kind ≤ m → Fits g θ (unary op operand) next
  | binary {θ prec : Nat} {assoc : Assoc} {op next : Token} {left right : Expr} :
      g.infixRule? op.kind = some (.binary prec assoc) → θ < prec → Fits g θ left op →
      Fits g (assoc.rightThreshold prec) right next →
      g.precedenceOf next.kind ≤ assoc.rightThreshold prec → Fits g θ (binary left op right) next
  | postfixed {θ prec : Nat} {op next : Token} {operand : Expr} :
      g.infixRule? op.kind = some (.postfixed prec) → θ < prec → Fits g θ operand op →
      Fits g θ (postfixed operand op) next

/-- A tree that fits in front of one token fits in front of every token that binds less tightly. -/
theorem Fits.of_precedence_le {g : Grammar} {θ : Nat} {e : Expr} {next next' : Token}
    (h : e.Fits g θ next) (hle : g.precedenceOf next'.kind ≤ g.precedenceOf next.kind) :
    e.Fits g θ next' := by
  induction h with
  | atom hr => exact .atom hr
  | group hr hfit hle' hc _ => exact .group hr hfit hle' hc
  | unary hr _ hle' ih => exact .unary hr (ih hle) (Nat.le_trans hle hle')
  | binary hr hlt hfit _ hle' _ ih =>
      exact .binary hr hlt hfit (ih hle) (Nat.le_trans hle hle')
  | postfixed hr hlt hfit _ => exact .postfixed hr hlt hfit

/-- What the description by seats says of a tree on a left spine. -/
def Suits (g : Grammar) (θ : Nat) (e : Expr) (next : Token) : Prop :=
  e.Matches g ∧ (∀ op ∈ e.spine, θ < g.precedenceOf op.kind) ∧
    ∀ s ∈ e.innerSeats g next, s.Respected g

theorem suits_of_fits {g : Grammar} {θ : Nat} {e : Expr} {next : Token} (h : e.Fits g θ next) :
    e.Suits g θ next := by
  induction h with
  | atom hr => exact ⟨hr, by simp [spine], by simp [innerSeats]⟩
  | group hr _ hle hc ih =>
      obtain ⟨hm, hs, hi⟩ := ih
      refine ⟨⟨hr, hm, hc⟩, by simp [spine], ?_⟩
      intro s hmem
      rcases List.mem_cons.1 hmem with rfl | hmem
      · exact ⟨hs, hle⟩
      · exact hi s hmem
  | unary hr _ hle ih =>
      obtain ⟨hm, hs, hi⟩ := ih
      refine ⟨⟨⟨_, hr⟩, hm⟩, by simp [spine], ?_⟩
      intro s hmem
      rw [innerSeats, Grammar.operandThreshold_eq hr] at hmem
      rcases List.mem_cons.1 hmem with rfl | hmem
      · exact ⟨hs, hle⟩
      · exact hi s hmem
  | binary hr hlt _ _ hle ihl ihr =>
      obtain ⟨hml, hsl, hil⟩ := ihl
      obtain ⟨hmr, hsr, hir⟩ := ihr
      refine ⟨⟨⟨_, _, hr⟩, hml, hmr⟩, ?_, ?_⟩
      · intro op hop
        rcases List.mem_cons.1 hop with rfl | hop
        · rwa [Grammar.precedenceOf_some hr]
        · exact hsl op hop
      · intro s hmem
        rw [innerSeats, Grammar.rightThreshold_eq hr] at hmem
        rcases List.mem_append.1 hmem with hmem | hmem
        · exact hil s hmem
        · rcases List.mem_cons.1 hmem with rfl | hmem
          · exact ⟨hsr, hle⟩
          · exact hir s hmem
  | postfixed hr hlt _ ih =>
      obtain ⟨hm, hs, hi⟩ := ih
      refine ⟨⟨⟨_, hr⟩, hm⟩, ?_, hi⟩
      intro op hop
      rcases List.mem_cons.1 hop with rfl | hop
      · rwa [Grammar.precedenceOf_some hr]
      · exact hs op hop

theorem fits_of_suits {g : Grammar} {θ : Nat} {e : Expr} {next : Token} (h : e.Suits g θ next) :
    e.Fits g θ next := by
  induction e generalizing θ next with
  | atom t => exact .atom h.1
  | group opening inner closing ih =>
      obtain ⟨⟨hr, hm, hc⟩, -, hi⟩ := h
      obtain ⟨hs, hle⟩ := hi _ (List.mem_cons_self ..)
      refine .group hr (ih ⟨hm, hs, ?_⟩) hle hc
      intro s hmem
      exact hi s (List.mem_cons_of_mem _ hmem)
  | unary op operand ih =>
      obtain ⟨⟨⟨m, hr⟩, hm⟩, -, hi⟩ := h
      rw [innerSeats, Grammar.operandThreshold_eq hr] at hi
      obtain ⟨hs, hle⟩ := hi _ (List.mem_cons_self ..)
      refine .unary hr (ih ⟨hm, hs, ?_⟩) hle
      intro s hmem
      exact hi s (List.mem_cons_of_mem _ hmem)
  | binary left op right ihl ihr =>
      obtain ⟨⟨⟨prec, assoc, hr⟩, hml, hmr⟩, hsp, hi⟩ := h
      rw [innerSeats, Grammar.rightThreshold_eq hr] at hi
      have hlt := hsp op (List.mem_cons_self ..)
      rw [Grammar.precedenceOf_some hr] at hlt
      obtain ⟨hsr, hle⟩ := hi _ (List.mem_append_right _ (List.mem_cons_self ..))
      refine .binary hr hlt (ihl ⟨hml, ?_, ?_⟩) (ihr ⟨hmr, hsr, ?_⟩) hle
      · intro op' hop
        exact hsp op' (List.mem_cons_of_mem _ hop)
      · intro s hmem
        exact hi s (List.mem_append_left _ hmem)
      · intro s hmem
        exact hi s (List.mem_append_right _ (List.mem_cons_of_mem _ hmem))
  | postfixed operand op ih =>
      obtain ⟨⟨⟨prec, hr⟩, hm⟩, hsp, hi⟩ := h
      have hlt := hsp op (List.mem_cons_self ..)
      rw [Grammar.precedenceOf_some hr] at hlt
      refine .postfixed hr hlt (ih ⟨hm, ?_, hi⟩)
      intro op' hop
      exact hsp op' (List.mem_cons_of_mem _ hop)

/-- The rules say of a tree that is read with a threshold what its seats say. -/
theorem fits_iff {g : Grammar} {θ : Nat} {e : Expr} {next : Token} :
    e.Fits g θ next ∧ g.precedenceOf next.kind ≤ θ ↔
      e.Matches g ∧ ∀ s ∈ e.seats g θ next, s.Respected g := by
  constructor
  · rintro ⟨hfit, hle⟩
    obtain ⟨hm, hs, hi⟩ := suits_of_fits hfit
    refine ⟨hm, ?_⟩
    intro s hmem
    rcases List.mem_cons.1 hmem with rfl | hmem
    · exact ⟨hs, hle⟩
    · exact hi s hmem
  · rintro ⟨hm, hi⟩
    obtain ⟨hs, hle⟩ := hi _ (List.mem_cons_self ..)
    refine ⟨fits_of_suits ⟨hm, hs, ?_⟩, hle⟩
    intro s hmem
    exact hi s (List.mem_cons_of_mem _ hmem)

/-! ### Trees on a tape -/

section Spelled

variable {S : Tape} {i k : Nat}

theorem spells_atom {t : Token} : S.Spells i (atom t).tokens k ↔ S i = t ∧ i + 1 = k := Iff.rfl

theorem spells_group {opening closing : Token} {inner : Expr} :
    S.Spells i (group opening inner closing).tokens k ↔
      S i = opening ∧ ∃ j, S.Spells (i + 1) inner.tokens j ∧ S j = closing ∧ j + 1 = k :=
  and_congr_right fun _ => Tape.spells_append

theorem spells_unary {op : Token} {operand : Expr} :
    S.Spells i (unary op operand).tokens k ↔ S i = op ∧ S.Spells (i + 1) operand.tokens k :=
  Iff.rfl

theorem spells_binary {op : Token} {left right : Expr} :
    S.Spells i (binary left op right).tokens k ↔
      ∃ j, S.Spells i left.tokens j ∧ S j = op ∧ S.Spells (j + 1) right.tokens k :=
  Tape.spells_append

theorem spells_postfixed {op : Token} {operand : Expr} :
    S.Spells i (postfixed operand op).tokens k ↔
      ∃ j, S.Spells i operand.tokens j ∧ S j = op ∧ j + 1 = k :=
  Tape.spells_append

theorem lt_of_spells {e : Expr} (h : S.Spells i e.tokens k) : i < k := by
  have hlen := h.eq_add
  have hpos := List.length_pos_iff.2 e.tokens_ne_nil
  omega

/-- A tree that takes up one place is an operand by itself. -/
theorem eq_atom_of_spells {e : Expr} (h : S.Spells i e.tokens (i + 1)) : e = .atom (S i) := by
  cases e with
  | atom t => rw [(spells_atom.1 h).1]
  | group opening inner closing =>
      obtain ⟨-, j, hj, -, hk⟩ := spells_group.1 h
      have := lt_of_spells hj
      omega
  | unary op operand =>
      have := lt_of_spells (spells_unary.1 h).2
      omega
  | binary left op right =>
      obtain ⟨j, hl, -, hr⟩ := spells_binary.1 h
      have := lt_of_spells hl
      have := lt_of_spells hr
      omega
  | postfixed operand op =>
      obtain ⟨j, hj, -, hk⟩ := spells_postfixed.1 h
      have := lt_of_spells hj
      omega

end Spelled

/-- In front of an end of the input, an operator that binds tighter than the threshold is no end of
the input itself. -/
theorem lt_of_infixRule {g : Grammar} {S : Tape} {last θ k : Nat} {next : Token} {rule : InfixRule}
    (hlast : ∀ k, last ≤ k → (S k).kind = .endOfInput) (hnext : next.kind = .endOfInput)
    (hle : g.precedenceOf next.kind ≤ θ) (hr : g.infixRule? (S k).kind = some rule)
    (hlt : θ < rule.precedence) : k < last := by
  refine Nat.lt_of_not_le ?_
  intro hge
  rw [hlast k hge, ← hnext] at hr
  rw [Grammar.precedenceOf_some hr] at hle
  exact absurd hlt (Nat.not_lt_of_le hle)

/-- Where a tape holds nothing but ends of the input, at most one of them belongs to a tree that
fits in front of another.  Were an end an operator behind an expression, so would be the token
that follows the tree; were it one in front, its operand would be an end as well. -/
theorem Fits.le_succ_of_ends {g : Grammar} {S : Tape} {last θ : Nat} {e : Expr} {next : Token}
    (hlast : ∀ k, last ≤ k → (S k).kind = .endOfInput) (h : e.Fits g θ next)
    (hnext : next.kind = .endOfInput) (hle : g.precedenceOf next.kind ≤ θ) {i j : Nat}
    (hw : S.Spells i e.tokens j) : j ≤ max last i + 1 := by
  induction h generalizing i with
  | atom _ =>
      have := (spells_atom.1 hw).2
      omega
  | group _ _ _ hc _ =>
      obtain ⟨-, k, -, rfl, hk⟩ := spells_group.1 hw
      have hlt : k < last := by
        refine Nat.lt_of_not_le ?_
        intro hge
        rw [hlast k hge] at hc
        exact absurd hc (by simp)
      omega
  | unary hr hfit hle' ih =>
      obtain ⟨rfl, hop⟩ := spells_unary.1 hw
      have hj := ih hnext hle' hop
      rcases Nat.lt_or_ge i last with hi | hi
      · omega
      · -- the operator is an end of the input, so its operand cannot be one
        have hne : j ≠ i + 2 := by
          rintro rfl
          cases eq_atom_of_spells hop
          cases hfit with
          | atom hr' =>
              rw [hlast i hi] at hr
              rw [hlast (i + 1) (by omega), hr] at hr'
              exact absurd hr' (by simp)
        omega
  | binary hr hlt _ _ hle' _ ih =>
      obtain ⟨k, -, rfl, hright⟩ := spells_binary.1 hw
      have hj := ih hnext hle' hright
      have hk' := lt_of_infixRule hlast hnext hle hr hlt
      omega
  | postfixed hr hlt _ _ =>
      obtain ⟨k, -, rfl, hk⟩ := spells_postfixed.1 hw
      have hk' := lt_of_infixRule hlast hnext hle hr hlt
      omega

end Expr

end Reckon

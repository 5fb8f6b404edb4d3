/-
**The language of the calculator.**

The calculator's table of precedences stands for a grammar in layers: sums of products, products of
powers, powers of signed operands, and operands, which are numbers or sums between parentheses.
Sums and products group to the left and are written here by rules that recur on the left; powers
group to the right.  A sign belongs to the operand behind it and to nothing else.

A tree of the grammar is well placed in front of every token that is no operator, and a tree that
is well placed there is one of the grammar.  In between, a layer is told by two numbers: the
operators of the layer exceed every threshold below the first one, and the follower of a tree of
the layer may bind as tightly as the second one says.

Main definitions:

* `Calculator.Symbol`, `Calculator.Derives` — the layers, and the words that they derive;
* `Calculator.Phrase` — a stream that opens with a sum and goes on with no operator;
* `Calculator.Denotes` — the value of a tree, by what its operators stand for.

Main results:

* `Calculator.fits_of_derives`, `Calculator.derives_of_fits` — the layers and the precedences;
* `Calculator.phrase_iff` — a phrase is a tree that leads the stream;
* `Calculator.denotes_iff` — what the rules compute is what a tree denotes;
* `Calculator.exists_denotes_of_phrase` — on a line every phrase has a value;
* `Calculator.parse_iff_phrase` — **the calculator reads its language**, all of it and nothing
  else.
-/

import Reckon.Calculator
import Reckon.Proofs.Endless
import Reckon.Proofs.Numbers
import Reckon.Proofs.Precedence

set_option autoImplicit false
set_option relaxedAutoImplicit false

namespace Reckon

namespace Calculator

/-- The layers of the grammar. -/
inductive Symbol where
  | sum
  | product
  | power
  | unary
deriving DecidableEq, Repr

/-- The layer derives the words, with the tree that groups them. -/
inductive Derives : Symbol → List Token → Expr → Prop
  | sum_of_product {w : List Token} {e : Expr} : Derives .product w e → Derives .sum w e
  | sum {u v : List Token} {op : Token} {l r : Expr} :
      Derives .sum u l → op.kind = .plus ∨ op.kind = .minus → Derives .product v r →
        Derives .sum (u ++ op :: v) (.binary l op r)
  | product_of_power {w : List Token} {e : Expr} : Derives .power w e → Derives .product w e
  | product {u v : List Token} {op : Token} {l r : Expr} :
      Derives .product u l → op.kind = .asterisk ∨ op.kind = .slash → Derives .power v r →
        Derives .product (u ++ op :: v) (.binary l op r)
  | power_of_unary {w : List Token} {e : Expr} : Derives .unary w e → Derives .power w e
  | power {u v : List Token} {op : Token} {l r : Expr} :
      Derives .unary u l → op.kind = .caret → Derives .power v r →
        Derives .power (u ++ op :: v) (.binary l op r)
  | sign {w : List Token} {op : Token} {e : Expr} :
      op.kind = .plus ∨ op.kind = .minus → Derives .unary w e →
        Derives .unary (op :: w) (.unary op e)
  | number {t : Token} : t.kind = .number → Derives .unary [t] (.atom t)
  | group {w : List Token} {opening closing : Token} {e : Expr} :
      opening.kind = .leftParen → Derives .sum w e → closing.kind = .rightParen →
        Derives .unary (opening :: w ++ [closing]) (.group opening e closing)

/-- The words of a derivation are the tokens of its tree. -/
theorem tokens_of_derives {s : Symbol} {w : List Token} {e : Expr} (h : Derives s w e) :
    e.tokens = w := by
  induction h with
  | sum_of_product _ ih => exact ih
  | sum _ _ _ ihl ihr => rw [Expr.tokens, ihl, ihr]
  | product_of_power _ ih => exact ih
  | product _ _ _ ihl ihr => rw [Expr.tokens, ihl, ihr]
  | power_of_unary _ ih => exact ih
  | power _ _ _ ihl ihr => rw [Expr.tokens, ihl, ihr]
  | sign _ _ ih => rw [Expr.tokens, ih]
  | number _ => rfl
  | group _ _ _ ih => rw [Expr.tokens, ih]

/-! ### The rules of the calculator -/

/-- The kinds that are operators behind an expression. -/
def operators : List Kind := [.plus, .minus, .asterisk, .slash, .caret]

theorem precedenceOf_eq_zero_iff {k : Kind} :
    grammar.precedenceOf k = 0 ↔ k ∉ operators := by
  cases k <;> decide

theorem precedenceOf_le (k : Kind) : grammar.precedenceOf k ≤ 5 := by
  cases k <;> decide

theorem prefixRule_atom {k : Kind} : grammar.prefixRule? k = some .atom ↔ k = .number := by
  cases k <;> simp [grammar, prefixRule?]

theorem prefixRule_group {k : Kind} : grammar.prefixRule? k = some .group ↔ k = .leftParen := by
  cases k <;> simp [grammar, prefixRule?]

theorem prefixRule_unary {k : Kind} {m : Nat} :
    grammar.prefixRule? k = some (.unary m) ↔ (k = .plus ∨ k = .minus) ∧ m = 6 := by
  cases k <;> simp [grammar, prefixRule?, Level.precedence, eq_comm]

theorem infixRule_binary {k : Kind} {prec : Nat} {assoc : Assoc} :
    grammar.infixRule? k = some (.binary prec assoc) ↔
      (k = .plus ∨ k = .minus) ∧ prec = 3 ∧ assoc = .left ∨
        (k = .asterisk ∨ k = .slash) ∧ prec = 4 ∧ assoc = .left ∨
          k = .caret ∧ prec = 5 ∧ assoc = .right := by
  cases k <;> simp [grammar, infixRule?, Level.precedence, eq_comm]

theorem infixRule_postfixed {k : Kind} {prec : Nat} :
    grammar.infixRule? k ≠ some (.postfixed prec) := by
  cases k <;> simp [grammar, infixRule?]

/-! ### Layers and precedences -/

/-- The operators of the layer and of the tighter ones exceed every smaller threshold. -/
def Symbol.level : Symbol → Nat
  | sum => 3
  | product => 4
  | power => 5
  | unary => 7

/-- The precedence that the follower of a tree of the layer may have. -/
def Symbol.reach : Symbol → Nat
  | sum => 3
  | product => 4
  | power => 4
  | unary => 6

/-- A looser layer derives what a tighter one does. -/
theorem Derives.loosen {s s' : Symbol} {w : List Token} {e : Expr} (h : Derives s w e)
    (hle : s'.level ≤ s.level) : Derives s' w e := by
  cases s' with
  | sum =>
      cases s with
      | sum => exact h
      | product => exact .sum_of_product h
      | power => exact .sum_of_product (.product_of_power h)
      | unary => exact .sum_of_product (.product_of_power (.power_of_unary h))
  | product =>
      cases s with
      | sum => exact absurd hle (by decide)
      | product => exact h
      | power => exact .product_of_power h
      | unary => exact .product_of_power (.power_of_unary h)
  | power =>
      cases s with
      | sum => exact absurd hle (by decide)
      | product => exact absurd hle (by decide)
      | power => exact h
      | unary => exact .power_of_unary h
  | unary =>
      cases s with
      | unary => exact h
      | _ => exact absurd hle (by decide)

/-- A tree of a layer fits wherever the layer may stand. -/
theorem fits_of_derives {s : Symbol} {w : List Token} {e : Expr} (h : Derives s w e) {θ : Nat}
    {next : Token} (hθ : θ < s.level) (hnext : grammar.precedenceOf next.kind ≤ s.reach) :
    e.Fits grammar θ next := by
  induction h generalizing θ next with
  | sum_of_product _ ih => exact ih (Nat.lt_succ_of_lt hθ) (Nat.le_succ_of_le hnext)
  | sum _ hop _ ihl ihr =>
      have hr := infixRule_binary.2 (Or.inl ⟨hop, rfl, rfl⟩)
      have hprec := Grammar.precedenceOf_some hr
      refine .binary hr hθ (ihl hθ ?_) (ihr (by decide) (Nat.le_succ_of_le hnext)) hnext
      rw [hprec]
      decide
  | product_of_power _ ih => exact ih (Nat.lt_succ_of_lt hθ) hnext
  | product _ hop _ ihl ihr =>
      have hr := infixRule_binary.2 (Or.inr (Or.inl ⟨hop, rfl, rfl⟩))
      have hprec := Grammar.precedenceOf_some hr
      refine .binary hr hθ (ihl hθ ?_) (ihr (by decide) hnext) hnext
      rw [hprec]
      decide
  | power_of_unary _ ih =>
      refine ih (Nat.lt_trans hθ (by decide)) (Nat.le_trans hnext (by decide))
  | power _ hop _ ihl ihr =>
      have hr := infixRule_binary.2 (Or.inr (Or.inr ⟨hop, rfl, rfl⟩))
      have hprec := Grammar.precedenceOf_some hr
      refine .binary hr hθ (ihl (Nat.lt_trans hθ (by decide)) ?_) (ihr (by decide) hnext) hnext
      rw [hprec]
      decide
  | sign hop _ ih =>
      exact .unary (prefixRule_unary.2 ⟨hop, rfl⟩) (ih (by decide) hnext) hnext
  | number hk => exact .atom (prefixRule_atom.2 hk)
  | group ho _ hc ih =>
      have hzero : grammar.precedenceOf Kind.rightParen = 0 := rfl
      rw [← hc] at hzero
      exact .group (prefixRule_group.2 ho) (ih (by decide) (by omega)) (Nat.le_of_eq hzero) hc

/-- The layer of a tree, as its root tells it. -/
def symbolOf : Expr → Symbol
  | .binary _ op _ =>
      match op.kind with
      | .plus => .sum
      | .minus => .sum
      | .asterisk => .product
      | .slash => .product
      | .caret => .power
      | _ => .unary
  | _ => .unary

theorem symbolOf_sum {op : Token} {l r : Expr} (h : op.kind = .plus ∨ op.kind = .minus) :
    symbolOf (.binary l op r) = .sum := by
  rcases h with h | h <;> simp only [symbolOf, h]

theorem symbolOf_product {op : Token} {l r : Expr} (h : op.kind = .asterisk ∨ op.kind = .slash) :
    symbolOf (.binary l op r) = .product := by
  rcases h with h | h <;> simp only [symbolOf, h]

theorem symbolOf_power {op : Token} {l r : Expr} (h : op.kind = .caret) :
    symbolOf (.binary l op r) = .power := by
  simp only [symbolOf, h]

/-- The layer of a tree that fits lies above the threshold, and its follower is not too tight. -/
theorem symbolOf_of_fits {θ : Nat} {e : Expr} {next : Token} (h : e.Fits grammar θ next)
    (hθ : θ < 7) :
    θ < (symbolOf e).level ∧ grammar.precedenceOf next.kind ≤ (symbolOf e).reach := by
  have hnext := precedenceOf_le next.kind
  cases h with
  | atom _ => exact ⟨hθ, Nat.le_succ_of_le hnext⟩
  | group _ _ _ _ => exact ⟨hθ, Nat.le_succ_of_le hnext⟩
  | unary _ _ _ => exact ⟨hθ, Nat.le_succ_of_le hnext⟩
  | binary hr hlt _ _ hle =>
      rcases infixRule_binary.1 hr with ⟨hop, rfl, rfl⟩ | ⟨hop, rfl, rfl⟩ | ⟨hop, rfl, rfl⟩
      · rw [symbolOf_sum hop]
        exact ⟨hlt, hle⟩
      · rw [symbolOf_product hop]
        exact ⟨hlt, hle⟩
      · rw [symbolOf_power hop]
        exact ⟨hlt, hle⟩
  | postfixed hr _ _ => exact absurd hr infixRule_postfixed

/-- A layer with a tight follower is a tight one. -/
theorem Symbol.level_le_of_lt_reach {s : Symbol} {prec : Nat} (h : prec ≤ s.reach) :
    (3 < prec → product.level ≤ s.level) ∧ (4 < prec → unary.level ≤ s.level) := by
  cases s <;> simp only [reach, level] at h ⊢ <;> omega

theorem Symbol.sum_level_le (s : Symbol) : sum.level ≤ s.level := by
  cases s <;> decide

/-- A tree that fits anywhere is derived by its layer. -/
theorem derives_of_fits {θ : Nat} {e : Expr} {next : Token} (h : e.Fits grammar θ next) :
    Derives (symbolOf e) e.tokens e := by
  induction h with
  | atom hr => exact .number (prefixRule_atom.1 hr)
  | group hr _ _ hc ih =>
      exact .group (prefixRule_group.1 hr) (ih.loosen (Symbol.sum_level_le _)) hc
  | unary hr hfit _ ih =>
      obtain ⟨hop, rfl⟩ := prefixRule_unary.1 hr
      have hlevel := (symbolOf_of_fits hfit (by decide)).1
      exact .sign hop (ih.loosen hlevel)
  | @binary θ prec assoc op next l r hr hlt hfitl hfitr _ ihl ihr =>
      have hprec : grammar.precedenceOf op.kind = prec := Grammar.precedenceOf_some hr
      have hle := precedenceOf_le op.kind
      rw [hprec] at hle
      have hreach := (symbolOf_of_fits hfitl (by omega)).2
      rw [hprec] at hreach
      obtain ⟨hproduct, hunary⟩ := Symbol.level_le_of_lt_reach hreach
      -- the threshold of the right operand keeps looser operators out, the operator itself keeps
      -- them out of the left one
      rcases infixRule_binary.1 hr with ⟨hop, rfl, rfl⟩ | ⟨hop, rfl, rfl⟩ | ⟨hop, rfl, rfl⟩
      · have hright := (symbolOf_of_fits hfitr (by decide)).1
        rw [symbolOf_sum hop]
        exact .sum (ihl.loosen (Symbol.sum_level_le _)) hop (ihr.loosen hright)
      · have hright := (symbolOf_of_fits hfitr (by decide)).1
        rw [symbolOf_product hop]
        exact .product (ihl.loosen (hproduct (by decide))) hop (ihr.loosen hright)
      · have hright := (symbolOf_of_fits hfitr (by decide)).1
        rw [symbolOf_power hop]
        exact .power (ihl.loosen (hunary (by decide))) hop (ihr.loosen hright)
  | postfixed hr _ _ _ => exact absurd hr infixRule_postfixed

/-! ### Phrases -/

/-- The stream opens with the words `w`, a sum with the tree `e`, and no operator follows. -/
structure Phrase (S : Tape) (w : List Token) (e : Expr) : Prop where
  derives : Derives .sum w e
  spells : S.Spells 0 w w.length
  follower : (S w.length).kind ∉ operators

theorem phrase_iff {S : Tape} {w : List Token} {e : Expr} :
    Phrase S w e ↔ e.tokens = w ∧ e.Leads grammar 0 S := by
  constructor
  · rintro ⟨hd, hw, hf⟩
    obtain rfl := tokens_of_derives hd
    have hzero := precedenceOf_eq_zero_iff.2 hf
    refine ⟨rfl, hw, fits_of_derives hd (by decide) ?_, Nat.le_of_eq hzero⟩
    rw [hzero]
    exact Nat.zero_le _
  · rintro ⟨rfl, hw, hfit, hle⟩
    have hd := derives_of_fits hfit
    exact ⟨hd.loosen (Symbol.sum_level_le _), hw,
      precedenceOf_eq_zero_iff.1 (Nat.le_zero.1 hle)⟩

/-! ### Values -/

variable {α : Type}

/-- The value of a tree, by what its signs and operators stand for.  A group has the value of what
is inside, a plus sign that of its operand, and a number the one that its text is read as. -/
inductive Denotes (A : Arithmetic α) : Expr → α → Prop
  | number {t : Token} {a : α} : A.number t.text = .ok a → Denotes A (.atom t) a
  | group {opening closing : Token} {e : Expr} {a : α} :
      Denotes A e a → Denotes A (.group opening e closing) a
  | plusSign {op : Token} {e : Expr} {a : α} :
      op.kind = .plus → Denotes A e a → Denotes A (.unary op e) a
  | minusSign {op : Token} {e : Expr} {a : α} :
      op.kind = .minus → Denotes A e a → Denotes A (.unary op e) (A.neg a)
  | sum {op : Token} {l r : Expr} {a b : α} :
      op.kind = .plus → Denotes A l a → Denotes A r b → Denotes A (.binary l op r) (A.add a b)
  | difference {op : Token} {l r : Expr} {a b : α} :
      op.kind = .minus → Denotes A l a → Denotes A r b → Denotes A (.binary l op r) (A.sub a b)
  | product {op : Token} {l r : Expr} {a b : α} :
      op.kind = .asterisk → Denotes A l a → Denotes A r b → Denotes A (.binary l op r) (A.mul a b)
  | quotient {op : Token} {l r : Expr} {a b : α} :
      op.kind = .slash → Denotes A l a → Denotes A r b → Denotes A (.binary l op r) (A.div a b)
  | power {op : Token} {l r : Expr} {a b : α} :
      op.kind = .caret → Denotes A l a → Denotes A r b → Denotes A (.binary l op r) (A.pow a b)

theorem eval_of_denotes {A : Arithmetic α} {e : Expr} {a : α} (h : Denotes A e a) :
    e.eval A.interpretation = .ok a := by
  induction h with
  | number h => exact h
  | group _ ih => exact Expr.eval_group_eq_ok.2 ⟨_, ih, rfl⟩
  | plusSign hop _ ih | minusSign hop _ ih =>
      refine Expr.eval_unary_eq_ok.2 ⟨_, ih, Arithmetic.unary_eq_ok.2 ?_⟩
      simp [hop]
  | sum hop _ _ ihl ihr | difference hop _ _ ihl ihr | product hop _ _ ihl ihr
  | quotient hop _ _ ihl ihr | power hop _ _ ihl ihr =>
      refine Expr.eval_binary_eq_ok.2 ⟨_, _, ihl, ihr, Arithmetic.binary_eq_ok.2 ?_⟩
      simp [hop]

theorem denotes_of_eval {A : Arithmetic α} {e : Expr} {a : α}
    (h : e.eval A.interpretation = .ok a) : Denotes A e a := by
  induction e generalizing a with
  | atom t => exact .number h
  | group opening inner closing ih =>
      obtain ⟨b, hb, rfl⟩ := Expr.eval_group_eq_ok.1 h
      exact .group (ih hb)
  | unary op operand ih =>
      obtain ⟨b, hb, hvalue⟩ := Expr.eval_unary_eq_ok.1 h
      rcases Arithmetic.unary_eq_ok.1 hvalue with ⟨hop, rfl⟩ | ⟨hop, rfl⟩
      · exact .plusSign hop (ih hb)
      · exact .minusSign hop (ih hb)
  | binary left op right ihl ihr =>
      obtain ⟨b, c, hb, hc, hvalue⟩ := Expr.eval_binary_eq_ok.1 h
      rcases Arithmetic.binary_eq_ok.1 hvalue with
        ⟨hop, rfl⟩ | ⟨hop, rfl⟩ | ⟨hop, rfl⟩ | ⟨hop, rfl⟩ | ⟨hop, rfl⟩
      · exact .sum hop (ihl hb) (ihr hc)
      · exact .difference hop (ihl hb) (ihr hc)
      · exact .product hop (ihl hb) (ihr hc)
      · exact .quotient hop (ihl hb) (ihr hc)
      · exact .power hop (ihl hb) (ihr hc)
  | postfixed operand op _ =>
      obtain ⟨b, -, hvalue⟩ := Expr.eval_postfixed_eq_ok.1 h
      cases hvalue

/-- What the rules of the calculator compute is what a tree denotes. -/
theorem denotes_iff {A : Arithmetic α} {e : Expr} {a : α} :
    Denotes A e a ↔ e.eval A.interpretation = .ok a := ⟨eval_of_denotes, denotes_of_eval⟩

/-- A tree denotes one value at most. -/
theorem Denotes.unique {A : Arithmetic α} {e : Expr} {a b : α} (h : Denotes A e a)
    (h' : Denotes A e b) : a = b :=
  Except.ok.inj ((denotes_iff.1 h).symm.trans (denotes_iff.1 h'))

/-- All numbers among the words have a value. -/
def Readable (A : Arithmetic α) (w : List Token) : Prop :=
  ∀ t ∈ w, t.kind = .number → ∃ a, A.number t.text = .ok a

theorem Readable.split {A : Arithmetic α} {u v : List Token} {op : Token}
    (h : Readable A (u ++ op :: v)) : Readable A u ∧ Readable A v := by
  constructor
  · intro t ht
    exact h t (List.mem_append_left _ ht)
  · intro t ht
    exact h t (List.mem_append_right _ (List.mem_cons_of_mem _ ht))

/-- A derivation has a value if all its numbers have one. -/
theorem exists_denotes_of_derives {A : Arithmetic α} {s : Symbol} {w : List Token} {e : Expr}
    (h : Derives s w e) (hw : Readable A w) : ∃ a, Denotes A e a := by
  induction h with
  | sum_of_product _ ih => exact ih hw
  | sum _ hop _ ihl ihr =>
      obtain ⟨hl, hr⟩ := hw.split
      obtain ⟨a, ha⟩ := ihl hl
      obtain ⟨b, hb⟩ := ihr hr
      rcases hop with hop | hop
      · exact ⟨A.add a b, .sum hop ha hb⟩
      · exact ⟨A.sub a b, .difference hop ha hb⟩
  | product_of_power _ ih => exact ih hw
  | product _ hop _ ihl ihr =>
      obtain ⟨hl, hr⟩ := hw.split
      obtain ⟨a, ha⟩ := ihl hl
      obtain ⟨b, hb⟩ := ihr hr
      rcases hop with hop | hop
      · exact ⟨A.mul a b, .product hop ha hb⟩
      · exact ⟨A.div a b, .quotient hop ha hb⟩
  | power_of_unary _ ih => exact ih hw
  | power _ hop _ ihl ihr =>
      obtain ⟨hl, hr⟩ := hw.split
      obtain ⟨a, ha⟩ := ihl hl
      obtain ⟨b, hb⟩ := ihr hr
      exact ⟨A.pow a b, .power hop ha hb⟩
  | sign hop _ ih =>
      obtain ⟨a, ha⟩ := ih fun t ht => hw t (List.mem_cons_of_mem _ ht)
      rcases hop with hop | hop
      · exact ⟨a, .plusSign hop ha⟩
      · exact ⟨A.neg a, .minusSign hop ha⟩
  | number hk =>
      obtain ⟨a, ha⟩ := hw _ (List.mem_cons_self ..) hk
      exact ⟨a, .number ha⟩
  | group _ _ _ ih =>
      obtain ⟨a, ha⟩ := ih fun t ht => hw t (List.mem_append_left _ (List.mem_cons_of_mem _ ht))
      exact ⟨a, .group ha⟩

/-- On a line every phrase has a value. -/
theorem exists_denotes_of_phrase (A : Arithmetic α) {l : Lexer} {w : List Token} {e : Expr}
    (h : Phrase (Source.line l).endless w e) : ∃ a, Denotes A e a := by
  refine exists_denotes_of_derives h.derives ?_
  intro t ht hk
  obtain ⟨n, hn⟩ := h.spells.exists_of_mem ht
  rw [← show (l.after n).next.1 = t from hn] at hk ⊢
  obtain ⟨numeral, hnumeral⟩ := Lexer.exists_ofText_next hk
  exact ⟨A.ofNumeral numeral, by rw [Arithmetic.number, hnumeral]⟩

/-! ### The calculator and its language -/

/-- A value is the value of a phrase, whose words have been taken. -/
theorem exists_phrase_of_value {A : Arithmetic α} {separator : Char} {line : String}
    {maxDepth : Nat} {a : α} {q : Parser} (h : parse A separator line maxDepth = .value a q) :
    ∃ w e, Phrase (Source.line (.ofLine separator line)).endless w e ∧ Denotes A e a ∧
      (parser separator line maxDepth).Took w q := by
  obtain ⟨e, hlead, he, htook⟩ := Parser.exists_leads_of_value h
  rw [parser, Parser.stream_ofSource] at hlead
  exact ⟨e.tokens, e, phrase_iff.2 ⟨rfl, hlead⟩, denotes_iff.2 he, htook⟩

/-- A phrase is read, unless it nests too deep. -/
theorem exists_value_of_phrase {A : Arithmetic α} {separator : Char} {line : String}
    {maxDepth : Nat} (h : ¬ (parse A separator line maxDepth).IsTooDeep) {w : List Token}
    {e : Expr} (hphrase : Phrase (Source.line (.ofLine separator line)).endless w e) {a : α}
    (ha : Denotes A e a) :
    ∃ q, parse A separator line maxDepth = .value a q ∧
      (parser separator line maxDepth).Took w q := by
  have heval := denotes_iff.1 ha
  obtain ⟨rfl, hlead⟩ := phrase_iff.1 hphrase
  rw [← Parser.stream_ofSource _ maxDepth] at hlead
  refine Parser.exists_value_of_leads hlead heval ?_
  refine Nat.le_of_not_lt ?_
  intro hlt
  exact h (Parser.isTooDeep_of_lt hlead heval hlt)

/-- **The calculator reads its language.**  Unless a line nests too deep, it has the value `a` by
the tokens `w` exactly if these are the words of a phrase that denotes `a`; every phrase denotes one
value; and a line has a value exactly if it opens with a phrase. -/
theorem parse_iff_phrase (A : Arithmetic α) (separator : Char) (line : String) (maxDepth : Nat)
    (h : ¬ (parse A separator line maxDepth).IsTooDeep) :
    (∀ w a, (∃ q, parse A separator line maxDepth = .value a q ∧
        (parser separator line maxDepth).Took w q) ↔
      ∃ e, Phrase (Source.line (.ofLine separator line)).endless w e ∧ Denotes A e a) ∧
    (∀ w e, Phrase (Source.line (.ofLine separator line)).endless w e →
      ∃ a, Denotes A e a ∧ ∀ b, Denotes A e b → b = a) ∧
    ((∃ a q, parse A separator line maxDepth = .value a q) ↔
      ∃ w e, Phrase (Source.line (.ofLine separator line)).endless w e) := by
  refine ⟨?_, ?_, ?_, ?_⟩
  · intro w a
    constructor
    · rintro ⟨q, hq, htook⟩
      obtain ⟨w', e, hphrase, he, htook'⟩ := exists_phrase_of_value hq
      rw [htook.unique htook']
      exact ⟨e, hphrase, he⟩
    · rintro ⟨e, hphrase, he⟩
      exact exists_value_of_phrase h hphrase he
  · intro w e hphrase
    obtain ⟨a, ha⟩ := exists_denotes_of_phrase A hphrase
    exact ⟨a, ha, fun b hb => hb.unique ha⟩
  · rintro ⟨a, q, hq⟩
    obtain ⟨w, e, hphrase, -, -⟩ := exists_phrase_of_value hq
    exact ⟨w, e, hphrase⟩
  · rintro ⟨w, e, hphrase⟩
    obtain ⟨a, ha⟩ := exists_denotes_of_phrase A hphrase
    obtain ⟨q, hq, -⟩ := exists_value_of_phrase h hphrase ha
    exact ⟨a, q, hq⟩

/-- The tree of the line `-2^2+3)`: the sign belongs to the first number alone. -/
def signedPowerSum : Expr :=
  .binary
    (.binary
      (.unary ⟨.minus, "-", some ⟨0, 1⟩⟩ (.atom ⟨.number, "2", some ⟨1, 2⟩⟩))
      ⟨.caret, "^", some ⟨2, 3⟩⟩
      (.atom ⟨.number, "2", some ⟨3, 4⟩⟩))
    ⟨.plus, "+", some ⟨4, 5⟩⟩
    (.atom ⟨.number, "3", some ⟨5, 6⟩⟩)

/-- The value of that line. -/
def signedPowerSumValue (A : Arithmetic α) : α :=
  A.add (A.pow (A.neg (A.ofNumeral ⟨2, 0⟩)) (A.ofNumeral ⟨2, 0⟩)) (A.ofNumeral ⟨3, 0⟩)

theorem parse_iff_phrase_sign :
    ¬ (parse Arithmetic.float '.' "-2^2+3)" 8).IsTooDeep ∧
      Phrase (Source.line (.ofLine '.' "-2^2+3)")).endless signedPowerSum.tokens signedPowerSum ∧
      Denotes Arithmetic.float signedPowerSum (signedPowerSumValue Arithmetic.float) ∧
      ∃ q, parse Arithmetic.float '.' "-2^2+3)" 8 =
          .value (signedPowerSumValue Arithmetic.float) q ∧
        (parser '.' "-2^2+3)" 8).Took signedPowerSum.tokens q := by
  have h : ¬ (parse Arithmetic.float '.' "-2^2+3)" 8).IsTooDeep := by
    obtain ⟨a, q, hq⟩ : ∃ a q, parse Arithmetic.float '.' "-2^2+3)" 8 = .value a q := ⟨_, _, rfl⟩
    rw [hq]
    exact Outcome.not_isTooDeep_of_result rfl
  have hwords : Derives .sum signedPowerSum.tokens signedPowerSum :=
    .sum
      (.sum_of_product (.product_of_power
        (.power (.sign (.inr rfl) (.number rfl)) rfl (.power_of_unary (.number rfl)))))
      (.inl rfl) (.product_of_power (.power_of_unary (.number rfl)))
  have hphrase : Phrase (Source.line (.ofLine '.' "-2^2+3)")).endless signedPowerSum.tokens
      signedPowerSum := by
    refine ⟨hwords, ⟨rfl, rfl, rfl, rfl, rfl, rfl, rfl⟩, ?_⟩
    decide
  have hvalue : Denotes Arithmetic.float signedPowerSum (signedPowerSumValue Arithmetic.float) :=
    .sum rfl (.power rfl (.minusSign rfl (.number rfl)) (.number rfl)) (.number rfl)
  exact ⟨h, hphrase, hvalue, ((parse_iff_phrase Arithmetic.float '.' "-2^2+3)" 8 h).1 _ _).2
    ⟨signedPowerSum, hphrase, hvalue⟩⟩

end Calculator

end Reckon

/-
**Formulas written down.**

A formula is built from numbers with signs and operators, and has a value from the leaves upwards.
On a line it is written from left to right, and where an operand would be torn apart by the
precedences it is put between parentheses: an operation behind a sign, an operand that binds less
tightly than the operation it belongs to, and one that binds as tightly on the side to which the
operation does not group.  More parentheses than these may stand anywhere.  A *draft* is a formula
with the parentheses it is written with.

However a formula is written, the line has the value of the formula.  The tokens of the line are
the lexemes of the draft, the tree of the draft with these tokens is one of the grammar as soon as
the parentheses suffice, and the tree has the levels and the value of the draft.

Main definitions:

* `Calculator.Literal`, `Calculator.Sign`, `Calculator.Operator` — numbers as they are written,
  and what stands in front of an operand or between two;
* `Calculator.Formula`, `Calculator.Formula.value` — formulas and their values;
* `Calculator.Draft`, `Calculator.Draft.Sufficient` — formulas with parentheses, and whether there
  are enough of them;
* `Calculator.IsPrint` — a line, cut into pieces, that writes a formula.

Main results:

* `Calculator.Draft.exists_renders` — the lexemes of a draft have the tree of the draft;
* `Calculator.Renders.derives`, `Calculator.Renders.eval_eq` — its grammar and its value;
* `Calculator.evaluateWith_of_isPrint` — the value of a line that writes a formula;
* `Calculator.isPrint_evaluates` — **parentheses and gaps do not matter**.
-/

import Reckon.Proofs.Layers
import Reckon.Proofs.Layout

set_option autoImplicit false
set_option relaxedAutoImplicit false

namespace Reckon

namespace Calculator

variable {α : Type}

/-! ### Numbers as they are written -/

/-- The digits of a number: some in front of the separator, and those behind it if it stands
there. -/
structure Literal where
  whole : List Char
  fraction : Option (List Char)
  whole_ne_nil : whole ≠ []
  isDigit_whole : ∀ c ∈ whole, c.isDigit = true
  isDigit_fraction : ∀ cs ∈ fraction, ∀ c ∈ cs, c.isDigit = true

namespace Literal

def text (separator : Char) (l : Literal) : List Char :=
  match l.fraction with
  | none => l.whole
  | some digits => l.whole ++ separator :: digits

/-- The numeral that a number stands for. -/
def numeral (l : Literal) : Numeral :=
  ⟨Numeral.ofDigits (l.whole ++ l.fraction.getD []), (l.fraction.getD []).length⟩

theorem isNumber_text (separator : Char) (l : Literal) :
    Lexer.IsNumber separator (l.text separator) := by
  refine ⟨l.whole, l.whole_ne_nil, l.isDigit_whole, ?_⟩
  rw [text]
  cases hf : l.fraction with
  | none => exact Or.inl rfl
  | some digits => exact Or.inr ⟨digits, l.isDigit_fraction digits hf, rfl⟩

/-- The characters of a number are read as its numeral. -/
theorem ofText_text {separator : Char} (h : separator.isDigit = false) (l : Literal) :
    Numeral.ofText (String.ofList (l.text separator)) = .ok l.numeral := by
  rw [Numeral.ofText, String.toList_ofList, text, numeral]
  cases hf : l.fraction with
  | none =>
      rw [Numeral.pointed_eq_self l.isDigit_whole, Numeral.read_digits l.whole_ne_nil
        l.isDigit_whole, Option.getD_none, List.append_nil]
      rfl
  | some digits =>
      have hdigits := l.isDigit_fraction digits hf
      have hpoint : Numeral.pointed (l.whole ++ separator :: digits) =
          l.whole ++ '.' :: digits :=
        Numeral.pointed_mark l.isDigit_whole h hdigits
      rw [hpoint, Numeral.read_digits_point (by simp [l.whole_ne_nil]) l.isDigit_whole hdigits,
        Option.getD_some]

end Literal

/-! ### Signs and operators -/

inductive Sign where
  | plus
  | minus
deriving DecidableEq, Repr

inductive Operator where
  | add
  | sub
  | mul
  | div
  | pow
deriving DecidableEq, Repr

namespace Sign

def kind : Sign → Kind
  | plus => .plus
  | minus => .minus

/-- What the sign makes of its operand. -/
def apply (A : Arithmetic α) : Sign → α → α
  | plus, a => a
  | minus, a => A.neg a

theorem kind_eq (s : Sign) : s.kind = .plus ∨ s.kind = .minus := by
  cases s <;> simp [kind]

theorem unary_eq {A : Arithmetic α} {s : Sign} {op : Token} (h : op.kind = s.kind) (a : α) :
    A.unary op a = .ok (s.apply A a) := by
  cases s <;> simp only [kind] at h <;> simp only [Arithmetic.unary, h, apply]

end Sign

namespace Operator

def kind : Operator → Kind
  | add => .plus
  | sub => .minus
  | mul => .asterisk
  | div => .slash
  | pow => .caret

def level : Operator → Level
  | add => .sum
  | sub => .sum
  | mul => .product
  | div => .product
  | pow => .exponent

def assoc : Operator → Assoc
  | pow => .right
  | _ => .left

/-- What the operator makes of its operands. -/
def apply (A : Arithmetic α) : Operator → α → α → α
  | add => A.add
  | sub => A.sub
  | mul => A.mul
  | div => A.div
  | pow => A.pow

theorem binary_eq {A : Arithmetic α} {o : Operator} {op : Token} (h : op.kind = o.kind)
    (a b : α) : A.binary a op b = .ok (o.apply A a b) := by
  cases o <;> simp only [kind] at h <;> simp only [Arithmetic.binary, h, apply]

/-- An operation with the operator `inner` needs parentheses to be the left operand of `outer`: it
binds less tightly, or as tightly and `outer` is the power. -/
def TearsLeft (outer inner : Operator) : Prop :=
  inner.level.precedence < outer.level.precedence ∨
    inner.level.precedence = outer.level.precedence ∧ outer = .pow

/-- An operation with the operator `inner` needs parentheses to be the right operand of `outer`: it
binds less tightly, or as tightly and `outer` groups to the left. -/
def TearsRight (outer inner : Operator) : Prop :=
  inner.level.precedence < outer.level.precedence ∨
    inner.level.precedence = outer.level.precedence ∧ outer.assoc = .left

instance (outer inner : Operator) : Decidable (outer.TearsLeft inner) :=
  inferInstanceAs (Decidable (_ ∨ _))

instance (outer inner : Operator) : Decidable (outer.TearsRight inner) :=
  inferInstanceAs (Decidable (_ ∨ _))

/-! The layers of the grammar in which an operation and its operands stand. -/

/-- The layer of an operation. -/
def symbol : Operator → Symbol
  | add => .sum
  | sub => .sum
  | mul => .product
  | div => .product
  | pow => .power

/-- The layer of its left operand. -/
def leftSymbol : Operator → Symbol
  | add => .sum
  | sub => .sum
  | mul => .product
  | div => .product
  | pow => .unary

/-- The layer of its right operand. -/
def rightSymbol : Operator → Symbol
  | add => .product
  | sub => .product
  | mul => .power
  | div => .power
  | pow => .power

theorem derives_binary {o : Operator} {op : Token} {u v : List Token} {l r : Expr}
    (hop : op.kind = o.kind) (hl : Derives o.leftSymbol u l) (hr : Derives o.rightSymbol v r) :
    Derives o.symbol (u ++ op :: v) (.binary l op r) := by
  cases o with
  | add => exact .sum hl (.inl hop) hr
  | sub => exact .sum hl (.inr hop) hr
  | mul => exact .product hl (.inl hop) hr
  | div => exact .product hl (.inr hop) hr
  | pow => exact .power hl hop hr

theorem leftSymbol_level_le {outer inner : Operator} (h : ¬ outer.TearsLeft inner) :
    outer.leftSymbol.level ≤ inner.symbol.level := by
  revert h
  cases outer <;> cases inner <;> decide

theorem rightSymbol_level_le {outer inner : Operator} (h : ¬ outer.TearsRight inner) :
    outer.rightSymbol.level ≤ inner.symbol.level := by
  revert h
  cases outer <;> cases inner <;> decide

end Operator

/-! ### Formulas -/

inductive Formula where
  | number (l : Literal)
  | signed (s : Sign) (operand : Formula)
  | binary (left : Formula) (o : Operator) (right : Formula)

/-- The value of a formula, from the leaves upwards. -/
def Formula.value (A : Arithmetic α) : Formula → α
  | number l => A.ofNumeral l.numeral
  | signed s operand => s.apply A (operand.value A)
  | binary left o right => o.apply A (left.value A) (right.value A)

/-- Formulas with parentheses. -/
inductive Draft where
  | number (l : Literal)
  | signed (s : Sign) (operand : Draft)
  | binary (left : Draft) (o : Operator) (right : Draft)
  | group (inner : Draft)

namespace Draft

def formula : Draft → Formula
  | number l => .number l
  | signed s operand => .signed s operand.formula
  | binary left o right => .binary left.formula o right.formula
  | group inner => inner.formula

/-- The operator of an operation that stands without parentheses. -/
def root? : Draft → Option Operator
  | binary _ o _ => some o
  | _ => none

/-- Parentheses stand at least around the operands that need them. -/
def Sufficient : Draft → Prop
  | number _ => True
  | signed _ operand => operand.root? = none ∧ operand.Sufficient
  | binary left o right =>
      (∀ inner ∈ left.root?, ¬ o.TearsLeft inner) ∧ left.Sufficient ∧
        (∀ inner ∈ right.root?, ¬ o.TearsRight inner) ∧ right.Sufficient
  | group inner => inner.Sufficient

instance decidableSufficient : (d : Draft) → Decidable d.Sufficient
  | number _ => inferInstanceAs (Decidable True)
  | signed _ operand =>
      have := decidableSufficient operand
      inferInstanceAs (Decidable (operand.root? = none ∧ operand.Sufficient))
  | binary left o right =>
      have := decidableSufficient left
      have := decidableSufficient right
      inferInstanceAs (Decidable ((∀ inner ∈ left.root?, ¬ o.TearsLeft inner) ∧
        left.Sufficient ∧ (∀ inner ∈ right.root?, ¬ o.TearsRight inner) ∧ right.Sufficient))
  | group inner => decidableSufficient inner

/-- How deep a draft nests: its parentheses, its signs and its right operands each cost a level. -/
def need : Draft → Nat
  | number _ => 1
  | signed _ operand => 1 + operand.need
  | binary left _ right => max left.need (1 + right.need)
  | group inner => 1 + inner.need

/-- What is written for a draft, from left to right. -/
def lexemes (separator : Char) : Draft → List Lexeme
  | number l => [⟨.number, l.text separator⟩]
  | signed s operand => .mark s.kind :: operand.lexemes separator
  | binary left o right => left.lexemes separator ++ .mark o.kind :: right.lexemes separator
  | group inner => .mark .leftParen :: (inner.lexemes separator ++ [.mark .rightParen])

theorem isProper_of_mem_lexemes {separator : Char} {d : Draft} {w : Lexeme}
    (h : w ∈ d.lexemes separator) : w.IsProper separator := by
  induction d with
  | number l =>
      obtain rfl := List.mem_singleton.1 h
      exact Or.inr ⟨rfl, l.isNumber_text separator⟩
  | signed s operand ih =>
      rcases List.mem_cons.1 h with rfl | h
      · exact Lexeme.isProper_mark (by cases s <;> rfl)
      · exact ih h
  | binary left o right ihl ihr =>
      rcases List.mem_append.1 h with h | h
      · exact ihl h
      · rcases List.mem_cons.1 h with rfl | h
        · exact Lexeme.isProper_mark (by cases o <;> rfl)
        · exact ihr h
  | group inner ih =>
      rcases List.mem_cons.1 h with rfl | h
      · exact Lexeme.isProper_mark rfl
      · rcases List.mem_append.1 h with h | h
        · exact ih h
        · obtain rfl := List.mem_singleton.1 h
          exact Lexeme.isProper_mark rfl

/-- The lexemes are not both numbers. -/
def Parted (u v : Lexeme) : Prop := u.kind = .number → v.kind ≠ .number

theorem isChain_parted_append {u v : List Lexeme} {w : Lexeme} (hw : w.kind ≠ .number)
    (hu : u.IsChain Parted) (hv : v.IsChain Parted) : (u ++ w :: v).IsChain Parted := by
  refine List.isChain_append.2 ⟨hu, ?_, ?_⟩
  · refine List.isChain_cons.2 ⟨?_, hv⟩
    intro x _ hk
    exact absurd hk hw
  · rintro x _ y ⟨⟩ _
    exact hw

/-- No two numbers are written next to each other. -/
theorem isChain_lexemes (separator : Char) (d : Draft) : (d.lexemes separator).IsChain Parted := by
  induction d with
  | number l => exact .singleton _
  | signed s operand ih => exact isChain_parted_append (u := []) (by cases s <;> decide) .nil ih
  | binary left o right ihl ihr => exact isChain_parted_append (by cases o <;> decide) ihl ihr
  | group inner ih =>
      have hclosed : (inner.lexemes separator ++ [Lexeme.mark .rightParen]).IsChain Parted :=
        isChain_parted_append (by decide) ih .nil
      exact isChain_parted_append (u := []) (by decide) .nil hclosed

/-- The layer of the grammar to which the tree of a draft belongs. -/
def symbol (d : Draft) : Symbol :=
  match d.root? with
  | some o => o.symbol
  | none => .unary

theorem leftSymbol_level_le {o : Operator} {d : Draft}
    (h : ∀ inner ∈ d.root?, ¬ o.TearsLeft inner) : o.leftSymbol.level ≤ d.symbol.level := by
  rw [symbol]
  cases hr : d.root? with
  | none => cases o <;> decide
  | some inner => exact Operator.leftSymbol_level_le (h inner hr)

theorem rightSymbol_level_le {o : Operator} {d : Draft}
    (h : ∀ inner ∈ d.root?, ¬ o.TearsRight inner) :
    o.rightSymbol.level ≤ d.symbol.level := by
  rw [symbol]
  cases hr : d.root? with
  | none => cases o <;> decide
  | some inner => exact Operator.rightSymbol_level_le (h inner hr)

end Draft

/-! ### The tree of a draft -/

/-- The tree groups its tokens as the draft does, and the tokens are those that write it. -/
inductive Renders (separator : Char) : Draft → Expr → Prop
  | number {l : Literal} {t : Token} :
      t.lexeme = ⟨.number, l.text separator⟩ → Renders separator (.number l) (.atom t)
  | signed {s : Sign} {d : Draft} {op : Token} {e : Expr} :
      op.kind = s.kind → Renders separator d e → Renders separator (.signed s d) (.unary op e)
  | binary {o : Operator} {d d' : Draft} {op : Token} {e e' : Expr} :
      Renders separator d e → op.kind = o.kind → Renders separator d' e' →
        Renders separator (.binary d o d') (.binary e op e')
  | group {d : Draft} {opening closing : Token} {e : Expr} :
      opening.kind = .leftParen → Renders separator d e → closing.kind = .rightParen →
        Renders separator (.group d) (.group opening e closing)

/-- The lexemes of a draft have the tree of the draft. -/
theorem Draft.exists_renders {separator : Char} {d : Draft} {ts : List Token}
    (h : ts.map Token.lexeme = d.lexemes separator) :
    ∃ e, Renders separator d e ∧ e.tokens = ts := by
  induction d generalizing ts with
  | number l =>
      obtain ⟨t, rfl, ht⟩ := List.map_eq_singleton_iff.1 h
      exact ⟨.atom t, .number ht, rfl⟩
  | signed s operand ih =>
      obtain ⟨op, us, rfl, hop, hus⟩ := List.map_eq_cons_iff.1 h
      obtain ⟨e, he, rfl⟩ := ih hus
      exact ⟨.unary op e, .signed (Token.kind_of_lexeme hop) he, rfl⟩
  | binary left o right ihl ihr =>
      obtain ⟨us, vs, rfl, hus, hvs⟩ := List.map_eq_append_iff.1 h
      obtain ⟨op, vs, rfl, hop, hvs⟩ := List.map_eq_cons_iff.1 hvs
      obtain ⟨l, hl, rfl⟩ := ihl hus
      obtain ⟨r, hr, rfl⟩ := ihr hvs
      exact ⟨.binary l op r, .binary hl (Token.kind_of_lexeme hop) hr, rfl⟩
  | group inner ih =>
      obtain ⟨opening, behind, rfl, ho, hbehind⟩ := List.map_eq_cons_iff.1 h
      obtain ⟨us, vs, rfl, hus, hvs⟩ := List.map_eq_append_iff.1 hbehind
      obtain ⟨closing, rfl, hc⟩ := List.map_eq_singleton_iff.1 hvs
      obtain ⟨e, he, rfl⟩ := ih hus
      exact ⟨.group opening e closing,
        .group (Token.kind_of_lexeme ho) he (Token.kind_of_lexeme hc), rfl⟩

namespace Renders

variable {separator : Char} {d : Draft} {e : Expr}

theorem need_eq (h : Renders separator d e) : e.need = d.need := by
  induction h with
  | number _ => rfl
  | signed _ _ ih => rw [Expr.need, Draft.need, ih]
  | binary _ _ _ ihl ihr => rw [Expr.need, Draft.need, ihl, ihr]
  | group _ _ _ ih => rw [Expr.need, Draft.need, ih]

/-- The tree has the value of the formula. -/
theorem eval_eq (h : Renders separator d e) (hs : separator.isDigit = false)
    (A : Arithmetic α) : e.eval A.interpretation = .ok (d.formula.value A) := by
  induction h with
  | @number l t ht =>
      have htext : t.text = String.ofList (l.text separator) := by
        have hchars : t.text.toList = l.text separator := congrArg Lexeme.text ht
        rw [← hchars, String.ofList_toList]
      have hvalue : A.number t.text = .ok (A.ofNumeral l.numeral) := by
        rw [Arithmetic.number, htext, l.ofText_text hs]
      exact hvalue
  | signed hop _ ih => exact Expr.eval_unary_eq_ok.2 ⟨_, ih, Sign.unary_eq hop _⟩
  | binary _ hop _ ihl ihr =>
      exact Expr.eval_binary_eq_ok.2 ⟨_, _, ihl, ihr, Operator.binary_eq hop _ _⟩
  | group _ _ _ ih => exact Expr.eval_group_eq_ok.2 ⟨_, ih, rfl⟩

/-- If the parentheses suffice, the tree is one of the grammar. -/
theorem derives (h : Renders separator d e) (hd : d.Sufficient) :
    Derives d.symbol e.tokens e := by
  induction h with
  | number ht => exact .number (congrArg Lexeme.kind ht)
  | @signed s d op e hop _ ih =>
      obtain ⟨hroot, hd⟩ := hd
      have hoperand : Derives .unary e.tokens e := by
        have hsymbol : d.symbol = .unary := by rw [Draft.symbol, hroot]
        rw [← hsymbol]
        exact ih hd
      have hsign := s.kind_eq
      rw [← hop] at hsign
      exact .sign hsign hoperand
  | binary _ hop _ ihl ihr =>
      obtain ⟨hleft, hdl, hright, hdr⟩ := hd
      have hl := (ihl hdl).loosen (Draft.leftSymbol_level_le hleft)
      have hr := (ihr hdr).loosen (Draft.rightSymbol_level_le hright)
      exact Operator.derives_binary hop hl hr
  | group ho _ hc ih => exact .group ho ((ih hd).loosen (Symbol.sum_level_le _)) hc

end Renders

/-! ### Lines that write a formula -/

/-- The pieces and the last gap write the formula `f` as the draft `d`: the parentheses suffice,
the lexemes are those of the draft, and between them, in front and behind stand only characters that
are no digits, no glyphs and not the separator. -/
structure IsPrint (separator : Char) (f : Formula) (d : Draft) (ps : List Piece)
    (last : List Char) : Prop where
  formula_eq : d.formula = f
  sufficient : d.Sufficient
  lexemes_eq : ps.map Piece.lexeme = d.lexemes separator
  isGap : ∀ p ∈ ps, Lexer.IsGap separator p.gap
  isGap_last : Lexer.IsGap separator last

def printed (ps : List Piece) (last : List Char) : String :=
  String.ofList (Piece.written ps last)

/-- No two numbers of a formula are written next to each other. -/
theorem IsPrint.printable {separator : Char} {f : Formula} {d : Draft} {ps : List Piece}
    {last : List Char} (h : IsPrint separator f d ps last) :
    Piece.Printable separator ps last := by
  refine ⟨h.isGap, ?_, h.isGap_last, ?_⟩
  · intro p hp
    have hmem := List.mem_map_of_mem (f := Piece.lexeme) hp
    rw [h.lexemes_eq] at hmem
    exact Draft.isProper_of_mem_lexemes hmem
  · have hchain := d.isChain_lexemes separator
    rw [← h.lexemes_eq, List.isChain_map] at hchain
    refine hchain.imp ?_
    intro p q hpq hp hq
    exact absurd hq (hpq hp)

/-- A line that writes a formula, and nests no deeper than the limit, has the value of the
formula. -/
theorem evaluateWith_of_isPrint (A : Arithmetic α) {s : Separator} {f : Formula} {d : Draft}
    {ps : List Piece} {last : List Char} (h : IsPrint s.char f d ps last)
    (hneed : d.need ≤ Parser.defaultMaxDepth) :
    evaluateWith A s.char (printed ps last) = .ok (f.value A) := by
  have htokens : (Lexer.ofLine s.char (printed ps last)).tokens = Piece.placed 0 ps :=
    Lexer.tokens_of_legible h.printable.legible (String.toList_ofList)
  have hspells := Source.spells_endless_ofLine s.char (printed ps last)
  have hfollower := Source.kind_endless_ofLine
    (Nat.le_refl (Lexer.ofLine s.char (printed ps last)).tokens.length)
  rw [htokens] at hspells hfollower
  obtain ⟨e, he, hlexemes⟩ := Draft.exists_renders ((Piece.lexeme_placed 0 ps).trans h.lexemes_eq)
  rw [← hlexemes] at hspells hfollower
  have hphrase : Phrase (Source.line (.ofLine s.char (printed ps last))).endless e.tokens e := by
    refine ⟨(he.derives h.sufficient).loosen (Symbol.sum_level_le _), hspells, ?_⟩
    rw [hfollower]
    decide
  have hdigit := (Separator.isAcceptable_iff.1 s.acceptable).1
  have hvalue := he.eval_eq hdigit A
  have hlead := (phrase_iff.1 hphrase).2
  rw [← Parser.stream_ofSource _ Parser.defaultMaxDepth] at hlead
  obtain ⟨q, hq, -⟩ := Parser.exists_value_of_leads hlead hvalue (by
    rw [he.need_eq]
    exact (Nat.zero_add _).trans_le hneed)
  have hline : evaluate A s (printed ps last) = .ok (f.value A) := by
    rw [evaluate_eq_iff, parse, parser, hq, h.formula_eq]
    rfl
  rw [evaluateWith, Separator.ofChar_char]
  simp only [hline]

/-- **Parentheses and gaps do not matter.**  Every line that writes a formula with an acceptable
separator, whatever gaps and parentheses it has beside those that are needed, has the value of the
formula, as long as it nests no deeper than the limit; so two such lines have the same value. -/
theorem isPrint_evaluates (A : Arithmetic α) (s : Separator) (f : Formula) {d : Draft}
    {ps : List Piece} {last : List Char} (h : IsPrint s.char f d ps last)
    (hneed : d.need ≤ Parser.defaultMaxDepth) :
    evaluateWith A s.char (printed ps last) = .ok (f.value A) ∧
      ∀ (d' : Draft) (ps' : List Piece) (last' : List Char), IsPrint s.char f d' ps' last' →
        d'.need ≤ Parser.defaultMaxDepth →
          evaluateWith A s.char (printed ps' last') = evaluateWith A s.char (printed ps last) := by
  have hvalue := evaluateWith_of_isPrint A h hneed
  refine ⟨hvalue, ?_⟩
  intro d' ps' last' h' hneed'
  rw [hvalue, evaluateWith_of_isPrint A h' hneed']

/-- The number `1`, written without a separator. -/
def Literal.one : Literal := ⟨['1'], none, by simp, List.forall_mem_singleton.2 rfl, by simp⟩

/-- The number `2`, written with a separator and nothing behind it. -/
def Literal.two : Literal := ⟨['2'], some [], by simp, List.forall_mem_singleton.2 rfl, by simp⟩

/-- A power of a sign with parentheses that it needs and others that it does not need. -/
def Draft.signedPower : Draft :=
  .binary (.signed .minus (.group (.binary (.number .one) .add (.group (.number .two))))) .pow
    (.number .one)

/-- Its lexemes with one blank in front of each. -/
def spacedPower : List Piece := (Draft.signedPower.lexemes '.').map (Piece.mk [' '])

theorem isPrint_evaluates_spacedPower :
    IsPrint '.' Draft.signedPower.formula Draft.signedPower spacedPower [] ∧
      Draft.signedPower.need ≤ Parser.defaultMaxDepth ∧
        printed spacedPower [] = " - ( 1 + ( 2. ) ) ^ 1" ∧
          evaluateWith Arithmetic.float '.' " - ( 1 + ( 2. ) ) ^ 1" =
            .ok (Draft.signedPower.formula.value Arithmetic.float) := by
  have h : IsPrint '.' Draft.signedPower.formula Draft.signedPower spacedPower [] := by
    refine ⟨rfl, by decide, ?_, ?_, by simp [Lexer.IsGap]⟩
    · rw [spacedPower, List.map_map]
      exact List.map_id _
    · intro p hp c hc
      obtain ⟨w, -, rfl⟩ := List.mem_map.1 hp
      obtain rfl := List.mem_singleton.1 hc
      decide
  exact ⟨h, by decide, rfl, (isPrint_evaluates Arithmetic.float .point _ h (by decide)).1⟩

end Calculator

end Reckon

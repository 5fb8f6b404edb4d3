/-
**Tokens of the calculator.**

A token has a kind, the text it was read from and, unless it was made up, the span of that text.
Eight kinds are written with one glyph each; the other two are numbers and the end of the input.

Main definitions:

* `Kind`, `Kind.all`, `Kind.index` — the eleven kinds in their fixed order;
* `Kind.glyph?`, `Kind.ofGlyph?` — the glyph of a kind and the kind of a glyph;
* `Token`, `Token.endOfInput` — tokens, and the token that stands for the end of the input;
* `Kind.described`, `Token.shown` — how messages name a kind and show a token.

Main results:

* `Kind.ofGlyph?_eq_some_iff` — the two readings of glyphs are inverse to each other;
* `Kind.not_isDigit_of_ofGlyph?` — no digit is a glyph.
-/

import Reckon.Span
import Reckon.Text.Quoted

set_option autoImplicit false
set_option relaxedAutoImplicit false

namespace Reckon

/-- The kinds of token. -/
inductive Kind where
  | leftParen
  | rightParen
  | plus
  | minus
  | asterisk
  | slash
  | caret
  | tilde
  | bang
  | number
  | endOfInput
deriving DecidableEq, Repr, Inhabited

namespace Kind

/-- All kinds, in the order of their indices. -/
def all : List Kind :=
  [leftParen, rightParen, plus, minus, asterisk, slash, caret, tilde, bang, number, endOfInput]

def index : Kind → Nat
  | leftParen => 0
  | rightParen => 1
  | plus => 2
  | minus => 3
  | asterisk => 4
  | slash => 5
  | caret => 6
  | tilde => 7
  | bang => 8
  | number => 9
  | endOfInput => 10

theorem mem_all (k : Kind) : k ∈ all := by
  cases k <;> simp [all]

theorem map_index_all : all.map index = List.range 11 := rfl

theorem index_injective {a b : Kind} (h : a.index = b.index) : a = b := by
  cases a <;> cases b <;> simp_all [index]

/-! ### Glyphs -/

/-- The glyph a kind is written with, if it has one. -/
def glyph? : Kind → Option Char
  | leftParen => some '('
  | rightParen => some ')'
  | plus => some '+'
  | minus => some '-'
  | asterisk => some '*'
  | slash => some '/'
  | caret => some '^'
  | tilde => some '~'
  | bang => some '!'
  | number => none
  | endOfInput => none

def ofGlyph? (c : Char) : Option Kind := all.find? (fun k => k.glyph? == some c)

theorem ofGlyph?_glyph {k : Kind} {c : Char} (h : k.glyph? = some c) : ofGlyph? c = some k := by
  cases k <;> simp only [glyph?, Option.some.injEq, reduceCtorEq] at h <;> subst h <;> decide

/-- A character is read as the kind whose glyph it is, and as no other. -/
theorem ofGlyph?_eq_some_iff {k : Kind} {c : Char} : ofGlyph? c = some k ↔ k.glyph? = some c := by
  constructor
  · intro h
    simpa using List.find?_some (p := fun k : Kind => k.glyph? == some c) h
  · exact ofGlyph?_glyph

/-- No digit is a glyph. -/
theorem not_isDigit_of_ofGlyph? {k : Kind} {c : Char} (h : ofGlyph? c = some k) :
    c.isDigit = false := by
  rw [ofGlyph?_eq_some_iff] at h
  cases k <;> simp only [glyph?, Option.some.injEq, reduceCtorEq] at h <;> subst h <;> decide

/-- A digit is the glyph of no kind. -/
theorem ofGlyph?_eq_none_of_isDigit {c : Char} (h : c.isDigit = true) : ofGlyph? c = none := by
  cases hk : ofGlyph? c with
  | none => rfl
  | some k =>
      rw [not_isDigit_of_ofGlyph? hk] at h
      exact absurd h Bool.false_ne_true

/-! ### Names -/

def name : Kind → String
  | leftParen => "LeftParen"
  | rightParen => "RightParen"
  | plus => "Plus"
  | minus => "Minus"
  | asterisk => "Asterisk"
  | slash => "Slash"
  | caret => "Caret"
  | tilde => "Tilde"
  | bang => "Bang"
  | number => "Number"
  | endOfInput => "End"

/-- How a message names a kind: its glyph in single quotes, or in words. -/
def described (k : Kind) : String :=
  match k.glyph? with
  | some c => String.ofList ['\'', c, '\'']
  | none =>
      match k with
      | number => "number"
      | _ => "end of input"

end Kind

/-- A token: its kind, its text, and where the text stands in the line if that is known. -/
structure Token where
  kind : Kind
  text : String
  span : Option Span
deriving DecidableEq, Repr, Inhabited

namespace Token

/-- The token that stands for the end of the input, at `span`. -/
def endOfInput (span : Option Span) : Token := ⟨.endOfInput, "", span⟩

@[simp] theorem kind_endOfInput (s : Option Span) : (endOfInput s).kind = .endOfInput := rfl

@[simp] theorem text_endOfInput (s : Option Span) : (endOfInput s).text = "" := rfl

@[simp] theorem span_endOfInput (s : Option Span) : (endOfInput s).span = s := rfl

def isEnd (t : Token) : Bool := t.kind == .endOfInput

/-- How a token is shown: by its text, and the end of the input by a mark of its own. -/
def shown (t : Token) : String :=
  match t.kind with
  | .endOfInput => "<EOI>"
  | _ => t.text

def dump (t : Token) : String :=
  "CalcToken \x7b kind: " ++ t.kind.name ++ ", text: " ++ Text.quoted t.text ++ ", span: " ++
    (match t.span with
    | some s => "Some(" ++ s.dump ++ ")"
    | none => "None") ++ " \x7d"

end Token

end Reckon

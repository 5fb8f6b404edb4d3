/-
**The calculator.**

The calculator reads one expression from a line and computes its value.  Numbers and groups are
operands; `+` and `-` stand in front of an operand or between two, `*`, `/` and `^` between two.
Signs bind tightest, then `^`, which groups to the right, then `*` and `/`, then `+` and `-`.
Whatever follows the expression is left alone.

Main definitions:

* `Calculator.grammar` — the rules;
* `Calculator.parser`, `Calculator.parse` — reading a line, with any separator and depth limit;
* `Calculator.evaluate` — the value of a line;
* `Calculator.Failure`, `Calculator.evaluateWith` — the value of a line with a separator that has
  not been checked.

Main results:

* `Calculator.grammar_stopsAtEnd` — the end of the input is no operator;
* `Calculator.parse_ne_unfinished` — every line comes to a value or an error;
* `Calculator.evaluate_eq_iff` — the value of a line in terms of the engine's outcome.
-/

import Reckon.Parser.Progress
import Reckon.Arithmetic
import Reckon.Separator

set_option autoImplicit false
set_option relaxedAutoImplicit false

namespace Reckon

namespace Calculator

def prefixRule? : Kind → Option PrefixRule
  | .number => some .atom
  | .leftParen => some .group
  | .plus => some (.unary Level.prefixed.precedence)
  | .minus => some (.unary Level.prefixed.precedence)
  | _ => none

def infixRule? : Kind → Option InfixRule
  | .plus => some (.binary Level.sum.precedence .left)
  | .minus => some (.binary Level.sum.precedence .left)
  | .asterisk => some (.binary Level.product.precedence .left)
  | .slash => some (.binary Level.product.precedence .left)
  | .caret => some (.binary Level.exponent.precedence .right)
  | _ => none

def grammar : Grammar := ⟨prefixRule?, infixRule?⟩

/-- The end of the input is no operator. -/
theorem grammar_stopsAtEnd : grammar.StopsAtEnd := ⟨rfl, rfl⟩

def parser (separator : Char) (line : String) (maxDepth : Nat) : Parser :=
  .ofSource (.line (.ofLine separator line)) maxDepth

variable {α : Type}

/-- Reads the expression at the start of a line and computes its value. -/
def parse (A : Arithmetic α) (separator : Char) (line : String) (maxDepth : Nat) : Outcome α :=
  (parser separator line maxDepth).parseExpression grammar A.interpretation 0

/-- Every line comes to a value or an error. -/
theorem parse_ne_unfinished (A : Arithmetic α) (separator : Char) (line : String)
    (maxDepth : Nat) : parse A separator line maxDepth ≠ .unfinished :=
  Parser.parseExpression_ne_unfinished grammar_stopsAtEnd A.interpretation 0 _

/-- The value of a line, or why it has none. -/
def evaluate (A : Arithmetic α) (separator : Separator) (line : String) : Except ParseError α :=
  (parse A separator.char line Parser.defaultMaxDepth).result
    (parse_ne_unfinished A separator.char line Parser.defaultMaxDepth)

/-- The value of a line is what the engine's outcome says. -/
theorem evaluate_eq_iff {A : Arithmetic α} {separator : Separator} {line : String}
    {r : Except ParseError α} :
    evaluate A separator line = r ↔
      (parse A separator.char line Parser.defaultMaxDepth).result? = some r :=
  Outcome.result_eq_iff

/-! ### Unchecked separators -/

/-- Why a line with an unchecked separator has no value: there is a cause in the line, or the
separator is refused. -/
inductive Failure where
  | expression (cause : ParseError)
  | separator (char : Char)
deriving DecidableEq, Repr

def Failure.message : Failure → String
  | expression cause => "syntax error: " ++ cause.message
  | separator c => "config error: " ++ Separator.refusal c

def Failure.span : Failure → Option Span
  | expression cause => cause.span
  | separator _ => none

/-- The value of a line, the separator being checked first. -/
def evaluateWith (A : Arithmetic α) (separator : Char) (line : String) : Except Failure α :=
  match Separator.ofChar separator with
  | none => .error (.separator separator)
  | some s =>
      match evaluate A s line with
      | .ok a => .ok a
      | .error e => .error (.expression e)

end Calculator

end Reckon

/-
**Why an expression is refused.**

An error names its cause and, where it concerns a token, the kind of the token and the span of its
text.  The wording is a function of the cause.

Main definitions:

* `Fixity` — whether a rule applies in front of an operand or behind one;
* `ParseError` — the causes;
* `ParseError.span`, `ParseError.message` — where the error is, and its wording.
-/

import Reckon.Token
import Reckon.Decimal.Numeral

set_option autoImplicit false
set_option relaxedAutoImplicit false

namespace Reckon

/-- The two places in which a token can have a rule: at the start of an expression or behind one. -/
inductive Fixity where
  | prefixed
  | infixed
deriving DecidableEq, Repr

namespace Fixity

def all : List Fixity := [prefixed, infixed]

def name : Fixity → String
  | prefixed => "prefix"
  | infixed => "infix"

end Fixity

/-- The causes for which an expression, or a rule, is refused. -/
inductive ParseError where
  | noPrefix (kind : Kind) (text : String) (span : Option Span)
  | expected (wanted found : Kind) (span : Option Span)
  | unknownOperation (kind : Kind) (span : Option Span)
  | alreadyRegistered (kind : Kind) (fixity : Fixity)
  | tooDeep (depth : Nat) (span : Option Span)
  | invalidNumber (cause : NumeralError)
deriving DecidableEq, Repr

namespace ParseError

/-- Where the error is, if it concerns a token whose place is known. -/
def span : ParseError → Option Span
  | noPrefix _ _ s => s
  | expected _ _ s => s
  | unknownOperation _ s => s
  | alreadyRegistered _ _ => none
  | tooDeep _ s => s
  | invalidNumber _ => none

def message : ParseError → String
  | noPrefix kind text _ =>
      "could not parse " ++ Text.quoted text ++ ": no prefix parselet for " ++ kind.described
  | expected wanted found _ => "expected " ++ wanted.described ++ ", found " ++ found.described
  | unknownOperation kind _ => "unknown operation for " ++ kind.described
  | alreadyRegistered kind fixity =>
      fixity.name ++ " parselet for " ++ kind.described ++ " is already registered"
  | tooDeep depth _ => "expression nested deeper than " ++ toString depth ++ " levels"
  | invalidNumber cause => "invalid number " ++ cause.message

@[simp] theorem span_noPrefix (k : Kind) (t : String) (s : Option Span) :
    (noPrefix k t s).span = s := rfl

@[simp] theorem span_expected (w f : Kind) (s : Option Span) : (expected w f s).span = s := rfl

@[simp] theorem span_unknownOperation (k : Kind) (s : Option Span) :
    (unknownOperation k s).span = s := rfl

@[simp] theorem span_alreadyRegistered (k : Kind) (f : Fixity) :
    (alreadyRegistered k f).span = none := rfl

@[simp] theorem span_tooDeep (d : Nat) (s : Option Span) : (tooDeep d s).span = s := rfl

@[simp] theorem span_invalidNumber (e : NumeralError) : (invalidNumber e).span = none := rfl

end ParseError

end Reckon

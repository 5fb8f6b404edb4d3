/-
**Arguments of the program.**

The program is called with options and, at most once, a command.  A word that starts with two
dashes is a long option, one that starts with a single dash and goes on is a row of short ones, and
any other word is an operand; behind a word of just two dashes every word is an operand.  An option
that wants a value takes it from its own word or else from the next one, which must not look like
an option.  The words are read in order, and the first thing that ends the reading counts: a call
for help or for the version, or a mistake.

The decimal separator is chosen by an option that is allowed before and behind the command, or by a
variable of the environment.  Behind the command it counts more than before it, and an option more
than the variable.  The variable is checked even where an option counts more, except by a part of
the words that has the option itself.

Main definitions:

* `Command`, `Invocation`, `Request` — what can be asked of the program;
* `Word`, `Word.ofString` — how a word reads;
* `Scope`, `Given`, `scan` — the words before or behind a command, and what they give;
* `Request.ofArguments` — the request that all words make, with the variable.
-/

import Reckon.CommandLine.Interactive

set_option autoImplicit false
set_option relaxedAutoImplicit false

namespace Reckon

/-- What the program is to do. -/
inductive Command where
  | interactive (prompt : String)
  | evaluate (expressions : List String)
  | batch (file : String)
deriving DecidableEq, Repr

structure Invocation where
  separator : Char
  command : Command
deriving DecidableEq, Repr

/-- What the words of a call ask for. -/
inductive Request where
  | invocation (i : Invocation)
  | version
  | help
  | misuse
deriving DecidableEq, Repr

/-! ### Words -/

/-- How a word reads: two dashes alone, a long option with the value that stands behind an equals
sign, a row of short options, the first of them apart, or any other word. -/
inductive Word where
  | terminator
  | long (name : String) (value? : Option String)
  | short (letter : Char) (more : List Char)
  | plain (text : String)
deriving DecidableEq, Repr

def Word.ofString (s : String) : Word :=
  match s.toList with
  | ['-', '-'] => terminator
  | '-' :: '-' :: cs =>
      match cs.dropWhile (fun c => c != '=') with
      | [] => long (String.ofList cs) none
      | _ :: value =>
          long (String.ofList (cs.takeWhile (fun c => c != '='))) (some (String.ofList value))
  | '-' :: c :: cs => short c cs
  | _ => plain s

/-- Whether a word can be the value of the option before it. -/
def Word.isValue : Word → Bool
  | plain _ => true
  | _ => false

/-- What follows a short option in its word, as its value: an equals sign in front is left out. -/
def attachedValue (more : List Char) : String :=
  match more with
  | '=' :: cs => String.ofList cs
  | cs => String.ofList cs

/-! ### Options -/

/-- The parts of a call that have options of their own: the words before the command, and those
behind each of the commands. -/
inductive Scope where
  | top
  | interactive
  | evaluate
  | batch
deriving DecidableEq, Repr

inductive Flag where
  | help
  | version
  | separator
  | prompt
  | input
deriving DecidableEq, Repr

def Scope.ofCommand? (word : String) : Option Scope :=
  if word = "repl" then some .interactive
  else if word = "eval" then some .evaluate
  else if word = "run" then some .batch
  else none

/-- The option that a long name means in a part of a call. -/
def Scope.long? (scope : Scope) (name : String) : Option Flag :=
  if name = "help" then some .help
  else if name = "decimal-separator" then some .separator
  else
    match scope with
    | .top => if name = "version" then some .version else none
    | .interactive => if name = "prompt" then some .prompt else none
    | .batch => if name = "input" then some .input else none
    | .evaluate => none

def Scope.short? (scope : Scope) (letter : Char) : Option Flag :=
  if letter = 'h' then some .help
  else
    match scope with
    | .top => if letter = 'V' then some .version else none
    | .interactive => if letter = 'p' then some .prompt else none
    | .batch => if letter = 'i' then some .input else none
    | .evaluate => none

/-- What the words of one part of a call have given so far. -/
structure Given where
  separator? : Option Char
  prompt? : Option String
  input? : Option String
  operands : List String
deriving DecidableEq, Repr

def Given.nothing : Given := ⟨none, none, none, []⟩

def onlyChar? (s : String) : Option Char :=
  match s.toList with
  | [c] => some c
  | _ => none

/-- Gives an option its value.  No option is given twice, a separator is one character, and a file
name is not empty. -/
def Given.set? (given : Given) (flag : Flag) (value : String) : Option Given :=
  match flag with
  | .separator =>
      match given.separator?, onlyChar? value with
      | none, some c => some { given with separator? := some c }
      | _, _ => none
  | .prompt =>
      match given.prompt? with
      | none => some { given with prompt? := some value }
      | some _ => none
  | .input =>
      match given.input? with
      | none => if value = "" then none else some { given with input? := some value }
      | some _ => none
  | .help => none
  | .version => none

/-! ### Reading the words of one part -/

/-- How the reading of one part of a call ends: with all words read, at a command that begins the
next part, or with something else than a command. -/
inductive Scan where
  | done (given : Given)
  | enter (scope : Scope) (rest : List String) (given : Given)
  | stop (request : Request)
deriving DecidableEq, Repr

/-- What a call for an explanation leads to, from the words behind it. -/
def helpOn (words : List String) : Request :=
  match words with
  | [] => .help
  | [word] => if word = "help" ∨ (Scope.ofCommand? word).isSome then .help else .misuse
  | _ => .misuse

def scan (scope : Scope) : List String → Given → Scan
  | [], given => .done given
  | word :: rest, given =>
      match Word.ofString word with
      | .terminator =>
          -- every word behind it is an operand, and only expressions are wanted as operands
          match scope, rest with
          | .evaluate, _ => .done { given with operands := given.operands ++ rest }
          | _, [] => .done given
          | _, _ => .stop .misuse
      | .plain text =>
          match scope with
          | .top =>
              match Scope.ofCommand? text with
              | some inner => .enter inner rest given
              | none => .stop (if text = "help" then helpOn rest else .misuse)
          | .evaluate => scan scope rest { given with operands := given.operands ++ [text] }
          | _ => .stop .misuse
      | .long name value? =>
          match scope.long? name, value? with
          | none, _ => .stop .misuse
          | some .help, none => .stop .help
          | some .version, none => .stop .version
          | some flag, some value =>
              -- the value stands in the word of the option
              match given.set? flag value with
              | some given' => scan scope rest given'
              | none => .stop .misuse
          | some flag, none =>
              -- the value is the next word
              match rest with
              | [] => .stop .misuse
              | value :: rest' =>
                  match (Word.ofString value).isValue, given.set? flag value with
                  | true, some given' => scan scope rest' given'
                  | _, _ => .stop .misuse
      | .short letter more =>
          match scope.short? letter, more with
          | none, _ => .stop .misuse
          -- the first letter ends the reading, whatever letters follow it
          | some .help, _ => .stop .help
          | some .version, _ => .stop .version
          | some flag, c :: cs =>
              match given.set? flag (attachedValue (c :: cs)) with
              | some given' => scan scope rest given'
              | none => .stop .misuse
          | some flag, [] =>
              match rest with
              | [] => .stop .misuse
              | value :: rest' =>
                  match (Word.ofString value).isValue, given.set? flag value with
                  | true, some given' => scan scope rest' given'
                  | _, _ => .stop .misuse

/-! ### The whole call -/

/-- The separator that the variable of the environment chooses for a part of a call: nothing if it
is not set, or not looked at because the part has the option itself.  The outer `none` means that
it is looked at and is not a single character. -/
def variableChoice (given : Given) (setting? : Option String) : Option (Option Char) :=
  match given.separator?, setting? with
  | some _, _ => some none
  | none, none => some none
  | none, some text =>
      match onlyChar? text with
      | some c => some (some c)
      | none => none

def defaultSeparator : Char := '.'

def commandOf (scope : Scope) (given : Given) : Option Command :=
  match scope with
  | .evaluate => if given.operands = [] then none else some (.evaluate given.operands)
  | .batch => given.input?.map .batch
  | _ => some (.interactive (given.prompt?.getD Interactive.defaultPrompt))

def plainRequest (given : Given) (setting? : Option String) : Request :=
  match variableChoice given setting? with
  | none => .misuse
  | some choice =>
      .invocation ⟨(given.separator?.or choice).getD defaultSeparator,
        .interactive Interactive.defaultPrompt⟩

def commandRequest (scope : Scope) (outer inner : Given) (setting? : Option String) : Request :=
  match commandOf scope inner, variableChoice inner setting?, variableChoice outer setting? with
  | some command, some choice, some choice' =>
      .invocation
        ⟨(inner.separator?.or (outer.separator?.or (choice.or choice'))).getD defaultSeparator,
          command⟩
  | _, _, _ => .misuse

/-- The request that the words of a call make, with the variable of the environment. -/
def Request.ofArguments (words : List String) (setting? : Option String) : Request :=
  match scan .top words .nothing with
  | .stop request => request
  | .done outer => plainRequest outer setting?
  | .enter scope rest outer =>
      match scan scope rest .nothing with
      | .stop request => request
      | .enter _ _ _ => .misuse
      | .done inner => commandRequest scope outer inner setting?

end Reckon

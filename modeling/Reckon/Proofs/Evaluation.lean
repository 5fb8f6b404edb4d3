/-
**Computing while reading, and computing afterwards.**

The engine hands tokens and operands to an interpretation and never looks at what it gets back but
for an error.  So a run that computes and a run that builds a tree take the same steps for as long
as no operation fails: they are in the same state all the time, and what the one has computed is
the value of what the other has built.

On a line no operation of the calculator fails, since the text of every number is a numeral and the
rules name an operation for every operator.  What is left are the errors that the reader reports
itself, and each of them is about one token of the line.

Main definitions:

* `Outcome.Evaluates` — a run that computes beside the run that builds the tree;
* `Interpretation.Accepts` — no operation fails on the tokens of a tape;
* `Tape.Refuses` — the errors of a reader whose operations do not fail.

Main results:

* `Parser.parse_evaluates` — **the two runs in lock step**, whatever the table of rules;
* `Tape.read_refuses` — every other error is about a token of the tape;
* `Calculator.refuses_of_failure` — the errors of the calculator;
* `Calculator.parseExpression_evaluates` — **computing while reading is computing afterwards**.
-/

import Reckon.Proofs.Layers
import Reckon.Proofs.Places

set_option autoImplicit false
set_option relaxedAutoImplicit false

namespace Reckon

/-! ### Two runs in lock step -/

/-- The first run computes what the second one builds.  They end in the same state, with a tree and
its value or with the same error; or an operation of the first one has failed. -/
inductive Outcome.Evaluates {α : Type} (I : Interpretation α) : Outcome α → Outcome Expr → Prop
  | value {a : α} {e : Expr} {q : Parser} :
      e.eval I = .ok a → Evaluates I (.value a q) (.value e q)
  | failure {err : ParseError} {q : Parser} : Evaluates I (.failure err q) (.failure err q)
  | unfinished : Evaluates I .unfinished .unfinished
  | refused {err : ParseError} {q : Parser} {o : Outcome Expr} :
      I.Reports err → Evaluates I (.failure err q) o

namespace Outcome.Evaluates

variable {α : Type} {I : Interpretation α} {o : Outcome α} {o' : Outcome Expr}

/-- An operation either computes the value of the tree that is built in its place, or fails. -/
theorem ofExcept {r : Except ParseError α} {e : Expr} (q : Parser) (he : e.eval I = r)
    (hr : ∀ err, r = .error err → I.Reports err) : Evaluates I (.ofExcept r q) (.value e q) := by
  cases r with
  | ok a => exact .value he
  | error err => exact .refused (hr err rfl)

theorem andThen {next : α → Parser → Outcome α} {next' : Expr → Parser → Outcome Expr}
    (h : Evaluates I o o')
    (hn : ∀ a e q, e.eval I = .ok a → Evaluates I (next a q) (next' e q)) :
    Evaluates I (o.andThen next) (o'.andThen next') := by
  cases h with
  | value he => exact hn _ _ _ he
  | failure => exact .failure
  | unfinished => exact .unfinished
  | refused hr => exact .refused hr

theorem mapLeave (h : Evaluates I o o') :
    Evaluates I (o.mapParser Parser.leave) (o'.mapParser Parser.leave) := by
  cases h with
  | value he => exact .value he
  | failure => exact .failure
  | unfinished => exact .unfinished
  | refused hr => exact .refused hr

end Outcome.Evaluates

open Outcome (Evaluates)

section Rules

variable {α : Type} {I : Interpretation α} {operand : Nat → Parser → Outcome α}
  {operand' : Nat → Parser → Outcome Expr}

theorem PrefixRule.run_evaluates (rule : PrefixRule)
    (h : ∀ θ q, Evaluates I (operand θ q) (operand' θ q)) (t : Token) (p : Parser) :
    Evaluates I (rule.run I operand t p) (rule.run Expr.interpretation operand' t p) := by
  cases rule with
  | atom => exact .ofExcept p rfl (fun _ herr => .atom herr)
  | group =>
      refine (h 0 p).andThen ?_
      intro a e q he
      obtain ⟨r, q'⟩ := q.expect .rightParen
      cases r with
      | ok closing => exact .value (Expr.eval_group_eq_ok.2 ⟨a, he, rfl⟩)
      | error err => exact .failure
  | unary m =>
      refine (h m p).andThen ?_
      intro a e q he
      exact .ofExcept q (by rw [Expr.eval, he]) (fun _ herr => .unary herr)

theorem InfixRule.run_evaluates (rule : InfixRule)
    (h : ∀ θ q, Evaluates I (operand θ q) (operand' θ q)) {left : α} {tree : Expr}
    (hleft : tree.eval I = .ok left) (t : Token) (p : Parser) :
    Evaluates I (rule.run I operand left t p) (rule.run Expr.interpretation operand' tree t p) := by
  cases rule with
  | binary prec assoc =>
      refine (h _ p).andThen ?_
      intro a e q he
      exact .ofExcept q (by rw [Expr.eval, hleft, he]) (fun _ herr => .binary herr)
  | postfixed prec =>
      exact .ofExcept p (by rw [Expr.eval, hleft]) (fun _ herr => .postfixed herr)

end Rules

namespace Parser

variable {α : Type}

/-- Neither the engine nor its loop looks at the value that it has been given. -/
theorem evaluates_of_bound (g : Grammar) (I : Interpretation α) (n : Nat) :
    (∀ θ p, Evaluates I (parse g I n θ p) (parse g Expr.interpretation n θ p)) ∧
      ∀ θ left tree p, tree.eval I = .ok left →
        Evaluates I (climb g I n θ left p) (climb g Expr.interpretation n θ tree p) := by
  induction n with
  | zero => exact ⟨fun _ _ => .unfinished, fun _ _ _ _ _ => .unfinished⟩
  | succ n ih =>
      obtain ⟨ihp, ihc⟩ := ih
      constructor
      · intro θ p
        rcases Nat.lt_or_ge p.depth p.maxDepth with h | h
        · cases hr : g.prefixRule? p.enter.consume.1.kind with
          | none =>
              rw [parse_of_noPrefix h hr, parse_of_noPrefix h hr]
              exact .failure
          | some rule =>
              rw [parse_of_prefixRule h hr, parse_of_prefixRule h hr]
              exact ((rule.run_evaluates ihp _ _).andThen
                (fun a e q he => ihc θ a e q he)).mapLeave
        · rw [parse_of_tooDeep h, parse_of_tooDeep h]
          exact .failure
      · intro θ left tree p htree
        rcases Nat.lt_or_ge θ (p.precedence g).1 with h | h
        · cases hr : g.infixRule? (p.precedence g).2.consume.1.kind with
          | none =>
              rw [climb_of_unknown h hr, climb_of_unknown h hr]
              exact .failure
          | some rule =>
              rw [climb_of_lt h hr, climb_of_lt h hr]
              exact (rule.run_evaluates ihp htree _ _).andThen (fun a e q he => ihc θ a e q he)
        · rw [climb_of_le h, climb_of_le h]
          exact .value htree

/-- A run that computes beside the run that builds the tree, with any bound. -/
theorem parse_evaluates (g : Grammar) (I : Interpretation α) (n θ : Nat) (p : Parser) :
    Evaluates I (parse g I n θ p) (parse g Expr.interpretation n θ p) :=
  (evaluates_of_bound g I n).1 θ p

end Parser

/-! ### Errors without operations -/

/-- No operation fails on a token of the tape in the part that its rules give it. -/
structure Interpretation.Accepts {α : Type} (I : Interpretation α) (g : Grammar) (S : Tape) :
    Prop where
  atom : ∀ i, g.prefixRule? (S i).kind = some .atom → ∃ a, I.atom (S i) = .ok a
  unary : ∀ i m, g.prefixRule? (S i).kind = some (.unary m) → ∀ a, ∃ b, I.unary (S i) a = .ok b
  binary : ∀ i prec assoc, g.infixRule? (S i).kind = some (.binary prec assoc) →
    ∀ a b, ∃ c, I.binary a (S i) b = .ok c
  postfixed : ∀ i prec, g.infixRule? (S i).kind = some (.postfixed prec) →
    ∀ a, ∃ b, I.postfixed a (S i) = .ok b

/-- The errors of a reader whose operations do not fail, each about a token of the tape: one that
starts no expression, one in the place of a right parenthesis, or one beyond the depth limit. -/
inductive Tape.Refuses (g : Grammar) (S : Tape) (limit : Nat) : ParseError → Prop
  | noPrefix {i : Nat} : g.prefixRule? (S i).kind = none →
      Refuses g S limit (.noPrefix (S i).kind (S i).text (S i).span)
  | expected {i : Nat} : (S i).kind ≠ .rightParen →
      Refuses g S limit (.expected .rightParen (S i).kind (S i).span)
  | tooDeep (i : Nat) : Refuses g S limit (.tooDeep limit (S i).span)

theorem Tape.Refuses.isOfReader {g : Grammar} {S : Tape} {limit : Nat} {e : ParseError}
    (h : Refuses g S limit e) : e.IsOfReader := by
  cases h <;> trivial

open Landing (Meets)

namespace Tape

variable {α : Type} {I : Interpretation α} {g : Grammar} {S : Tape}

/-- Where no operation fails, all errors arise in the reader. -/
theorem confines_refuses (hI : I.Accepts g S) (limit : Nat) :
    Confines g I S limit (fun e _ => Refuses g S limit e) where
  noPrefix _ hr := .noPrefix hr
  expected _ hk := .expected hk
  tooDeep i := .tooDeep i
  atom i e hr he := by
    obtain ⟨a, ha⟩ := hI.atom i hr
    rw [ha] at he
    cases he
  unary i _ m a e hr he := by
    obtain ⟨b, hb⟩ := hI.unary i m hr a
    rw [hb] at he
    cases he
  binary i _ prec assoc a b e hr he := by
    obtain ⟨c, hc⟩ := hI.binary i prec assoc hr a b
    rw [hc] at he
    cases he
  postfixed i prec a e hr he := by
    obtain ⟨b, hb⟩ := hI.postfixed i prec hr a
    rw [hb] at he
    cases he

/-- Where no operation fails, every error is about a token of the tape. -/
theorem read_refuses (hI : I.Accepts g S) (limit n depth θ i : Nat) :
    Meets (fun _ => True) (fun e _ => Refuses g S limit e) (read g I S limit n depth θ i) :=
  read_meets (confines_refuses hI limit) n depth θ i

end Tape

/-! ### The calculator on a line -/

namespace Calculator

variable {α : Type}

/-- On a line no operation of the calculator fails. -/
theorem accepts_line (A : Arithmetic α) (l : Lexer) :
    A.interpretation.Accepts grammar (Source.line l).endless where
  atom n hr := by
    have hk : (l.after n).next.1.kind = .number := prefixRule_atom.1 hr
    obtain ⟨numeral, hnumeral⟩ := Lexer.exists_ofText_next hk
    refine ⟨A.ofNumeral numeral, ?_⟩
    change A.number (l.after n).next.1.text = _
    rw [Arithmetic.number, hnumeral]
  unary n m hr a := by
    obtain ⟨hop, -⟩ := prefixRule_unary.1 hr
    change ∃ b, A.unary _ a = .ok b
    rcases hop with hop | hop <;> simp [Arithmetic.unary, hop]
  binary n prec assoc hr a b := by
    change ∃ c, A.binary a _ b = .ok c
    rcases infixRule_binary.1 hr with ⟨hop | hop, -⟩ | ⟨hop | hop, -⟩ | ⟨hop, -⟩ <;>
      simp [Arithmetic.binary, hop]
  postfixed n prec hr a := absurd hr infixRule_postfixed

variable {A : Arithmetic α} {separator : Char} {line : String} {limit θ : Nat} {e : ParseError}
  {q : Parser}

/-- Every error of the calculator is about a token of the line. -/
theorem refuses_of_failure
    (h : (parser separator line limit).parseExpression grammar A.interpretation θ =
      .failure e q) :
    Tape.Refuses grammar (Source.line (.ofLine separator line)).endless limit e := by
  have hland := Parser.parseExpression_landsOn grammar A.interpretation θ
    (Parser.follows_ofSource (.line (.ofLine separator line)) limit)
  rw [show Parser.ofSource (.line (.ofLine separator line)) limit =
    parser separator line limit from rfl, h] at hland
  obtain ⟨k, hk, -⟩ := hland.exists_failure_place
  exact (Tape.read_refuses (accepts_line A _) limit _ 0 θ 0).failure e k hk

/-- **Computing while reading is computing afterwards.**  On every line, with every separator, depth
limit and threshold, the calculator ends as the engine does that builds trees by the same rules:
with the value that the tree denotes, or with the same error, and in either case in the same state,
the counters and the tokens to come included. -/
theorem parseExpression_evaluates (A : Arithmetic α) (separator : Char) (line : String)
    (limit θ : Nat) :
    match (parser separator line limit).parseExpression grammar Expr.interpretation θ with
    | .value e q =>
        ∃ a, Denotes A e a ∧
          (parser separator line limit).parseExpression grammar A.interpretation θ = .value a q
    | .failure err q =>
        (parser separator line limit).parseExpression grammar A.interpretation θ = .failure err q
    | .unfinished => False := by
  have hfinished := Parser.parseExpression_ne_unfinished grammar_stopsAtEnd A.interpretation θ
    (parser separator line limit)
  have hrun := Parser.parse_evaluates grammar A.interpretation
    (parser separator line limit).bound θ (parser separator line limit)
  rw [← Parser.parseExpression, ← Parser.parseExpression] at hrun
  generalize hcomputed :
    (parser separator line limit).parseExpression grammar A.interpretation θ = computed
    at hfinished hrun ⊢
  generalize (parser separator line limit).parseExpression grammar Expr.interpretation θ = built
    at hrun ⊢
  cases hrun with
  | value he => exact ⟨_, denotes_iff.2 he, rfl⟩
  | failure => rfl
  | unfinished => exact hfinished rfl
  | refused hreport =>
      -- an error of an operation is none of the reader
      exact absurd (refuses_of_failure hcomputed).isOfReader
        (A.interpretation_sincere _ hreport)

end Calculator

end Reckon

/-
**A parser in use.**

Whoever holds a parser may read expressions, take tokens, ask for tokens of a kind and look ahead,
in any order and however the steps before have ended.  Two things leave a step without an answer:
an expression that goes on for ever, and a distance that cannot be counted to.

Main definitions:

* `Operation`, `Reply`, `Silence` — the steps, their answers, and why there may be none;
* `Operation.run`, `Parser.session` — one step, and a list of steps one after another;
* `Operation.InReach` — the steps that look at no place beyond reach.
-/

import Reckon.Parser.Climb

set_option autoImplicit false
set_option relaxedAutoImplicit false

namespace Reckon

/-- The steps that a parser offers: reading an expression above a threshold, taking the next token,
complaining about a token of another kind or leaving it, looking some places ahead, and looking at
the precedence of the next token. -/
inductive Operation where
  | parse (threshold : Nat)
  | consume
  | expect (wanted : Kind)
  | accept (wanted : Kind)
  | peek (distance : UInt64)
  | precedence
deriving DecidableEq, Repr

inductive Reply (α : Type) where
  | parsed (result : Except ParseError α)
  | token (token : Token)
  | expected (result : Except ParseError Token)
  | accepted (found : Bool)
  | precedence (prec : Nat)

/-- Why there is no answer: an expression goes on for ever, or a distance cannot be counted to. -/
inductive Silence where
  | endless
  | overflow
deriving DecidableEq, Repr

/-- The step looks at no place beyond reach. -/
def Operation.InReach : Operation → Prop
  | .peek distance => Parser.InReach distance.toNat
  | _ => True

instance : DecidablePred Operation.InReach
  | .parse _ | .consume | .expect _ | .accept _ | .precedence => isTrue trivial
  | .peek distance => inferInstanceAs (Decidable (Parser.InReach distance.toNat))

theorem Operation.forall_inReach_or (ops : List Operation) :
    (∀ op ∈ ops, op.InReach) ∨ ∃ op ∈ ops, ¬ op.InReach := by
  by_cases h : ∃ op ∈ ops, ¬ op.InReach
  · exact Or.inr h
  · exact Or.inl fun op hmem => Decidable.byContradiction fun hop => h ⟨op, hmem, hop⟩

def Operation.run {α : Type} (g : Grammar) (I : Interpretation α) (p : Parser) :
    Operation → Except Silence (Reply α × Parser)
  | .parse threshold =>
      match p.parseExpression g I threshold with
      | .value a q => .ok (.parsed (.ok a), q)
      | .failure e q => .ok (.parsed (.error e), q)
      | .unfinished => .error .endless
  | .consume =>
      let (t, q) := p.consume
      .ok (.token t, q)
  | .expect wanted =>
      let (r, q) := p.expect wanted
      .ok (.expected r, q)
  | .accept wanted =>
      let (found, q) := p.accept wanted
      .ok (.accepted found, q)
  | .peek distance =>
      match p.lookAhead distance with
      | some (t, q) => .ok (.token t, q)
      | none => .error .overflow
  | .precedence =>
      let (prec, q) := p.precedence g
      .ok (.precedence prec, q)

/-- Takes steps one after another and keeps the answers. -/
def Parser.session {α : Type} (g : Grammar) (I : Interpretation α) :
    List Operation → Parser → Except Silence (List (Reply α) × Parser)
  | [], p => .ok ([], p)
  | op :: ops, p =>
      match op.run g I p with
      | .error e => .error e
      | .ok (r, q) =>
          match Parser.session g I ops q with
          | .error e => .error e
          | .ok (rs, last) => .ok (r :: rs, last)

theorem Operation.run_peek {α : Type} {g : Grammar} {I : Interpretation α} {p : Parser}
    {distance : UInt64} (h : Parser.InReach distance.toNat) :
    (Operation.peek distance).run g I p =
      .ok (.token (p.peek distance.toNat h).1, (p.peek distance.toNat h).2) := by
  rw [run, Parser.lookAhead_of_inReach h]

/-- If reading an expression is answered, it has ended, and left the parser that goes on. -/
theorem Operation.parser?_of_run_parse {α : Type} {g : Grammar} {I : Interpretation α}
    {p q : Parser} {threshold : Nat} {r : Reply α}
    (h : (Operation.parse threshold).run g I p = .ok (r, q)) :
    (p.parseExpression g I threshold).parser? = some q := by
  rw [run] at h
  cases ho : p.parseExpression g I threshold with
  | value a q' =>
      rw [ho] at h
      cases h
      rfl
  | failure e q' =>
      rw [ho] at h
      cases h
      rfl
  | unfinished =>
      rw [ho] at h
      cases h

/-- A session is answered if its first step is and the others are. -/
theorem Parser.session_cons_eq_ok {α : Type} {g : Grammar} {I : Interpretation α}
    {op : Operation} {ops : List Operation} {p last : Parser} {answers : List (Reply α)} :
    Parser.session g I (op :: ops) p = .ok (answers, last) ↔
      ∃ r q rs, op.run g I p = .ok (r, q) ∧ Parser.session g I ops q = .ok (rs, last) ∧
        answers = r :: rs := by
  rw [session]
  constructor
  · intro h
    cases hrun : op.run g I p with
    | error e =>
        rw [hrun] at h
        cases h
    | ok next =>
        obtain ⟨r, q⟩ := next
        cases hrest : Parser.session g I ops q with
        | error e =>
            simp only [hrun, hrest] at h
            cases h
        | ok rest =>
            obtain ⟨rs, q'⟩ := rest
            simp only [hrun, hrest] at h
            cases h
            exact ⟨r, q, rs, rfl, hrest, rfl⟩
  · rintro ⟨r, q, rs, hrun, hrest, rfl⟩
    simp only [hrun, hrest]

end Reckon

/-
**A parser is a place in an endless stream.**

A machine whose only state is the number of tokens it has consumed from an endless stream answers
every step that a parser offers, and a parser over a source with that stream gives the same
answers: neither the buffer, nor the tokens drawn in advance, nor the nesting of an expression that
has failed half-way leaves a trace in them.  There is one exception: the machine sees every place
ahead of it, and a parser has no answer at the largest distance that a machine word can hold.  As
the parser never has more tokens pending than a machine word can count, a session that asks for that
place breaks off there.

Main definitions:

* `Machine.Step`, `Machine.Run` — the answers of the machine, to one step and to a list of steps;
* `Parser.Concludes` — no expression that is read from a stream goes on for ever;
* `Parser.Countable` — a machine word can count the pending tokens;
* `Parser.skip` — a parser that has done nothing but consume.

Main results:

* `Machine.Run.unique` — the machine has at most one answer;
* `Parser.Follows.exists_run`, `Parser.Follows.exists_session_of_concludes` — a parser that stands
  at a place answers as the machine does there;
* `Parser.Follows.session_eq_overflow` — a session with a step beyond reach breaks off;
* `Parser.session_refines_machine` — **every session within reach is a run of the machine**.
-/

import Reckon.Calculator
import Reckon.Expr
import Reckon.Parser.Session
import Reckon.Proofs.Endless
import Reckon.Proofs.Invariants

set_option autoImplicit false
set_option relaxedAutoImplicit false

namespace Reckon

namespace Machine

variable {α : Type} {g : Grammar} {I : Interpretation α} {S : Tape} {limit : Nat}

/-- The machine has consumed the first `k` tokens of the stream; it answers one step and goes to
another place.  It looks at any place, however far ahead. -/
inductive Step (g : Grammar) (I : Interpretation α) (S : Tape) (limit : Nat) :
    Operation → Nat → Reply α → Nat → Prop
  | parse {θ k j : Nat} {r : Except ParseError α} :
      Tape.Reads g I S limit θ k r j → Step g I S limit (.parse θ) k (.parsed r) j
  | consume {k : Nat} : Step g I S limit .consume k (.token (S k)) (k + 1)
  | expect_of_eq {wanted : Kind} {k : Nat} :
      (S k).kind = wanted → Step g I S limit (.expect wanted) k (.expected (.ok (S k))) (k + 1)
  | expect_of_ne {wanted : Kind} {k : Nat} :
      (S k).kind ≠ wanted →
        Step g I S limit (.expect wanted) k
          (.expected (.error (.expected wanted (S k).kind (S k).span))) k
  | accept_of_eq {wanted : Kind} {k : Nat} :
      (S k).kind = wanted → Step g I S limit (.accept wanted) k (.accepted true) (k + 1)
  | accept_of_ne {wanted : Kind} {k : Nat} :
      (S k).kind ≠ wanted → Step g I S limit (.accept wanted) k (.accepted false) k
  | peek {distance : UInt64} {k : Nat} :
      Step g I S limit (.peek distance) k (.token (S (k + distance.toNat))) k
  | precedence {k : Nat} :
      Step g I S limit .precedence k (.precedence (g.precedenceOf (S k).kind)) k

/-- The answers to a list of steps, and the place behind the last one. -/
inductive Run (g : Grammar) (I : Interpretation α) (S : Tape) (limit : Nat) :
    List Operation → Nat → List (Reply α) → Nat → Prop
  | nil {k : Nat} : Run g I S limit [] k [] k
  | cons {op : Operation} {ops : List Operation} {k j l : Nat} {r : Reply α}
      {rs : List (Reply α)} :
      Step g I S limit op k r j → Run g I S limit ops j rs l →
        Run g I S limit (op :: ops) k (r :: rs) l

theorem Step.unique {op : Operation} {k j j' : Nat} {r r' : Reply α}
    (h : Step g I S limit op k r j) (h' : Step g I S limit op k r' j') : r = r' ∧ j = j' := by
  cases h with
  | parse hr =>
      cases h' with
      | parse hr' =>
          obtain ⟨rfl, rfl⟩ := Tape.reads_unique hr hr'
          exact ⟨rfl, rfl⟩
  | consume =>
      cases h'
      exact ⟨rfl, rfl⟩
  | expect_of_eq hk =>
      cases h' with
      | expect_of_eq _ => exact ⟨rfl, rfl⟩
      | expect_of_ne hk' => exact absurd hk hk'
  | expect_of_ne hk =>
      cases h' with
      | expect_of_eq hk' => exact absurd hk' hk
      | expect_of_ne _ => exact ⟨rfl, rfl⟩
  | accept_of_eq hk =>
      cases h' with
      | accept_of_eq _ => exact ⟨rfl, rfl⟩
      | accept_of_ne hk' => exact absurd hk hk'
  | accept_of_ne hk =>
      cases h' with
      | accept_of_eq hk' => exact absurd hk' hk
      | accept_of_ne _ => exact ⟨rfl, rfl⟩
  | peek =>
      cases h'
      exact ⟨rfl, rfl⟩
  | precedence =>
      cases h'
      exact ⟨rfl, rfl⟩

/-- The machine has at most one answer. -/
theorem Run.unique {ops : List Operation} {k j j' : Nat} {rs rs' : List (Reply α)}
    (h : Run g I S limit ops k rs j) (h' : Run g I S limit ops k rs' j') : rs = rs' ∧ j = j' := by
  induction h generalizing rs' j' with
  | nil =>
      cases h'
      exact ⟨rfl, rfl⟩
  | cons hstep _ ih =>
      cases h' with
      | cons hstep' hrun' =>
          obtain ⟨rfl, rfl⟩ := hstep.unique hstep'
          obtain ⟨rfl, rfl⟩ := ih hrun'
          exact ⟨rfl, rfl⟩

end Machine

namespace Parser

variable {α : Type} {g : Grammar} {S : Tape} {limit k : Nat} {p : Parser}

/-- No expression that is read from the stream goes on for ever, whichever parser stands on it. -/
def Concludes (g : Grammar) (I : Interpretation α) (S : Tape) (limit : Nat) : Prop :=
  ∀ (p : Parser) (k θ : Nat), p.Follows S limit 0 k →
    Tape.read g I S limit p.bound 0 θ k ≠ .unfinished

/-- Where the end of the input is no operator behind an expression, every expression ends. -/
theorem concludes_of_infixRule (hend : g.infixRule? .endOfInput = none) (I : Interpretation α)
    (S : Tape) (limit : Nat) : Concludes g I S limit := by
  intro p k θ h
  have hlast : ∀ i, k + (p.pending.length + p.source.size) ≤ i →
      g.infixRule? (S i).kind = none := by
    intro i hi
    rw [h.endsAt.kind_eq hi, hend]
  have hbound : p.bound = p.pending.length + p.source.size + 2 * p.maxDepth + 4 := rfl
  have hlimit := h.maxDepth_eq
  exact (Tape.read_endsFrom I hlast (by omega)).1

section Concluding

variable {I : Interpretation α}

/-- Reading an expression ends, and as the machine says. -/
theorem Follows.exists_reads (h : p.Follows S limit 0 k) (hc : Concludes g I S limit) (θ : Nat) :
    ∃ r q j, Operation.run g I p (.parse θ) = .ok (.parsed r, q) ∧ q.Follows S limit 0 j ∧
      Tape.Reads g I S limit θ k r j := by
  have hland := parseExpression_landsOn g I θ h
  rw [Operation.run]
  cases hread : Tape.read g I S limit p.bound 0 θ k with
  | value a j =>
      rw [hread] at hland
      obtain ⟨q, hq, hf⟩ := hland.exists_value
      exact ⟨.ok a, q, j, by rw [hq], hf, p.bound, hread⟩
  | failure e j =>
      rw [hread] at hland
      obtain ⟨q, hq, hf⟩ := hland.exists_failure
      exact ⟨.error e, q, j, by rw [hq], hf, p.bound, hread⟩
  | unfinished => exact absurd hread (hc p k θ h)

/-- A parser that stands at a place answers every step within reach as the machine does there, and
comes to the place that the machine comes to. -/
theorem Follows.exists_run (h : p.Follows S limit 0 k) (hc : Concludes g I S limit)
    {op : Operation} (hop : op.InReach) :
    ∃ r q j, op.run g I p = .ok (r, q) ∧ q.Follows S limit 0 j ∧
      Machine.Step g I S limit op k r j := by
  cases op with
  | parse θ =>
      obtain ⟨r, q, j, hrun, hf, hreads⟩ := h.exists_reads hc θ
      exact ⟨.parsed r, q, j, hrun, hf, .parse hreads⟩
  | consume =>
      refine ⟨.token (S k), p.consume.2, k + 1, ?_, h.consume, .consume⟩
      rw [Operation.run, ← h.consume_fst]
  | expect wanted =>
      by_cases hk : (S k).kind = wanted
      · obtain ⟨q, hq, hf⟩ := h.expect_of_eq hk
        exact ⟨_, q, k + 1, by rw [Operation.run, hq], hf, .expect_of_eq hk⟩
      · obtain ⟨q, hq, hf⟩ := h.expect_of_ne hk
        exact ⟨_, q, k, by rw [Operation.run, hq], hf, .expect_of_ne hk⟩
  | accept wanted =>
      by_cases hk : (S k).kind = wanted
      · obtain ⟨q, hq, hf⟩ := h.accept_of_eq hk
        exact ⟨_, q, k + 1, by rw [Operation.run, hq], hf, .accept_of_eq hk⟩
      · obtain ⟨q, hq, hf⟩ := h.accept_of_ne hk
        exact ⟨_, q, k, by rw [Operation.run, hq], hf, .accept_of_ne hk⟩
  | peek distance =>
      have hreach : InReach distance.toNat := hop
      refine ⟨.token (S (k + distance.toNat)), (p.peek distance.toNat hreach).2, k, ?_,
        h.peek distance.toNat hreach, .peek⟩
      rw [Operation.run_peek hreach, h.peek_fst]
  | precedence =>
      refine ⟨_, (p.precedence g).2, k, ?_, h.precedence g, .precedence⟩
      rw [Operation.run, ← h.precedence_fst]

theorem Follows.exists_session_of_concludes (h : p.Follows S limit 0 k)
    (hc : Concludes g I S limit) {ops : List Operation} (hops : ∀ op ∈ ops, op.InReach) :
    ∃ rs q j, Parser.session g I ops p = .ok (rs, q) ∧ q.Follows S limit 0 j ∧
      Machine.Run g I S limit ops k rs j := by
  induction ops generalizing p k with
  | nil => exact ⟨[], p, k, rfl, h, .nil⟩
  | cons op ops ih =>
      obtain ⟨hop, hrest⟩ := List.forall_mem_cons.1 hops
      obtain ⟨r, q, j, hrun, hf, hstep⟩ := h.exists_run hc hop
      obtain ⟨rs, q', j', hsession, hf', htail⟩ := ih hf hrest
      exact ⟨r :: rs, q', j', session_cons_eq_ok.2 ⟨r, q, rs, hrun, hsession, rfl⟩, hf',
        .cons hstep htail⟩

end Concluding

/-! ### Beyond reach -/

/-- The pending tokens can be counted by a machine word. -/
def Countable (p : Parser) : Prop := p.pending.length < UInt64.size

theorem countable_ofSource (s : Source) (limit : Nat) : (ofSource s limit).Countable := by
  rw [Countable, ofSource, List.length_nil]
  decide

theorem Countable.fill {count : Nat} (hp : p.Countable) (hcount : count < UInt64.size) :
    (p.fill count).Countable := by
  rw [Countable, length_pending_fill]
  exact Nat.max_lt.2 ⟨hp, hcount⟩

theorem Countable.consume (hp : p.Countable) : p.consume.2.Countable := by
  rw [Countable, length_pending_consume]
  exact Nat.lt_of_le_of_lt (Nat.sub_le _ _) (Nat.max_lt.2 ⟨hp, inReach_zero⟩)

theorem kept_countable : Kept Countable where
  peek _ h := h.fill inReach_zero
  consume _ h := h.consume
  countPrefix _ h := h.consume
  countInfix _ h := h.consume
  enter _ h := h
  leave _ h := h

theorem Countable.run_of_not_inReach {I : Interpretation α} {op : Operation} (hp : p.Countable)
    (hop : ¬ op.InReach) : op.run g I p = .error .overflow := by
  cases op with
  | peek distance => rw [Operation.run, lookAhead_of_not_inReach hop hp]
  | _ => exact absurd trivial hop

/-- What is answered has been within reach. -/
theorem Countable.inReach_of_run {I : Interpretation α} {op : Operation} {r : Reply α} {q : Parser}
    (hp : p.Countable) (h : op.run g I p = .ok (r, q)) : op.InReach := by
  refine Decidable.byContradiction fun hop => ?_
  rw [hp.run_of_not_inReach hop] at h
  cases h

theorem Countable.run {I : Interpretation α} {op : Operation} {r : Reply α} {q : Parser}
    (hp : p.Countable) (h : op.run g I p = .ok (r, q)) : q.Countable := by
  cases op with
  | parse θ => exact parse_leaves kept_countable g I _ θ hp q (Operation.parser?_of_run_parse h)
  | consume =>
      cases h
      exact hp.consume
  | expect wanted =>
      cases h
      exact kept_countable.expect wanted hp
  | accept wanted =>
      cases h
      exact kept_countable.accept wanted hp
  | peek distance =>
      have hop : InReach distance.toNat := hp.inReach_of_run h
      rw [Operation.run_peek hop] at h
      cases h
      exact hp.fill hop
  | precedence =>
      cases h
      exact hp.fill inReach_zero

/-- A step beyond reach leaves a session without an answer, if no other step does before. -/
theorem Follows.session_eq_overflow {I : Interpretation α} (h : p.Follows S limit 0 k)
    (hc : Concludes g I S limit) (hp : p.Countable) {ops : List Operation}
    (hops : ∃ op ∈ ops, ¬ op.InReach) : session g I ops p = .error .overflow := by
  induction ops generalizing p k with
  | nil =>
      obtain ⟨op, hmem, -⟩ := hops
      exact absurd hmem List.not_mem_nil
  | cons op ops ih =>
      by_cases hop : op.InReach
      · obtain ⟨r, q, j, hrun, hf, -⟩ := h.exists_run hc hop
        have hrest : ∃ op ∈ ops, ¬ op.InReach := by
          obtain ⟨op', hmem, hop'⟩ := hops
          rcases List.mem_cons.1 hmem with rfl | hmem
          · exact absurd hop hop'
          · exact ⟨op', hmem, hop'⟩
        rw [session, hrun]
        simp only [ih hf (hp.run hrun) hrest]
      · rw [session, hp.run_of_not_inReach hop]

/-- The answers depend on the place alone. -/
theorem Follows.session_eq {I : Interpretation α} {p' : Parser} (h : p.Follows S limit 0 k)
    (h' : p'.Follows S limit 0 k) (hp : p.Countable) (hp' : p'.Countable)
    (hc : Concludes g I S limit) (ops : List Operation) :
    (session g I ops p).map Prod.fst = (session g I ops p').map Prod.fst := by
  rcases Operation.forall_inReach_or ops with hops | hops
  · obtain ⟨rs, q, j, hs, -, hrun⟩ := h.exists_session_of_concludes hc hops
    obtain ⟨rs', q', j', hs', -, hrun'⟩ := h'.exists_session_of_concludes hc hops
    obtain ⟨rfl, -⟩ := hrun.unique hrun'
    rw [hs, hs']
    rfl
  · rw [h.session_eq_overflow hc hp hops, h'.session_eq_overflow hc hp' hops]

/-- The parser that has consumed `n` more tokens and done nothing else. -/
def skip : Nat → Parser → Parser
  | 0, p => p
  | n + 1, p => skip n p.consume.2

theorem Follows.skip (h : p.Follows S limit 0 k) (n : Nat) :
    (p.skip n).Follows S limit 0 (k + n) := by
  induction n generalizing p k with
  | zero => exact h
  | succ n ih =>
      rw [Nat.add_comm n 1, ← Nat.add_assoc, Nat.add_comm 1 n]
      exact ih h.consume

theorem Countable.skip (hp : p.Countable) (n : Nat) : (p.skip n).Countable := by
  induction n generalizing p with
  | zero => exact hp
  | succ n ih => exact ih hp.consume

theorem Countable.session {I : Interpretation α} {ops : List Operation} {rs : List (Reply α)}
    {q : Parser} (hp : p.Countable) (h : session g I ops p = .ok (rs, q)) : q.Countable := by
  induction ops generalizing p rs with
  | nil =>
      cases h
      exact hp
  | cons op ops ih =>
      obtain ⟨r, q', rs', hrun, hrest, -⟩ := session_cons_eq_ok.1 h
      exact ih (hp.run hrun) hrest

/-- **Every session within reach is a run of the machine.**  If the end of the input is no operator
behind an expression and no step looks at a place beyond reach, all steps are answered; the machine
gives these answers and no others and stops where the parser has stopped; and from then on the
parser answers as a new one that has consumed as many tokens.  If a step does look at a place beyond
reach, the session breaks off there. -/
theorem session_refines_machine (g : Grammar) (I : Interpretation α) (s : Source) (limit : Nat)
    (hend : g.infixRule? .endOfInput = none) (ops : List Operation) :
    ((∀ op ∈ ops, op.InReach) → ∃ rs q, session g I ops (ofSource s limit) = .ok (rs, q) ∧
      (∀ rs' k, Machine.Run g I s.endless limit ops 0 rs' k ↔
        rs' = rs ∧ k = q.stats.consumed) ∧
      ∀ later, (session g I later q).map Prod.fst =
        (session g I later ((ofSource s limit).skip q.stats.consumed)).map Prod.fst) ∧
    ((∃ op ∈ ops, ¬ op.InReach) → session g I ops (ofSource s limit) = .error .overflow) := by
  have hstart := follows_ofSource s limit
  have hcountable := countable_ofSource s limit
  have hc := concludes_of_infixRule hend I s.endless limit
  refine ⟨?_, hstart.session_eq_overflow hc hcountable⟩
  intro hops
  obtain ⟨rs, q, j, hs, hf, hrun⟩ := hstart.exists_session_of_concludes hc hops
  obtain rfl := hf.consumed_eq
  refine ⟨rs, q, hs, ?_, ?_⟩
  · intro rs' k
    constructor
    · intro hrun'
      exact hrun'.unique hrun
    · rintro ⟨rfl, rfl⟩
      exact hrun
  · intro later
    have hskip := hstart.skip q.stats.consumed
    rw [Nat.zero_add] at hskip
    exact hf.session_eq hskip (hcountable.session hs) (hcountable.skip _) hc later

theorem session_refines_machine_unclosed :
    Calculator.grammar.infixRule? .endOfInput = none ∧
      (∀ op ∈ [Operation.peek 5, .parse 0, .accept .plus, .precedence, .parse 4, .consume],
        op.InReach) ∧
      (∃ rs q, session Calculator.grammar Expr.interpretation
          [.peek 5, .parse 0, .accept .plus, .precedence, .parse 4, .consume]
          (ofSource (.line (.ofLine '.' "(1 2)) + 3")) 2) = .ok (rs, q) ∧
        (∀ rs' k, Machine.Run Calculator.grammar Expr.interpretation
            (Source.line (.ofLine '.' "(1 2)) + 3")).endless 2
            [.peek 5, .parse 0, .accept .plus, .precedence, .parse 4, .consume] 0 rs' k ↔
          rs' = rs ∧ k = q.stats.consumed) ∧
        ∀ later, (session Calculator.grammar Expr.interpretation later q).map Prod.fst =
          (session Calculator.grammar Expr.interpretation later
            ((ofSource (.line (.ofLine '.' "(1 2)) + 3")) 2).skip q.stats.consumed)).map
              Prod.fst) ∧
      (∃ op ∈ [Operation.parse 0, .peek 18446744073709551615, .consume], ¬ op.InReach) ∧
      session Calculator.grammar Expr.interpretation
        [.parse 0, .peek 18446744073709551615, .consume]
        (ofSource (.line (.ofLine '.' "(1 2)) + 3")) 2) = .error .overflow := by
  have hops : ∀ op ∈ [Operation.peek 5, .parse 0, .accept .plus, .precedence, .parse 4, .consume],
      op.InReach := by decide
  have hbeyond : ∃ op ∈ [Operation.parse 0, .peek 18446744073709551615, .consume],
      ¬ op.InReach := by decide
  exact ⟨rfl, hops,
    (session_refines_machine Calculator.grammar Expr.interpretation _ 2 rfl _).1 hops, hbeyond,
    (session_refines_machine Calculator.grammar Expr.interpretation _ 2 rfl _).2 hbeyond⟩

/-- At the largest distance the machine sees the end of an empty list, and the parser sees
nothing. -/
theorem no_answer_beyond_reach :
    Machine.Run Calculator.grammar Expr.interpretation (Source.list []).endless 256
        [.peek 18446744073709551615] 0 [.token (.endOfInput none)] 0 ∧
      session Calculator.grammar Expr.interpretation [.peek 18446744073709551615]
        (ofSource (.list []) 256) = .error .overflow := by
  have hlast : (Source.list []).endless (0 + (18446744073709551615 : UInt64).toNat) =
      .endOfInput none := rfl
  refine ⟨?_, rfl⟩
  rw [← hlast]
  exact .cons .peek .nil

end Parser

end Reckon

/-
**An engine that checks itself finds no fault within reach.**

The parser guards against what is taken to be impossible: that no token is pending after filling,
that the place looked at is not there, that a token binds tighter than a threshold and has no rule.
Here the same engine stops with a fault wherever it would defend itself, and it checks besides that
as many tokens are pending as have been asked for, and that the token taken is the one whose
precedence has been read.

The engine is run over any source whatever, one that goes on behind its end included, and with any
rules: a rule may take all the steps that a parser offers, in any order, read the counters, and get
over errors.  As long as nobody looks beyond reach, there is no fault all the same, in any state,
however far a run is followed.  The checks are local, so it is enough to see that filling fills,
and that what has been looked at stays in front; what the rules do in between does not matter.

Main definitions:

* `Operation.Answer` — the answers to the steps of a parser;
* `Checked.State`, `Checked.Verdict` — the state over any source, and how a step ends;
* `Checked.fill`, `Checked.consume`, `Checked.peek` — the steps, with their checks;
* `Checked.Routine`, `Checked.Rules` — what a rule does with the parser, and tables of such rules;
* `Checked.Routine.InReach`, `Checked.Rules.InReach` — those that look at no place beyond reach;
* `Checked.parse`, `Checked.climb` — the engine and its loop;
* `Checked.operate`, `Checked.session` — its use.

Main results:

* `Checked.exists_consume`, `Checked.exists_peek` — the token asked for is there;
* `Checked.peek_of_not_inReach` — beyond reach there is none;
* `Checked.exists_consume_of_peek` — what has been looked at is what is taken;
* `Checked.parse_ne_fault`, `Checked.session_ne_fault` — **no check ever fails**.
-/

import Reckon.Parser.Session

set_option autoImplicit false
set_option relaxedAutoImplicit false

namespace Reckon

/-- The answer to a step. -/
abbrev Operation.Answer (α : Type) : Operation → Type
  | parse _ => Except ParseError α
  | consume => Token
  | expect _ => Except ParseError Token
  | accept _ => Bool
  | peek _ => Token
  | precedence => Nat

/-- The answer as one of all answers. -/
def Operation.reply {α : Type} : (op : Operation) → op.Answer α → Reply α
  | parse _, r => .parsed r
  | consume, t => .token t
  | expect _, r => .expected r
  | accept _, found => .accepted found
  | peek _, t => .token t
  | precedence, prec => .precedence prec

namespace Checked

/-! ### States over any source -/

/-- The state of a parser whose source has the states `σ`. -/
structure State (σ : Type) where
  source : σ
  pending : List Token
  endSpan : Option Span
  depth : Nat
  maxDepth : Nat
  stats : Stats

/-- How a step ends: with an answer, cut off as its bound is used up, or with a check that has
failed. -/
inductive Verdict (σ β : Type) where
  | done (answer : β) (state : State σ)
  | cut
  | fault

namespace Verdict

variable {σ β γ : Type}

/-- Goes on behind an answer. -/
def andThen (v : Verdict σ β) (next : β → State σ → Verdict σ γ) : Verdict σ γ :=
  match v with
  | done b s => next b s
  | cut => cut
  | fault => fault

/-- Goes on behind a value; an error is the answer. -/
def andTry (v : Verdict σ (Except ParseError β))
    (next : β → State σ → Verdict σ (Except ParseError γ)) : Verdict σ (Except ParseError γ) :=
  v.andThen fun r s =>
    match r with
    | .ok b => next b s
    | .error e => .done (.error e) s

def mapState (f : State σ → State σ) (v : Verdict σ β) : Verdict σ β :=
  v.andThen fun b s => .done b (f s)

@[simp] theorem andThen_done (b : β) (s : State σ) (next : β → State σ → Verdict σ γ) :
    (done b s).andThen next = next b s := rfl

theorem andThen_ne_fault {v : Verdict σ β} {next : β → State σ → Verdict σ γ} (h : v ≠ .fault)
    (hn : ∀ b s, next b s ≠ .fault) : v.andThen next ≠ .fault := by
  cases v with
  | done b s => exact hn b s
  | cut => simp [andThen]
  | fault => exact absurd rfl h

theorem andTry_ne_fault {v : Verdict σ (Except ParseError β)}
    {next : β → State σ → Verdict σ (Except ParseError γ)} (h : v ≠ .fault)
    (hn : ∀ b s, next b s ≠ .fault) : v.andTry next ≠ .fault := by
  refine andThen_ne_fault h ?_
  rintro (e | b) s
  · simp
  · exact hn b s

theorem mapState_ne_fault {f : State σ → State σ} {v : Verdict σ β} (h : v ≠ .fault) :
    v.mapState f ≠ .fault :=
  andThen_ne_fault h (by simp)

end Verdict

namespace State

variable {σ : Type}

def enter (s : State σ) : State σ := { s with depth := s.depth + 1 }

def leave (s : State σ) : State σ := { s with depth := s.depth - 1 }

def countPrefix (s : State σ) : State σ :=
  { s with stats := { s.stats with prefixUses := s.stats.prefixUses + 1 } }

def countInfix (s : State σ) : State σ :=
  { s with stats := { s.stats with infixUses := s.stats.infixUses + 1 } }

/-- The token that is drawn next, from a source of which `pull` draws, or an end of the input where
the source yields nothing. -/
def upcoming (pull : σ → Option Token × σ) (s : State σ) : Token :=
  match (pull s.source).1 with
  | some t => t
  | none => Token.endOfInput s.endSpan

def draw (pull : σ → Option Token × σ) (s : State σ) : State σ :=
  { s with
    source := (pull s.source).2
    pending := s.pending ++ [s.upcoming pull]
    endSpan := Source.endAfter s.endSpan (s.upcoming pull)
    stats := { s.stats with drawn := s.stats.drawn + 1 } }

def drawTo (pull : σ → Option Token × σ) (count : Nat) (s : State σ) : State σ :=
  if s.pending.length < count then drawTo pull count (s.draw pull) else s
termination_by count - s.pending.length
decreasing_by
  rw [draw, List.length_append, List.length_singleton]
  omega

/-- Draws until at least `count` tokens are pending, and notes how many there are. -/
def fill (pull : σ → Option Token × σ) (count : Nat) (s : State σ) : State σ :=
  let s := s.drawTo pull count
  { s with stats := { s.stats with widest := max s.stats.widest s.pending.length } }

/-- The state in which the tokens `ts` are left behind the one that has been taken. -/
def behind (ts : List Token) (s : State σ) : State σ :=
  { s with
    pending := ts
    stats := { s.stats with consumed := s.stats.consumed + 1 } }

/-- Filling brings the tokens that are asked for. -/
theorem le_length_fill (pull : σ → Option Token × σ) (count : Nat) (s : State σ) :
    count ≤ (s.fill pull count).pending.length := by
  rw [fill]
  simp only
  fun_induction drawTo pull count s with
  | case1 s h ih => exact ih
  | case2 s h => exact Nat.le_of_not_lt h

/-- It leaves the pending tokens alone when there are enough of them. -/
theorem pending_fill_of_le (pull : σ → Option Token × σ) {count : Nat} {s : State σ}
    (h : count ≤ s.pending.length) : (s.fill pull count).pending = s.pending := by
  rw [fill, drawTo, if_neg (Nat.not_lt_of_le h)]

end State

/-! ### Steps that are checked -/

section Steps

variable {σ : Type} (pull : σ → Option Token × σ)

/-- Draws until enough tokens are pending, and checks that they are. -/
def fill (count : Nat) (s : State σ) : Verdict σ Unit :=
  if count ≤ (s.fill pull count).pending.length then .done () (s.fill pull count) else .fault

/-- Takes the next token.  It is a fault if there is none. -/
def consume (s : State σ) : Verdict σ Token :=
  (fill pull 1 s).andThen fun _ s =>
    match s.pending with
    | t :: ts => .done t (s.behind ts)
    | [] => .fault

/-- Looks at the token `distance` places ahead.  It is a fault if there is none.  As in
`Parser.lookAhead` the number of tokens that are asked for is a machine word. -/
def peek (distance : UInt64) (s : State σ) : Verdict σ Token :=
  (fill pull (distance + 1).toNat s).andThen fun _ s =>
    match s.pending[distance.toNat]? with
    | some t => .done t s
    | none => .fault

/-- Takes the next token if it has the kind `wanted`.  The answer is made of the token that is taken
or of the one that stays. -/
def takeIf {β : Type} (wanted : Kind) (taken left : Token → β) (s : State σ) : Verdict σ β :=
  (peek pull 0 s).andThen fun t s =>
    if t.kind = wanted then (consume pull s).andThen fun t s => .done (taken t) s
    else .done (left t) s

theorem fill_eq (count : Nat) (s : State σ) : fill pull count s = .done () (s.fill pull count) :=
  if_pos (s.le_length_fill pull count)

/-- After filling, some token is pending, and it is the one that is taken. -/
theorem exists_consume (s : State σ) :
    ∃ t ts, (s.fill pull 1).pending = t :: ts ∧
      consume pull s = .done t ((s.fill pull 1).behind ts) := by
  have hlen := s.le_length_fill pull 1
  cases hp : (s.fill pull 1).pending with
  | nil =>
      rw [hp, List.length_nil] at hlen
      exact absurd hlen (by decide)
  | cons t ts =>
      refine ⟨t, ts, rfl, ?_⟩
      rw [consume, fill_eq, Verdict.andThen_done]
      simp only [hp]

/-- After filling, a place within reach is there. -/
theorem exists_peek {distance : UInt64} (h : Parser.InReach distance.toNat) (s : State σ) :
    ∃ t, (s.fill pull (distance.toNat + 1)).pending[distance.toNat]? = some t ∧
      peek pull distance s = .done t (s.fill pull (distance.toNat + 1)) := by
  have hp := List.getElem?_eq_getElem (s.le_length_fill pull (distance.toNat + 1))
  refine ⟨_, hp, ?_⟩
  rw [peek, Parser.toNat_add_one h, fill_eq, Verdict.andThen_done]
  simp only [hp]

/-- A place beyond reach is not. -/
theorem peek_of_not_inReach {distance : UInt64} (h : ¬ Parser.InReach distance.toNat)
    {s : State σ} (hs : s.pending.length < UInt64.size) : peek pull distance s = .fault := by
  obtain ⟨hsize, hzero⟩ := Parser.toNat_add_one_of_not h
  rw [peek, hzero, fill_eq, Verdict.andThen_done]
  simp only [State.pending_fill_of_le pull (Nat.zero_le _),
    List.getElem?_eq_none (show s.pending.length ≤ distance.toNat by omega)]

/-- A token that has been looked at is the one that is taken. -/
theorem exists_consume_of_peek (s : State σ) :
    ∃ t s' s'', peek pull 0 s = .done t s' ∧ consume pull s' = .done t s'' := by
  have hreach : Parser.InReach (0 : UInt64).toNat := Parser.inReach_zero
  obtain ⟨t, ht, hpeek⟩ := exists_peek pull hreach s
  rw [UInt64.toNat_zero, Nat.zero_add] at ht hpeek
  obtain ⟨u, us, hu, hconsume⟩ := exists_consume pull (s.fill pull 1)
  rw [State.pending_fill_of_le pull (s.le_length_fill pull 1)] at hu
  rw [hu, List.getElem?_cons_zero, Option.some_inj] at ht
  rw [ht] at hconsume
  exact ⟨t, _, _, hpeek, hconsume⟩

theorem consume_ne_fault (s : State σ) : consume pull s ≠ .fault := by
  obtain ⟨t, ts, -, h⟩ := exists_consume pull s
  simp [h]

theorem peek_ne_fault {distance : UInt64} (h : Parser.InReach distance.toNat) (s : State σ) :
    peek pull distance s ≠ .fault := by
  obtain ⟨t, -, hpeek⟩ := exists_peek pull h s
  simp [hpeek]

theorem takeIf_ne_fault {β : Type} (wanted : Kind) (taken left : Token → β) (s : State σ) :
    takeIf pull wanted taken left s ≠ .fault := by
  refine Verdict.andThen_ne_fault (peek_ne_fault pull (by decide) s) ?_
  intro t s'
  split
  · exact Verdict.andThen_ne_fault (consume_ne_fault pull s') (by simp)
  · simp

end Steps

/-! ### Rules of any kind -/

/-- What a rule does with the parser: it ends, or takes a step and goes on with the answer, or reads
the counters and the depth limit. -/
inductive Routine (α : Type) where
  | done (result : Except ParseError α)
  | step (op : Operation) (next : op.Answer α → Routine α)
  | inspect (next : Stats → Nat → Routine α)

/-- Whatever the answers are, no place beyond reach is looked at. -/
def Routine.InReach {α : Type} : Routine α → Prop
  | .done _ => True
  | .step op next => op.InReach ∧ ∀ answer, (next answer).InReach
  | .inspect next => ∀ stats limit, (next stats limit).InReach

/-- Reads an operand and goes on with its value; an error ends the routine. -/
def Routine.operand {α : Type} (threshold : Nat) (next : α → Routine α) : Routine α :=
  .step (.parse threshold) fun
    | .ok a => next a
    | .error e => .done (.error e)

/-- A rule behind an expression. -/
structure FollowingRule (α : Type) where
  precedence : Nat
  routine : α → Token → Routine α

/-- The rules for every kind of token, in both places. -/
structure Rules (α : Type) where
  starting? : Kind → Option (Token → Routine α)
  following? : Kind → Option (FollowingRule α)

/-- No rule looks at a place beyond reach. -/
structure Rules.InReach {α : Type} (R : Rules α) : Prop where
  starting : ∀ k rule, R.starting? k = some rule → ∀ t, (rule t).InReach
  following : ∀ k rule, R.following? k = some rule → ∀ left t, (rule.routine left t).InReach

def Rules.precedenceOf {α : Type} (R : Rules α) (k : Kind) : Nat :=
  match R.following? k with
  | some rule => rule.precedence
  | none => 0

/-- A kind of positive precedence has a rule. -/
theorem Rules.exists_following_of_lt {α : Type} {R : Rules α} {k : Kind} {n : Nat}
    (h : n < R.precedenceOf k) : ∃ rule, R.following? k = some rule := by
  cases hk : R.following? k with
  | none =>
      rw [precedenceOf, hk] at h
      exact absurd h (Nat.not_lt_zero n)
  | some rule => exact ⟨rule, rfl⟩

/-! ### The engine -/

section Engine

variable {σ α : Type} (pull : σ → Option Token × σ) (R : Rules α)

/-- Takes a step.  An expression is read by `operand`, which is given the threshold. -/
def perform (operand : Nat → State σ → Verdict σ (Except ParseError α)) :
    (op : Operation) → State σ → Verdict σ (op.Answer α)
  | .parse θ, s => operand θ s
  | .consume, s => consume pull s
  | .expect wanted, s =>
      takeIf pull wanted .ok (fun t => .error (.expected wanted t.kind t.span)) s
  | .accept wanted, s => takeIf pull wanted (fun _ => true) (fun _ => false) s
  | .peek distance, s => peek pull distance s
  | .precedence, s => (peek pull 0 s).andThen fun t s => .done (R.precedenceOf t.kind) s

def Routine.run (operand : Nat → State σ → Verdict σ (Except ParseError α)) :
    Routine α → State σ → Verdict σ (Except ParseError α)
  | .done r, s => .done r s
  | .step op next, s => (perform pull R operand op s).andThen fun a s => (next a).run operand s
  | .inspect next, s => (next s.stats s.maxDepth).run operand s

mutual

/-- Reads an expression whose operators all bind tighter than `θ`. -/
def parse : Nat → Nat → State σ → Verdict σ (Except ParseError α)
  | 0, _, _ => .cut
  | bound + 1, θ, s =>
      if s.maxDepth ≤ s.depth then
        (peek pull 0 s).andThen fun t after => .done (.error (.tooDeep s.maxDepth t.span)) after
      else
        Verdict.mapState State.leave <| (consume pull s.enter).andThen fun t s =>
          match R.starting? t.kind with
          | none => .done (.error (.noPrefix t.kind t.text t.span)) s
          | some rule =>
              ((rule t).run pull R (parse bound) s.countPrefix).andTry (climb bound θ)

/-- Extends an expression by the operators behind it.  It is a fault if another token is taken than
the one that has been looked at, or if it has no rule. -/
def climb : Nat → Nat → α → State σ → Verdict σ (Except ParseError α)
  | 0, _, _, _ => .cut
  | bound + 1, θ, left, s =>
      (peek pull 0 s).andThen fun seen s =>
        if θ < R.precedenceOf seen.kind then
          (consume pull s).andThen fun t s =>
            if t = seen then
              match R.following? t.kind with
              | none => .fault
              | some rule =>
                  ((rule.routine left t).run pull R (parse bound) s.countInfix).andTry
                    (climb bound θ)
            else .fault
        else .done (.ok left) s

end

/-- Takes a step as whoever holds the parser does.  An expression is read with the bound that
`bound` finds. -/
def operate (bound : State σ → Nat) (op : Operation) (s : State σ) : Verdict σ (Reply α) :=
  (perform pull R (fun θ s => parse pull R (bound s) θ s) op s).andThen fun a s =>
    .done (op.reply a) s

def session (bound : State σ → Nat) : List Operation → State σ → Verdict σ (List (Reply α))
  | [], s => .done [] s
  | op :: ops, s =>
      (operate pull R bound op s).andThen fun r s =>
        (session bound ops s).andThen fun rs s => .done (r :: rs) s

/-! ### No fault -/

variable {pull R} {operand : Nat → State σ → Verdict σ (Except ParseError α)}

theorem perform_ne_fault (h : ∀ θ s, operand θ s ≠ .fault) {op : Operation} (hop : op.InReach)
    (s : State σ) : perform pull R operand op s ≠ .fault := by
  cases op with
  | parse θ => exact h θ s
  | consume => exact consume_ne_fault pull s
  | expect wanted => exact takeIf_ne_fault pull wanted _ _ s
  | accept wanted => exact takeIf_ne_fault pull wanted _ _ s
  | peek distance => exact peek_ne_fault pull hop s
  | precedence => exact Verdict.andThen_ne_fault (peek_ne_fault pull (by decide) s) (by simp)

theorem Routine.run_operand (θ : Nat) (next : α → Routine α) (s : State σ) :
    (Routine.operand θ next).run pull R operand s =
      (operand θ s).andTry fun a s => (next a).run pull R operand s := by
  rw [Routine.operand, run, perform, Verdict.andTry]
  congr 1
  funext r s'
  cases r <;> rfl

/-- Whatever a rule does within reach, it brings about no fault. -/
theorem Routine.run_ne_fault (h : ∀ θ s, operand θ s ≠ .fault) {r : Routine α} (hr : r.InReach)
    (s : State σ) : r.run pull R operand s ≠ .fault := by
  induction r generalizing s with
  | done result => simp [run]
  | step op next ih =>
      obtain ⟨hop, hnext⟩ := hr
      rw [run]
      exact Verdict.andThen_ne_fault (perform_ne_fault h hop s) (fun a s => ih a (hnext a) s)
  | inspect next ih =>
      rw [run]
      exact ih _ _ (hr _ _) s

theorem ne_fault_of_bound (pull : σ → Option Token × σ) (hR : R.InReach) (n : Nat) :
    (∀ θ s, parse pull R n θ s ≠ .fault) ∧ ∀ θ left s, climb pull R n θ left s ≠ .fault := by
  induction n with
  | zero =>
      constructor
      · intro θ s
        simp [parse]
      · intro θ left s
        simp [climb]
  | succ n ih =>
      obtain ⟨ihp, ihc⟩ := ih
      constructor
      · intro θ s
        rw [parse]
        split
        · exact Verdict.andThen_ne_fault (peek_ne_fault pull (by decide) s) (by simp)
        · refine Verdict.mapState_ne_fault
            (Verdict.andThen_ne_fault (consume_ne_fault pull s.enter) ?_)
          intro t s'
          cases hrule : R.starting? t.kind with
          | none => simp
          | some rule =>
              exact Verdict.andTry_ne_fault
                (Routine.run_ne_fault ihp (hR.starting _ _ hrule t) _) (ihc θ)
      · intro θ left s
        -- the token that is taken is the one whose precedence has been read
        obtain ⟨t, s', s'', hpeek, hconsume⟩ := exists_consume_of_peek pull s
        rw [climb, hpeek, Verdict.andThen_done]
        split
        · rename_i h
          obtain ⟨rule, hrule⟩ := Rules.exists_following_of_lt h
          rw [hconsume, Verdict.andThen_done, if_pos rfl]
          simp only [hrule]
          exact Verdict.andTry_ne_fault
            (Routine.run_ne_fault ihp (hR.following _ _ hrule left t) _) (ihc θ)
        · simp

/-- Reading an expression brings about no fault, however far it gets. -/
theorem parse_ne_fault (pull : σ → Option Token × σ) (hR : R.InReach) (n θ : Nat) (s : State σ) :
    parse pull R n θ s ≠ .fault :=
  (ne_fault_of_bound pull hR n).1 θ s

/-- Nor does any use of a parser within reach. -/
theorem session_ne_fault (pull : σ → Option Token × σ) (hR : R.InReach) (bound : State σ → Nat)
    {ops : List Operation} (hops : ∀ op ∈ ops, op.InReach) (s : State σ) :
    session pull R bound ops s ≠ .fault := by
  induction ops generalizing s with
  | nil => simp [session]
  | cons op ops ih =>
      obtain ⟨hop, hrest⟩ := List.forall_mem_cons.1 hops
      have hfirst : operate pull R bound op s ≠ .fault :=
        Verdict.andThen_ne_fault
          (perform_ne_fault (fun θ s => parse_ne_fault pull hR (bound s) θ s) hop s) (by simp)
      rw [session]
      exact Verdict.andThen_ne_fault hfirst
        (fun r s' => Verdict.andThen_ne_fault (ih hrest s') (by simp))

end Engine

end Checked

end Reckon

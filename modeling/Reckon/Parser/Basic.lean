/-
**A parser's view of its tokens.**

A parser draws tokens from a source as they are needed and keeps those that it has looked at but
not consumed.  When a list has run dry it makes up ends of the input, placed where the last token
with a known place ended.  It counts what it does, and how deep the expression it is reading nests.

Main definitions:

* `Stats`, `Parser`, `Parser.ofSource` — the state, and the state at the start;
* `Parser.draw`, `Parser.fill` — drawing one token, and drawing until enough are pending;
* `Parser.consume`, `Parser.peek`, `Parser.lookAhead` — taking the next token, and looking ahead by
  a distance that can be counted to, or by any machine word;
* `Parser.expect`, `Parser.accept`, `Parser.precedence` — the steps built from them;
* `Parser.remaining` — a bound on the tokens, the ends of the input not counted, still to come.

Main results:

* `Parser.length_pending_fill` — how many tokens are pending after filling, so that whatever was
  asked for is there;
* `Parser.consume_eq` — consuming takes the first pending token;
* `Parser.lookAhead_of_inReach`, `Parser.lookAhead_of_not_inReach` — which distances are answered;
* `Parser.expect_of_eq`, `Parser.expect_of_ne` — what becomes of a token that is asked for by kind;
* `Parser.remaining_consume_lt`, `Parser.remaining_consume_le` — consuming a token other than the
  end of the input lowers the bound.
-/

import Reckon.Source
import Reckon.Grammar

set_option autoImplicit false
set_option relaxedAutoImplicit false

namespace Reckon

/-- What a parser counts: the tokens drawn, those made up at the end included, the tokens consumed,
the uses of rules at the start of an expression and behind one, and the largest number of tokens
that were pending at once. -/
structure Stats where
  drawn : Nat
  consumed : Nat
  prefixUses : Nat
  infixUses : Nat
  widest : Nat
deriving DecidableEq, Repr

def Stats.zero : Stats := ⟨0, 0, 0, 0, 0⟩

/-- The state of a parser.  The `pending` tokens have been drawn but not consumed, the oldest first;
`endSpan` is the end of the last token with a known place, as an empty span; `depth` counts the
expressions that are being read inside one another. -/
structure Parser where
  source : Source
  pending : List Token
  endSpan : Option Span
  depth : Nat
  maxDepth : Nat
  stats : Stats
deriving DecidableEq, Repr

namespace Parser

def defaultMaxDepth : Nat := 256

/-- The parser that has drawn nothing yet. -/
def ofSource (source : Source) (maxDepth : Nat) : Parser :=
  ⟨source, [], none, 0, maxDepth, Stats.zero⟩

/-! ### Drawing tokens -/

/-- The token that the source yields next; an end of the input once a list has run dry. -/
def upcoming (p : Parser) : Token := p.source.head p.endSpan

/-- Draws one token. -/
def draw (p : Parser) : Parser :=
  { p with
    source := p.source.next.2
    pending := p.pending ++ [p.upcoming]
    endSpan := Source.endAfter p.endSpan p.upcoming
    stats := { p.stats with drawn := p.stats.drawn + 1 } }

def drawMany : Nat → Parser → Parser
  | 0, p => p
  | n + 1, p => drawMany n p.draw

/-- Draws until at least `count` tokens are pending. -/
def fill (count : Nat) (p : Parser) : Parser :=
  let p := drawMany (count - p.pending.length) p
  { p with stats := { p.stats with widest := max p.stats.widest p.pending.length } }

@[simp] theorem pending_draw (p : Parser) : p.draw.pending = p.pending ++ [p.upcoming] := rfl

@[simp] theorem source_draw (p : Parser) : p.draw.source = p.source.next.2 := rfl

@[simp] theorem endSpan_draw (p : Parser) :
    p.draw.endSpan = Source.endAfter p.endSpan p.upcoming := rfl

@[simp] theorem depth_draw (p : Parser) : p.draw.depth = p.depth := rfl

@[simp] theorem maxDepth_draw (p : Parser) : p.draw.maxDepth = p.maxDepth := rfl

theorem length_pending_drawMany (n : Nat) (p : Parser) :
    (drawMany n p).pending.length = p.pending.length + n := by
  induction n generalizing p with
  | zero => rfl
  | succ n ih =>
      rw [drawMany, ih, pending_draw, List.length_append, List.length_singleton]
      omega

@[simp] theorem depth_drawMany (n : Nat) (p : Parser) : (drawMany n p).depth = p.depth := by
  induction n generalizing p with
  | zero => rfl
  | succ n ih => rw [drawMany, ih, depth_draw]

@[simp] theorem maxDepth_drawMany (n : Nat) (p : Parser) :
    (drawMany n p).maxDepth = p.maxDepth := by
  induction n generalizing p with
  | zero => rfl
  | succ n ih => rw [drawMany, ih, maxDepth_draw]

@[simp] theorem depth_fill (count : Nat) (p : Parser) : (p.fill count).depth = p.depth := by
  simp [fill]

@[simp] theorem maxDepth_fill (count : Nat) (p : Parser) :
    (p.fill count).maxDepth = p.maxDepth := by
  simp [fill]

/-- Filling brings the pending tokens to the number asked for, and never takes one away. -/
theorem length_pending_fill (count : Nat) (p : Parser) :
    (p.fill count).pending.length = max p.pending.length count := by
  simp only [fill, length_pending_drawMany]
  omega

/-- Filling draws nothing when enough tokens are pending. -/
theorem pending_fill_of_le {count : Nat} {p : Parser} (h : count ≤ p.pending.length) :
    (p.fill count).pending = p.pending := by
  simp [fill, Nat.sub_eq_zero_of_le h, drawMany]

/-! ### Steps -/

/-- Takes the next token. -/
def consume (p : Parser) : Token × Parser :=
  let p := p.fill 1
  let stats := { p.stats with consumed := p.stats.consumed + 1 }
  match p.pending with
  | t :: ts => (t, { p with pending := ts, stats := stats })
  -- after filling, some token is pending, so this never happens
  | [] => (Token.endOfInput p.endSpan, { p with stats := stats })

/-- The distances at which a token can be looked at: the number of tokens up to and including that
one is a machine word. -/
abbrev InReach (distance : Nat) : Prop := distance + 1 < UInt64.size

theorem inReach_zero : InReach 0 := by decide

/-- The token `distance` places ahead; zero is the next one. -/
def peek (distance : Nat) (p : Parser)
    (_h : InReach distance := by exact Reckon.Parser.inReach_zero) : Token × Parser :=
  let p := p.fill (distance + 1)
  ((p.pending[distance]?).getD (Token.endOfInput p.endSpan), p)

/-- The token `distance` places ahead, for any machine word.  The number of tokens to be drawn for
it is a machine word as well.  For the largest distance it wraps around to zero, and there is no
answer, as no token is drawn for the place that is looked at.  Where additions are checked there is
none either. -/
def lookAhead (distance : UInt64) (p : Parser) : Option (Token × Parser) :=
  let p := p.fill (distance + 1).toNat
  (p.pending[distance.toNat]?).map fun t => (t, p)

/-- Takes the next token if it has the kind `wanted`, and leaves it otherwise. -/
def expect (wanted : Kind) (p : Parser) : Except ParseError Token × Parser :=
  let (t, p) := p.peek 0
  if t.kind = wanted then
    let (t, p) := p.consume
    (.ok t, p)
  else (.error (.expected wanted t.kind t.span), p)

/-- Takes the next token if it has the kind `wanted`, and tells whether it did. -/
def accept (wanted : Kind) (p : Parser) : Bool × Parser :=
  let (t, p) := p.peek 0
  if t.kind = wanted then (true, p.consume.2) else (false, p)

/-- The precedence of the next token behind an expression. -/
def precedence (g : Grammar) (p : Parser) : Nat × Parser :=
  let (t, p) := p.peek 0
  (g.precedenceOf t.kind, p)

/-- After filling, some token is pending. -/
theorem exists_pending_fill (count : Nat) (p : Parser) :
    ∃ t ts, (p.fill (count + 1)).pending = t :: ts := by
  have h := length_pending_fill (count + 1) p
  cases hp : (p.fill (count + 1)).pending with
  | nil =>
      rw [hp, List.length_nil] at h
      omega
  | cons t ts => exact ⟨t, ts, rfl⟩

/-- Consuming takes the first pending token; no other token is made up. -/
theorem consume_eq {p : Parser} {t : Token} {ts : List Token}
    (h : (p.fill 1).pending = t :: ts) :
    p.consume = (t, { p.fill 1 with
      pending := ts
      stats := { (p.fill 1).stats with consumed := (p.fill 1).stats.consumed + 1 } }) := by
  simp [consume, h]

/-- Looking ahead shows a pending token; no other token is made up. -/
theorem getElem?_pending_peek (p : Parser) {distance : Nat} (h : InReach distance) :
    (p.peek distance h).2.pending[distance]? = some (p.peek distance h).1 := by
  have hlt : distance < (p.fill (distance + 1)).pending.length := by
    rw [length_pending_fill]
    omega
  simp [peek, List.getElem?_eq_getElem hlt]

theorem toNat_add_one {distance : UInt64} (h : InReach distance.toNat) :
    (distance + 1).toNat = distance.toNat + 1 := by
  rw [UInt64.toNat_add]
  exact Nat.mod_eq_of_lt h

/-- The largest distance is the only one that cannot be counted to. -/
theorem toNat_add_one_of_not {distance : UInt64} (h : ¬ InReach distance.toNat) :
    distance.toNat + 1 = UInt64.size ∧ (distance + 1).toNat = 0 := by
  have hlt := distance.toNat_lt_size
  have hsize : distance.toNat + 1 = UInt64.size := Nat.le_antisymm hlt (Nat.le_of_not_lt h)
  refine ⟨hsize, ?_⟩
  rw [UInt64.toNat_add]
  exact (congrArg (· % UInt64.size) hsize).trans (Nat.mod_self UInt64.size)

/-- A distance that can be counted to is answered. -/
theorem lookAhead_of_inReach {distance : UInt64} (h : InReach distance.toNat) (p : Parser) :
    p.lookAhead distance = some (p.peek distance.toNat h) := by
  have hpeek := p.getElem?_pending_peek h
  rw [lookAhead, toNat_add_one h]
  exact congrArg (Option.map fun t => (t, (p.peek distance.toNat h).2)) hpeek

/-- The largest one is not, as long as the pending tokens can be counted. -/
theorem lookAhead_of_not_inReach {distance : UInt64} (h : ¬ InReach distance.toNat) {p : Parser}
    (hp : p.pending.length < UInt64.size) : p.lookAhead distance = none := by
  obtain ⟨hsize, hzero⟩ := toNat_add_one_of_not h
  rw [lookAhead, hzero, pending_fill_of_le (Nat.zero_le _), List.getElem?_eq_none (by omega)]
  rfl

@[simp] theorem depth_consume (p : Parser) : p.consume.2.depth = p.depth := by
  obtain ⟨t, ts, h⟩ := exists_pending_fill 0 p
  rw [consume_eq h]
  exact depth_fill 1 p

@[simp] theorem maxDepth_consume (p : Parser) : p.consume.2.maxDepth = p.maxDepth := by
  obtain ⟨t, ts, h⟩ := exists_pending_fill 0 p
  rw [consume_eq h]
  exact maxDepth_fill 1 p

@[simp] theorem depth_peek (distance : Nat) (p : Parser) (h : InReach distance) :
    (p.peek distance h).2.depth = p.depth :=
  depth_fill (distance + 1) p

@[simp] theorem maxDepth_peek (distance : Nat) (p : Parser) (h : InReach distance) :
    (p.peek distance h).2.maxDepth = p.maxDepth :=
  maxDepth_fill (distance + 1) p

/-- A token of the wanted kind is consumed. -/
theorem expect_of_eq {wanted : Kind} {p : Parser} (h : (p.peek 0).1.kind = wanted) :
    p.expect wanted = (.ok (p.peek 0).2.consume.1, (p.peek 0).2.consume.2) := by
  rw [expect]
  generalize p.peek 0 = next at h
  simp only [h, if_true]

/-- A token of another kind is left. -/
theorem expect_of_ne {wanted : Kind} {p : Parser} (h : (p.peek 0).1.kind ≠ wanted) :
    p.expect wanted =
      (.error (.expected wanted (p.peek 0).1.kind (p.peek 0).1.span), (p.peek 0).2) := by
  rw [expect]
  generalize p.peek 0 = next at h
  simp only [h, if_false]

/-- A token of the wanted kind is consumed. -/
theorem accept_of_eq {wanted : Kind} {p : Parser} (h : (p.peek 0).1.kind = wanted) :
    p.accept wanted = (true, (p.peek 0).2.consume.2) := by
  rw [accept]
  generalize p.peek 0 = next at h
  simp only [h, if_true]

/-- A token of another kind is left. -/
theorem accept_of_ne {wanted : Kind} {p : Parser} (h : (p.peek 0).1.kind ≠ wanted) :
    p.accept wanted = (false, (p.peek 0).2) := by
  rw [accept]
  generalize p.peek 0 = next at h
  simp only [h, if_false]

/-! ### What is still to come -/

/-- The number of tokens, the ends of the input not counted, that are still to come at most. -/
def remaining (p : Parser) : Nat :=
  (p.pending.filter (fun t => !t.isEnd)).length + p.source.size

theorem remaining_draw_le (p : Parser) : p.draw.remaining ≤ p.remaining := by
  simp only [remaining, pending_draw, source_draw, List.filter_append, List.length_append]
  cases hend : p.upcoming.isEnd with
  | true =>
      have hle := p.source.size_next_le
      simp [hend]
      omega
  | false =>
      have hlt : p.source.next.2.size < p.source.size := by
        unfold upcoming Source.head at hend
        cases hn : p.source.next.1 with
        | none => simp [hn, Token.isEnd] at hend
        | some t =>
            rw [hn] at hend
            exact Source.size_next_lt hn hend
      simp [hend]
      omega

theorem remaining_drawMany_le (n : Nat) (p : Parser) : (drawMany n p).remaining ≤ p.remaining := by
  induction n generalizing p with
  | zero => exact Nat.le_refl _
  | succ n ih => exact Nat.le_trans (ih p.draw) p.remaining_draw_le

theorem remaining_fill_le (count : Nat) (p : Parser) : (p.fill count).remaining ≤ p.remaining :=
  remaining_drawMany_le (count - p.pending.length) p

theorem remaining_peek_le (p : Parser) : (p.peek 0).2.remaining ≤ p.remaining :=
  remaining_fill_le 1 p

/-- Consuming never raises the bound. -/
theorem remaining_consume_le (p : Parser) : p.consume.2.remaining ≤ p.remaining := by
  obtain ⟨t, ts, h⟩ := exists_pending_fill 0 p
  have hle := remaining_fill_le 1 p
  rw [consume_eq h]
  simp only [remaining, h, List.filter_cons] at hle ⊢
  split at hle
  · rw [List.length_cons] at hle
    omega
  · exact hle

/-- Consuming a token other than the end of the input lowers the bound. -/
theorem remaining_consume_lt {p : Parser} (h : p.consume.1.isEnd = false) :
    p.consume.2.remaining < p.remaining := by
  obtain ⟨t, ts, hp⟩ := exists_pending_fill 0 p
  have hle := remaining_fill_le 1 p
  rw [consume_eq hp] at h ⊢
  have ht : t.isEnd = false := h
  simp only [remaining, hp, List.filter_cons, ht, Bool.not_false, if_true,
    List.length_cons] at hle ⊢
  omega

end Parser

end Reckon

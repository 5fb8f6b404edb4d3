/-
**Every wiring of the rules comes to an end.**

Any kind may be given any rule, the end of the input included, and behind the last token there is
always one more end to be taken.  Yet the calculator's rules never go on for ever.  An end that is
made up has no text, so it is no numeral, and hence no operand by itself; if it opens a group or is
an operator, its operand would have to start with another end.  So no expression behind the last
token has a value.  Every rule that is tried there takes one level of depth and one end, and the
first one that gives up gives up for all the others.

Main definitions:

* `Source.count` — how many tokens a source holds, the ends that are made up not counted;
* `Interpretation.RefusesEnd` — the operations make no value of an end without text;
* `Grammar.endsTaken` — how many of them can be taken with so many levels left;
* `Landing.Concluded` — the run has ended, with a value before the ends or an error not far behind.

Main results:

* `Tape.read_concluded` — **reading ends**, and how far it goes;
* `Source.endsAt_endless` — where the ends begin in the stream of a source;
* `Parser.parse_ends_for_every_wiring` — the same of a parser in any state.
-/

import Reckon.Proofs.Cutting
import Reckon.Proofs.Machine
import Reckon.Proofs.Places

set_option autoImplicit false
set_option relaxedAutoImplicit false

namespace Reckon

variable {α : Type}

/-! ### Ends of the input -/

/-- The operations make no value of an end of the input without text: it is no operand by itself,
and no operator behind its operand. -/
structure Interpretation.RefusesEnd (I : Interpretation α) : Prop where
  atom : ∀ span, ∃ e, I.atom (.endOfInput span) = .error e
  postfixed : ∀ a span, ∃ e, I.postfixed a (.endOfInput span) = .error e

/-- A text without characters is no numeral. -/
theorem Arithmetic.interpretation_refusesEnd (A : Arithmetic α) :
    A.interpretation.RefusesEnd where
  atom _ := ⟨_, rfl⟩
  postfixed _ _ := ⟨_, rfl⟩

/-! ### How many ends are taken -/

namespace Grammar

instance (g : Grammar) : Decidable g.StopsAtEnd :=
  decidable_of_iff (g.prefixRule? .endOfInput = none ∧ g.infixRule? .endOfInput = none)
    ⟨fun h => ⟨h.1, h.2⟩, fun h => ⟨h.1, h.2⟩⟩

/-- How many ends of the input can be taken at most with so many levels left.  If an end has a
rule, every level may take one; if it has none, the first one is refused. -/
def endsTaken (g : Grammar) (levels : Nat) : Nat :=
  if g.StopsAtEnd then min levels 1 else levels

variable {g : Grammar} {m n : Nat}

theorem endsTaken_le (g : Grammar) (n : Nat) : g.endsTaken n ≤ n := by
  unfold endsTaken
  split <;> omega

theorem endsTaken_le_one (h : g.StopsAtEnd) (n : Nat) : g.endsTaken n ≤ 1 := by
  rw [endsTaken, if_pos h]
  exact Nat.min_le_right n 1

theorem endsTaken_mono (h : m ≤ n) : g.endsTaken m ≤ g.endsTaken n := by
  unfold endsTaken
  split <;> omega

theorem endsTaken_pos (h : 0 < n) : 0 < g.endsTaken n := by
  unfold endsTaken
  split <;> omega

theorem endsTaken_of_prefixRule {rule : PrefixRule} (h : g.prefixRule? .endOfInput = some rule) :
    g.endsTaken n = n := by
  refine if_neg ?_
  intro hstop
  rw [hstop.prefixRule_eq] at h
  exact absurd h (by simp)

theorem endsTaken_of_infixRule {rule : InfixRule} (h : g.infixRule? .endOfInput = some rule) :
    g.endsTaken n = n := by
  refine if_neg ?_
  intro hstop
  rw [hstop.infixRule_eq] at h
  exact absurd h (by simp)

end Grammar

/-! ### Runs that come to an end -/

/-- The run has ended: with a value at a place from `i` up to `last`, or with an error at the place
`b` or before it. -/
structure Landing.Concluded (i last b : Nat) (l : Landing α) : Prop where
  ended : l ≠ .unfinished
  meets : l.Meets (fun j => i ≤ j ∧ j ≤ last) (fun _ k => k ≤ b)

namespace Landing.Concluded

variable {β : Type} {i i' last b b' : Nat} {l : Landing α}

theorem value {a : α} {j : Nat} (hi : i ≤ j) (hj : j ≤ last) :
    Concluded i last b (.value a j) :=
  ⟨by simp, .of_value ⟨hi, hj⟩⟩

theorem failure {e : ParseError} {k : Nat} (hk : k ≤ b) :
    Concluded i last b (.failure e k : Landing α) :=
  ⟨by simp, .of_failure hk⟩

theorem ofExcept (r : Except ParseError α) {j : Nat} (hi : i ≤ j) (hj : j ≤ last) (hb : j ≤ b) :
    Concluded i last b (.ofExcept r j) := by
  cases r with
  | ok a => exact value hi hj
  | error e => exact failure hb

theorem andThen {next : α → Nat → Landing β} (h : Concluded i last b l)
    (hn : ∀ a j, i ≤ j → j ≤ last → Concluded i' last b (next a j)) :
    Concluded i' last b (l.andThen next) := by
  cases l with
  | value a j =>
      obtain ⟨hi, hj⟩ := h.meets.value a j rfl
      exact hn a j hi hj
  | failure e k => exact failure (h.meets.failure e k rfl)
  | unfinished => exact absurd rfl h.ended

theorem mono (h : Concluded i last b l) (hi : i' ≤ i) (hb : b ≤ b') :
    Concluded i' last b' l :=
  ⟨h.ended, h.meets.mono (fun _ hj => ⟨Nat.le_trans hi hj.1, hj.2⟩)
    (fun _ _ hk => Nat.le_trans hk hb)⟩

end Landing.Concluded

open Landing (Concluded)

section Rules

variable {I : Interpretation α} {S : Tape} {operand : Nat → Nat → Landing α} {i last b : Nat}

theorem PrefixRule.read_concluded (hI : I.RefusesEnd) (hends : S.EndsAt last) (rule : PrefixRule)
    (h : ∀ m, Concluded (i + 1) last b (operand m (i + 1))) (hi : i + 1 ≤ b) (hb : last ≤ b) :
    Concluded (i + 1) last b (rule.read I S operand i) := by
  cases rule with
  | atom =>
      rcases Nat.lt_or_ge i last with hlt | hge
      · exact .ofExcept _ (Nat.le_refl _) hlt hi
      · obtain ⟨span, hspan⟩ := hends i hge
        obtain ⟨e, he⟩ := hI.atom span
        rw [read, hspan, he]
        exact .failure hi
  | group =>
      refine (h 0).andThen ?_
      intro inner j hij hj
      split
      · have hlt : j < last := hends.lt_of_kind (by simp [‹(S j).kind = .rightParen›])
        exact .value (Nat.le_succ_of_le hij) hlt
      · exact .failure (Nat.le_trans hj hb)
  | unary m =>
      refine (h m).andThen ?_
      intro a j hij hj
      exact .ofExcept _ hij hj (Nat.le_trans hj hb)

theorem InfixRule.read_concluded (hI : I.RefusesEnd) (hends : S.EndsAt last) (rule : InfixRule)
    (left : α) (h : ∀ m, Concluded (i + 1) last b (operand m (i + 1))) (hi : i + 1 ≤ b)
    (hb : last ≤ b) : Concluded (i + 1) last b (rule.read I S operand left i) := by
  cases rule with
  | binary prec assoc =>
      refine (h _).andThen ?_
      intro right j hij hj
      exact .ofExcept _ hij hj (Nat.le_trans hj hb)
  | postfixed prec =>
      rcases Nat.lt_or_ge i last with hlt | hge
      · exact .ofExcept _ (Nat.le_refl _) hlt hi
      · obtain ⟨span, hspan⟩ := hends i hge
        obtain ⟨e, he⟩ := hI.postfixed left span
        rw [read, hspan, he]
        exact .failure hi

end Rules

namespace Tape

variable {g : Grammar} {I : Interpretation α} {S : Tape} {limit last : Nat}

/-- Every call takes a token before it calls again, and behind the last token it takes a level as
well.  The loop starts there only behind a value, which stands before the ends, and the operand of
the first end that it takes has none. -/
theorem concluded_of_bound (hI : I.RefusesEnd) (hends : S.EndsAt last) (g : Grammar)
    (limit n : Nat) :
    (∀ depth θ i, (last - i) + (limit - depth) < n →
        Concluded i last (max last i + g.endsTaken (limit - depth))
          (read g I S limit n depth θ i)) ∧
      ∀ depth θ left i, i ≤ last → (last - i) + (limit - depth) + 1 < n →
        Concluded i last (last + g.endsTaken (limit - depth + 1))
          (extend g I S limit n depth θ left i) := by
  induction n with
  | zero => exact ⟨fun _ _ _ h => absurd h (by omega), fun _ _ _ _ _ h => absurd h (by omega)⟩
  | succ n ih =>
      obtain ⟨ihr, ihe⟩ := ih
      constructor
      · intro depth θ i hn
        rcases Nat.lt_or_ge depth limit with h | h
        · have hpos : 0 < g.endsTaken (limit - depth) := Grammar.endsTaken_pos (by omega)
          cases hr : g.prefixRule? (S i).kind with
          | none =>
              rw [read_of_noPrefix h hr]
              exact .failure (by omega)
          | some rule =>
              -- an end that has a rule takes the level that its operand does without
              have hoperand : max last (i + 1) + g.endsTaken (limit - (depth + 1)) ≤
                  max last i + g.endsTaken (limit - depth) := by
                rcases Nat.lt_or_ge i last with hi | hi
                · have : g.endsTaken (limit - (depth + 1)) ≤ g.endsTaken (limit - depth) :=
                    Grammar.endsTaken_mono (by omega)
                  omega
                · rw [hends.kind_eq hi] at hr
                  rw [Grammar.endsTaken_of_prefixRule hr, Grammar.endsTaken_of_prefixRule hr]
                  omega
              have hlevels : limit - (depth + 1) + 1 = limit - depth := by omega
              rw [read_of_prefixRule h hr]
              refine Concluded.mono (i := i + 1) ?_ (Nat.le_succ i) (Nat.le_refl _)
              refine (rule.read_concluded hI hends ?_ (by omega) (by omega)).andThen ?_
              · intro m
                exact (ihr (depth + 1) m (i + 1) (by omega)).mono (Nat.le_refl _) hoperand
              · intro a j hij hj
                have hrest := ihe (depth + 1) θ a j hj (by omega)
                rw [hlevels] at hrest
                exact hrest.mono hij (by omega)
        · rw [read_of_tooDeep h]
          exact .failure (by omega)
      · intro depth θ left i hi hn
        rcases Nat.lt_or_ge θ (g.precedenceOf (S i).kind) with h | h
        · obtain ⟨rule, hr, hlt⟩ := Grammar.exists_infixRule_of_lt h
          have hoperand : max last (i + 1) + g.endsTaken (limit - depth) ≤
              last + g.endsTaken (limit - depth + 1) := by
            have hmono : g.endsTaken (limit - depth) ≤ g.endsTaken (limit - depth + 1) :=
              Grammar.endsTaken_mono (Nat.le_succ _)
            rcases Nat.lt_or_ge i last with hlast | hlast
            · omega
            · rw [hends.kind_eq hlast] at hr
              rw [Grammar.endsTaken_of_infixRule hr, Grammar.endsTaken_of_infixRule hr]
              omega
          have hpos : 0 < g.endsTaken (limit - depth + 1) := Grammar.endsTaken_pos (by omega)
          rw [extend_of_lt hr hlt]
          refine Concluded.mono (i := i + 1) ?_ (Nat.le_succ i) (Nat.le_refl _)
          refine (rule.read_concluded hI hends left ?_ (by omega) (by omega)).andThen ?_
          · intro m
            exact (ihr depth m (i + 1) (by omega)).mono (Nat.le_refl _) hoperand
          · intro a j hij hj
            exact (ihe depth θ a j hj (by omega)).mono hij (Nat.le_refl _)
        · rw [extend_of_le h]
          exact .value (Nat.le_refl i) hi

theorem read_concluded (hI : I.RefusesEnd) (hends : S.EndsAt last) {n depth θ i : Nat}
    (hn : (last - i) + (limit - depth) < n) :
    Concluded i last (max last i + g.endsTaken (limit - depth)) (read g I S limit n depth θ i) :=
  (concluded_of_bound hI hends g limit n).1 depth θ i hn

end Tape

/-! ### The tokens of a source -/

namespace Source

/-- How many tokens a source holds: the tokens of a list, ends of the input among them included, or
those of a line, up to its end. -/
def count : Source → Nat
  | list ts => ts.length
  | line l => l.tokens.length

/-- Behind its tokens the stream of a source holds only ends of the input without text. -/
theorem endsAt_endless (s : Source) : s.endless.EndsAt s.count := by
  intro k hk
  cases s with
  | list ts =>
      have hnone : ts[k]? = none := List.getElem?_eq_none hk
      exact ⟨lastPlace ts, by simp only [endless, hnone, Option.getD_none]⟩
  | line l =>
      -- any characters may have been read before
      have hlen : (List.replicate l.offset ' ').length = l.offset := List.length_replicate
      have hstands : l.Stands (List.replicate l.offset ' ' ++ l.rest) := by
        refine ⟨?_, (List.drop_left' hlen).symm⟩
        rw [List.length_append, hlen]
        exact Nat.le_add_right _ _
      have htells : Lexer.Tells (fun i => ∀ t ∈ l.tokens, ¬t.place.Covers i) l :=
        fun _ _ => Iff.rfl
      have htoken := (hstands.next_after htells k).1
      rw [List.getElem?_eq_none hk, Option.getD_none] at htoken
      exact ⟨_, htoken⟩

end Source

/-! ### Parsers -/

namespace Parser

variable {g : Grammar} {I : Interpretation α} {S : Tape} {limit depth k : Nat} {p : Parser}

/-- The bound that is computed from the input is large enough. -/
theorem Follows.read_ne_unfinished (h : p.Follows S limit depth k) (hI : I.RefusesEnd) (θ : Nat) :
    Tape.read g I S limit p.bound depth θ k ≠ .unfinished := by
  have hends := h.endsAt
  have hbound : p.bound = p.pending.length + p.source.size + 2 * p.maxDepth + 4 := rfl
  have hlimit := h.maxDepth_eq
  exact (Tape.read_concluded hI hends (by omega)).ended

/-- A run that has ended has not gone far beyond the last token. -/
theorem Follows.exists_ended (h : p.Follows S limit depth k) (hI : I.RefusesEnd) {last : Nat}
    (hends : S.EndsAt last) (θ : Nat) :
    ∃ q, (p.parseExpression g I θ).parser? = some q ∧
      q.stats.consumed ≤ max last k + g.endsTaken (limit - depth) := by
  -- any bound that is large enough for both places gives the same run
  have hstable := Tape.read_stable (Nat.le_max_left p.bound ((last - k) + (limit - depth) + 1))
    (h.read_ne_unfinished (g := g) hI θ)
  have hread := (Tape.read_concluded (g := g) (θ := θ) hI hends (Nat.lt_of_succ_le
    (Nat.le_max_right p.bound ((last - k) + (limit - depth) + 1)))).meets
  have hended := h.read_ne_unfinished (g := g) hI θ
  have hland := parseExpression_landsOn g I θ h
  rw [hstable] at hread
  cases hl : Tape.read g I S limit p.bound depth θ k with
  | value a j =>
      rw [hl] at hland
      obtain ⟨q, hq, hf⟩ := hland.exists_value
      obtain ⟨-, hj⟩ := hread.value a j hl
      exact ⟨q, by rw [hq]; rfl, by rw [hf.consumed_eq]; omega⟩
  | failure e j =>
      rw [hl] at hland
      obtain ⟨q, hq, hf⟩ := hland.exists_failure
      have hj := hread.failure e j hl
      exact ⟨q, by rw [hq]; rfl, by rw [hf.consumed_eq]; exact hj⟩
  | unfinished => exact absurd hl hended

/-- **Every wiring of the rules comes to an end.**  Whatever rules the kinds have been given, the
end of the input included, and whether the tokens come from a list or from a line: every list of
steps is answered and leaves a parser on the stream of the source, or breaks off at a step that
looks at a place beyond reach; and whichever parser stands on that stream, at whatever depth it
reads, an expression ends there with a value or an error.  Of the tokens that are left and the ends
behind them it takes no more than the former and one for every level; and no more than the former
and one, if the end of the input has no rule. -/
theorem parse_ends_for_every_wiring (A : Arithmetic α) (g : Grammar) (s : Source) (limit : Nat) :
    (∀ ops, (∃ rs p, session g A.interpretation ops (ofSource s limit) = .ok (rs, p) ∧
        p.Follows s.endless limit 0 p.stats.consumed) ∨
      session g A.interpretation ops (ofSource s limit) = .error .overflow ∧
        ∃ op ∈ ops, ¬ op.InReach) ∧
    ∀ (depth : Nat) (p : Parser), p.Follows s.endless limit depth p.stats.consumed → ∀ θ,
      ∃ q, (p.parseExpression g A.interpretation θ).parser? = some q ∧
        q.stats.consumed ≤ p.stats.consumed + (s.count - p.stats.consumed) + limit ∧
        (g.StopsAtEnd →
          q.stats.consumed ≤ p.stats.consumed + (s.count - p.stats.consumed) + 1) := by
  have hI := A.interpretation_refusesEnd
  constructor
  · intro ops
    have hc : Concludes g A.interpretation s.endless limit :=
      fun p k θ h => h.read_ne_unfinished hI θ
    have hstart := follows_ofSource s limit
    rcases Operation.forall_inReach_or ops with hops | hops
    · obtain ⟨rs, p, j, hs, hf, -⟩ := hstart.exists_session_of_concludes hc hops
      obtain rfl := hf.consumed_eq
      exact Or.inl ⟨rs, p, hs, hf⟩
    · exact Or.inr ⟨hstart.session_eq_overflow hc (countable_ofSource s limit) hops, hops⟩
  · intro depth p h θ
    obtain ⟨q, hq, hle⟩ := h.exists_ended (g := g) hI s.endsAt_endless θ
    refine ⟨q, hq, ?_, ?_⟩
    · have := g.endsTaken_le (limit - depth)
      omega
    · intro hstop
      have := Grammar.endsTaken_le_one hstop (limit - depth)
      omega

end Parser

/-- A table in which the end of the input is a sign as well as an operator. -/
def Grammar.operableEnd : Grammar where
  prefixRule? k := if k = .number then some .atom else some (.unary 6)
  infixRule? k := if k = .endOfInput then some (.binary 3 .left) else none

namespace Parser

/-- The bounds are attained: behind the only token an end is taken as an operator, and two more as
signs, one for every level that is left. -/
theorem parse_ends_for_every_wiring_operableEnd :
    ((ofSource (.list [⟨.number, "1", none⟩]) 3).Follows
        (Source.list [⟨.number, "1", none⟩]).endless 3 0 0 ∧
      ∃ q, ((ofSource (.list [⟨.number, "1", none⟩]) 3).parseExpression .operableEnd
          Arithmetic.float.interpretation 0).parser? = some q ∧
        q.stats.consumed ≤ 0 + (1 - 0) + 3 ∧ q.stats.consumed = 4) ∧
    Calculator.grammar.StopsAtEnd ∧
      ∃ q, (Calculator.parse Arithmetic.float '.' "1+" 3).parser? = some q ∧
        q.stats.consumed ≤ 0 + (2 - 0) + 1 ∧ q.stats.consumed = 3 := by
  have hstart := follows_ofSource (.list [⟨.number, "1", none⟩]) 3
  have hline : (Calculator.parser '.' "1+" 3).Follows
      (Source.line (.ofLine '.' "1+")).endless 3 0 0 := follows_ofSource _ 3
  have hstop := Calculator.grammar_stopsAtEnd
  obtain ⟨q, hq, hle, -⟩ := (parse_ends_for_every_wiring Arithmetic.float .operableEnd
    (.list [⟨.number, "1", none⟩]) 3).2 0 (ofSource _ 3) hstart 0
  obtain ⟨q', hq', -, hle'⟩ := (parse_ends_for_every_wiring Arithmetic.float Calculator.grammar
    (.line (.ofLine '.' "1+")) 3).2 0 (Calculator.parser '.' "1+" 3) hline 0
  refine ⟨⟨hstart, q, hq, hle, ?_⟩, hstop, q', hq', ?_, ?_⟩
  · cases hq
    rfl
  · have hcount : (Source.line (.ofLine '.' "1+")).count = 2 := by
      rw [Source.count, Lexer.tokens_of_not_isEnd rfl, Lexer.tokens_of_not_isEnd rfl,
        Lexer.tokens_of_isEnd rfl]
      rfl
    rw [hcount] at hle'
    exact hle' hstop
  · cases hq'
    rfl

end Parser

end Reckon

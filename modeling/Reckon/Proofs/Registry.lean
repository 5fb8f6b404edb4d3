/-
**The first rule registered stays.**

The tables of a grammar are filled by registrations, and a registration whose place is taken is
refused without a trace.  So what a grammar holds in the end can be read off the registrations: in
each place it is the rule that was there before or, failing that, the first one offered for the
place.  The two places of a kind have nothing to do with each other, and the order counts only among
the registrations for one place.

One registration is described once (`Grammar.offer_eq`), and so is one place of the tables, be it at
the start of an expression or behind one (`Grammar.Slot`).  Everything about a sequence follows by
induction on the sequence.

Main definitions:

* `Registration.place`, `Grammar.taken` — the kind and the fixity of a registration, and whether a
  grammar holds a rule there;
* `Registration.prefixRule?`, `Registration.infixRule?` — the rule that a registration offers for a
  kind;
* `Grammar.offer` — one registration, refused or not;
* `Grammar.Slot` — one place of the tables, and what registrations put there;
* `Grammar.Accepts` — a registration of a sequence is accepted;
* `Grammar.KeepsFirst` — what a sequence of registrations is answered and leaves behind;
* `Calculator.registrations` — the registrations that make the grammar of the calculator.

Main results:

* `Grammar.Slot.look_registerAll` — **what is in a place after a sequence of registrations**;
* `Grammar.refused_iff` — which registrations of a sequence are refused;
* `Grammar.registerAll_take_of_refused` — what is refused changes nothing;
* `Calculator.registerAll_registrations` — the calculator's registrations are all accepted;
* `Grammar.registry_keeps_first` — the registry keeps the first registration, and the order
  between places does not matter.
-/

import Reckon.Calculator

set_option autoImplicit false
set_option relaxedAutoImplicit false

namespace Reckon

namespace Registration

/-- Where the rule goes: its kind, at the start of an expression or behind one. -/
def place (r : Registration) : Kind × Fixity := (r.kind, r.fixity)

/-- The rule that is offered for a kind at the start of an expression. -/
def prefixRule? (k : Kind) : Registration → Option PrefixRule
  | prefixed k' rule => if k = k' then some rule else none
  | infixed _ _ => none

/-- The rule that is offered for a kind behind an expression. -/
def infixRule? (k : Kind) : Registration → Option InfixRule
  | prefixed _ _ => none
  | infixed k' rule => if k = k' then some rule else none

/-- What is found in a sequence is found among the registrations that offer something. -/
theorem findSome?_filter {ρ : Type} {offers : Registration → Option ρ} {p : Registration → Bool}
    (h : ∀ r, (offers r).isSome = true → p r = true) (rs : List Registration) :
    (rs.filter p).findSome? offers = rs.findSome? offers := by
  have hsame : (fun r => if p r = true then offers r else none) = offers := by
    funext r
    split
    · rfl
    · rename_i hp
      exact (Option.not_isSome_iff_eq_none.1 fun hr => hp (h r hr)).symm
  rw [← List.head?_filterMap, ← List.head?_filterMap, List.filterMap_filter, hsame]

end Registration

namespace Grammar

/-! ### One registration -/

def taken (g : Grammar) : Kind × Fixity → Bool
  | (k, .prefixed) => (g.prefixRule? k).isSome
  | (k, .infixed) => (g.infixRule? k).isSome

def add (g : Grammar) : Registration → Grammar
  | .prefixed k rule => g.setPrefix k rule
  | .infixed k rule => g.setInfix k rule

theorem register_eq (g : Grammar) (r : Registration) :
    g.register r =
      if g.taken r.place then .error (.alreadyRegistered r.kind r.fixity) else .ok (g.add r) := by
  cases r with
  | prefixed k rule =>
      cases h : g.prefixRule? k <;>
        simp [register, taken, add, Registration.place, Registration.kind, Registration.fixity, h]
  | infixed k rule =>
      cases h : g.infixRule? k <;>
        simp [register, taken, add, Registration.place, Registration.kind, Registration.fixity, h]

/-- The answer to one registration, and the grammar behind it. -/
def offer (g : Grammar) (r : Registration) : Option ParseError × Grammar :=
  match g.register r with
  | .ok g' => (none, g')
  | .error e => (some e, g)

/-- A registration is refused exactly if its place is taken, and changes nothing then. -/
theorem offer_eq (g : Grammar) (r : Registration) :
    g.offer r =
      if g.taken r.place then (some (.alreadyRegistered r.kind r.fixity), g)
      else (none, g.add r) := by
  rw [offer, register_eq]
  cases g.taken r.place <;> rfl

theorem registerAll_cons (g : Grammar) (r : Registration) (rs : List Registration) :
    g.registerAll (r :: rs) =
      ((g.offer r).1 :: ((g.offer r).2.registerAll rs).1, ((g.offer r).2.registerAll rs).2) := by
  rw [registerAll, offer]
  cases g.register r <;> rfl

theorem registerAll_append (g : Grammar) (rs rs' : List Registration) :
    g.registerAll (rs ++ rs') =
      ((g.registerAll rs).1 ++ ((g.registerAll rs).2.registerAll rs').1,
        ((g.registerAll rs).2.registerAll rs').2) := by
  induction rs generalizing g with
  | nil => rfl
  | cons r rs ih => rw [List.cons_append, registerAll_cons, ih, registerAll_cons, List.cons_append]

/-! ### One place -/

/-- `look` reads one place of the tables, and `offers` tells what a registration puts there. -/
structure Slot {ρ : Type} (place : Kind × Fixity) (look : Grammar → Option ρ)
    (offers : Registration → Option ρ) : Prop where
  taken_eq : ∀ g : Grammar, g.taken place = (look g).isSome
  place_eq : ∀ r : Registration, (offers r).isSome = true ↔ r.place = place
  look_add : ∀ (g : Grammar) (r : Registration), look (g.add r) = (offers r).or (look g)

theorem slot_prefixed (k : Kind) :
    Slot (k, .prefixed) (fun g => g.prefixRule? k) (Registration.prefixRule? k) where
  taken_eq _ := rfl
  place_eq r := by
    cases r with
    | prefixed k' rule =>
        simp [Registration.prefixRule?, Registration.place, Registration.kind,
          Registration.fixity, @eq_comm _ k k']
    | infixed k' rule => simp [Registration.prefixRule?, Registration.place, Registration.fixity]
  look_add g r := by
    cases r with
    | prefixed k' rule =>
        rw [add, prefixRule?_setPrefix, Registration.prefixRule?]
        split <;> rfl
    | infixed k' rule => rfl

theorem slot_infixed (k : Kind) :
    Slot (k, .infixed) (fun g => g.infixRule? k) (Registration.infixRule? k) where
  taken_eq _ := rfl
  place_eq r := by
    cases r with
    | prefixed k' rule => simp [Registration.infixRule?, Registration.place, Registration.fixity]
    | infixed k' rule =>
        simp [Registration.infixRule?, Registration.place, Registration.kind,
          Registration.fixity, @eq_comm _ k k']
  look_add g r := by
    cases r with
    | prefixed k' rule => rfl
    | infixed k' rule =>
        rw [add, infixRule?_setInfix, Registration.infixRule?]
        split <;> rfl

namespace Slot

variable {ρ : Type} {place : Kind × Fixity} {look : Grammar → Option ρ}
  {offers : Registration → Option ρ}

theorem offers_eq_none (hs : Slot place look offers) {r : Registration} (h : r.place ≠ place) :
    offers r = none :=
  Option.not_isSome_iff_eq_none.1 fun hr => h ((hs.place_eq r).1 hr)

/-- One registration fills the place if it is for it and the place is empty. -/
theorem look_offer (hs : Slot place look offers) (g : Grammar) (r : Registration) :
    look (g.offer r).2 = (look g).or (offers r) := by
  rw [offer_eq]
  by_cases hplace : r.place = place
  · rw [hplace, hs.taken_eq]
    cases hg : look g with
    | none => simp [hs.look_add, hg]
    | some rule => simp [hg]
  · rw [hs.offers_eq_none hplace, Option.or_none]
    cases g.taken r.place with
    | false => simp [hs.look_add, hs.offers_eq_none hplace]
    | true => rfl

/-- **The first rule stays**: the one that was there, or else the first one that is offered. -/
theorem look_registerAll (hs : Slot place look offers) (g : Grammar) (rs : List Registration) :
    look (g.registerAll rs).2 = (look g).or (rs.findSome? offers) := by
  induction rs generalizing g with
  | nil => exact (Option.or_none).symm
  | cons r rs ih =>
      rw [registerAll_cons, ih, hs.look_offer, Option.or_assoc, List.findSome?_cons]
      cases offers r <;> rfl

/-- Of a sequence of registrations those for one place decide what is in the place. -/
theorem look_registerAll_filter (hs : Slot place look offers) (g : Grammar)
    {p : Registration → Bool} (hp : ∀ r, r.place = place → p r = true)
    (rs : List Registration) :
    look (g.registerAll (rs.filter p)).2 = look (g.registerAll rs).2 := by
  rw [hs.look_registerAll, hs.look_registerAll,
    Registration.findSome?_filter fun r hr => hp r ((hs.place_eq r).1 hr)]

/-- Only the registrations for the place matter, and their order. -/
theorem look_registerAll_congr (hs : Slot place look offers) (g : Grammar)
    {rs rs' : List Registration} (h : rs'.filter (fun r => r.place = place) =
      rs.filter (fun r => r.place = place)) :
    look (g.registerAll rs').2 = look (g.registerAll rs).2 := by
  have hplace : ∀ r : Registration, r.place = place → decide (r.place = place) = true :=
    fun _ hr => decide_eq_true hr
  rw [← hs.look_registerAll_filter g hplace rs', h, hs.look_registerAll_filter g hplace rs]

theorem taken_offer (hs : Slot place look offers) (g : Grammar) (r : Registration) :
    (g.offer r).2.taken place = true ↔ g.taken place = true ∨ r.place = place := by
  rw [hs.taken_eq, hs.taken_eq, hs.look_offer, Option.isSome_or, Bool.or_eq_true, hs.place_eq]

end Slot

theorem taken_offer (g : Grammar) (r : Registration) (place : Kind × Fixity) :
    (g.offer r).2.taken place = true ↔ g.taken place = true ∨ r.place = place := by
  obtain ⟨k, f⟩ := place
  cases f with
  | prefixed => exact (slot_prefixed k).taken_offer g r
  | infixed => exact (slot_infixed k).taken_offer g r

/-! ### The answers -/

theorem length_answers (g : Grammar) (rs : List Registration) :
    (g.registerAll rs).1.length = rs.length := by
  induction rs generalizing g with
  | nil => rfl
  | cons r rs ih => rw [registerAll_cons, List.length_cons, List.length_cons, ih]

theorem answers_take (g : Grammar) (rs : List Registration) (i : Nat) :
    (g.registerAll (rs.take i)).1 = (g.registerAll rs).1.take i := by
  induction rs generalizing g i with
  | nil => rw [List.take_nil, registerAll, List.take_nil]
  | cons r rs ih =>
      cases i with
      | zero => rfl
      | succ i =>
          rw [List.take_succ_cons, registerAll_cons, registerAll_cons, List.take_succ_cons, ih]

/-- A registration is answered by the grammar that the ones before it have left, and decides about
the grammar behind it. -/
theorem registerAll_take_succ (g : Grammar) {rs : List Registration} {i : Nat} {r : Registration}
    (h : rs[i]? = some r) :
    g.registerAll (rs.take (i + 1)) =
      ((g.registerAll (rs.take i)).1 ++ [((g.registerAll (rs.take i)).2.offer r).1],
        ((g.registerAll (rs.take i)).2.offer r).2) := by
  rw [List.take_add_one, h, Option.toList_some, registerAll_append, registerAll_cons]
  rfl

theorem getElem?_answers (g : Grammar) {rs : List Registration} {i : Nat} {r : Registration}
    (h : rs[i]? = some r) :
    (g.registerAll rs).1[i]? = some ((g.registerAll (rs.take i)).2.offer r).1 := by
  obtain ⟨hlt, -⟩ := List.getElem?_eq_some_iff.1 h
  have hlen : (g.registerAll (rs.take i)).1.length = i := by
    rw [length_answers, List.length_take, Nat.min_eq_left (Nat.le_of_lt hlt)]
  have hfront : (g.registerAll rs).1.take (i + 1) = (g.registerAll (rs.take i)).1 ++
      [((g.registerAll (rs.take i)).2.offer r).1] := by
    rw [← answers_take, registerAll_take_succ g h]
  rw [← List.getElem?_take_of_lt (Nat.lt_succ_self i), hfront,
    List.getElem?_append_right (Nat.le_of_eq hlen), hlen, Nat.sub_self]
  rfl

/-- The registration with index `j` is `r`, and it is accepted. -/
def Accepts (g : Grammar) (rs : List Registration) (j : Nat) (r : Registration) : Prop :=
  rs[j]? = some r ∧ (g.registerAll rs).1[j]? = some none

theorem accepts_cons_zero {g : Grammar} {rs : List Registration} {r r' : Registration} :
    g.Accepts (r :: rs) 0 r' ↔ r = r' ∧ g.taken r.place = false := by
  rw [Accepts, registerAll_cons, List.getElem?_cons_zero, List.getElem?_cons_zero, offer_eq]
  cases g.taken r.place <;> simp

theorem accepts_cons_succ {g : Grammar} {rs : List Registration} {r r' : Registration} {j : Nat} :
    g.Accepts (r :: rs) (j + 1) r' ↔ (g.offer r).2.Accepts rs j r' := by
  rw [Accepts, registerAll_cons, List.getElem?_cons_succ, List.getElem?_cons_succ, Accepts]

/-- The beginning of a sequence is answered in the same way without the rest. -/
theorem accepts_take {g : Grammar} {rs : List Registration} {i j : Nat} {r : Registration} :
    g.Accepts (rs.take i) j r ↔ j < i ∧ g.Accepts rs j r := by
  rw [Accepts, Accepts, answers_take, List.getElem?_take, List.getElem?_take]
  by_cases hj : j < i <;> simp [hj]

/-- A place is taken in the end if it was, or if a registration for it has been accepted. -/
theorem taken_registerAll (g : Grammar) (rs : List Registration) (place : Kind × Fixity) :
    (g.registerAll rs).2.taken place = true ↔
      g.taken place = true ∨ ∃ j r, g.Accepts rs j r ∧ r.place = place := by
  induction rs generalizing g with
  | nil => simp [registerAll, Accepts]
  | cons r rs ih =>
      have hlast : (g.registerAll (r :: rs)).2 = ((g.offer r).2.registerAll rs).2 := by
        rw [registerAll_cons]
      rw [hlast, ih, taken_offer]
      constructor
      · rintro ((h | hplace) | ⟨j, r', hr, hplace⟩)
        · exact Or.inl h
        · -- if the first registration is refused, the place was taken before
          cases ht : g.taken r.place with
          | false => exact Or.inr ⟨0, r, accepts_cons_zero.2 ⟨rfl, ht⟩, hplace⟩
          | true => exact Or.inl (hplace ▸ ht)
        · exact Or.inr ⟨j + 1, r', accepts_cons_succ.2 hr, hplace⟩
      · rintro (h | ⟨j, r', hr, hplace⟩)
        · exact Or.inl (Or.inl h)
        · cases j with
          | zero =>
              obtain ⟨rfl, -⟩ := accepts_cons_zero.1 hr
              exact Or.inl (Or.inr hplace)
          | succ j => exact Or.inr ⟨j, r', accepts_cons_succ.1 hr, hplace⟩

/-- **Which registrations are refused**: those for a place that was taken or that an earlier
registration has been accepted for. -/
theorem refused_iff (g : Grammar) {rs : List Registration} {i : Nat} {r : Registration}
    (h : rs[i]? = some r) :
    (g.registerAll rs).1[i]? = some (some (.alreadyRegistered r.kind r.fixity)) ↔
      g.taken r.place = true ∨ ∃ j r', j < i ∧ g.Accepts rs j r' ∧ r'.place = r.place := by
  have htaken : (g.registerAll rs).1[i]? = some (some (.alreadyRegistered r.kind r.fixity)) ↔
      (g.registerAll (rs.take i)).2.taken r.place = true := by
    rw [getElem?_answers g h, offer_eq]
    cases (g.registerAll (rs.take i)).2.taken r.place <;> simp
  rw [htaken, taken_registerAll]
  simp only [accepts_take, and_assoc]

/-- There is no other answer. -/
theorem accepted_or_refused (g : Grammar) {rs : List Registration} {i : Nat} {r : Registration}
    (h : rs[i]? = some r) :
    g.Accepts rs i r ∨
      (g.registerAll rs).1[i]? = some (some (.alreadyRegistered r.kind r.fixity)) := by
  rw [Accepts, getElem?_answers g h, offer_eq]
  cases (g.registerAll (rs.take i)).2.taken r.place with
  | false => exact Or.inl ⟨h, rfl⟩
  | true => exact Or.inr rfl

/-- What is refused changes nothing. -/
theorem registerAll_take_of_refused (g : Grammar) {rs : List Registration} {i : Nat}
    {r : Registration} {e : ParseError} (h : rs[i]? = some r)
    (he : (g.registerAll rs).1[i]? = some (some e)) :
    (g.registerAll (rs.take (i + 1))).2 = (g.registerAll (rs.take i)).2 := by
  rw [getElem?_answers g h, offer_eq] at he
  rw [registerAll_take_succ g h, offer_eq]
  cases ht : (g.registerAll (rs.take i)).2.taken r.place with
  | false => simp [ht] at he
  | true => rfl

/-! ### The text -/

def bracketed (ns : List Nat) : String :=
  "[" ++ String.intercalate ", " (ns.map toString) ++ "]"

/-- The numbers are those of the kinds that satisfy a condition, in ascending order. -/
structure Indexes (filled : Kind → Bool) (ns : List Nat) : Prop where
  ascending : ns.Pairwise (· < ·)
  mem_iff : ∀ n, n ∈ ns ↔ ∃ k : Kind, k.index = n ∧ filled k = true

theorem exists_indexes (filled : Kind → Bool) :
    ∃ ns, Indexes filled ns ∧ listed filled = bracketed ns := by
  refine ⟨(Kind.all.filter filled).map Kind.index, ⟨?_, ?_⟩, ?_⟩
  · have hall : Kind.all.Pairwise fun k k' => k.index < k'.index := by
      rw [← List.pairwise_map, Kind.map_index_all]
      exact List.pairwise_lt_range
    exact List.pairwise_map.2 (hall.filter filled)
  · intro n
    simp only [List.mem_map, List.mem_filter, Kind.mem_all, true_and, and_comm]
  · rw [listed, bracketed, List.map_map]
    rfl

/-! ### The registry -/

/-- What comes of registering the rules `rs` one after another, starting with the grammar `g`.  A
rule is refused exactly if its place was taken before or by an earlier one; the error names its kind
and its fixity, and nothing changes.  So each kind has the rule that it had, or else the first one
registered for it, whatever is registered for its other place.  The precedence is that of the rule
behind an expression, or zero; the text lists the places filled in both tables, in ascending
order. -/
structure KeepsFirst (g : Grammar) (rs : List Registration) : Prop where
  length_eq : (g.registerAll rs).1.length = rs.length
  accepted_or_refused : ∀ i r, rs[i]? = some r → g.Accepts rs i r ∨
    (g.registerAll rs).1[i]? = some (some (.alreadyRegistered r.kind r.fixity))
  refused_iff : ∀ i r, rs[i]? = some r →
    ((g.registerAll rs).1[i]? = some (some (.alreadyRegistered r.kind r.fixity)) ↔
      g.taken r.place = true ∨ ∃ j r', j < i ∧ g.Accepts rs j r' ∧ r'.place = r.place)
  refused_eq : ∀ i r e, rs[i]? = some r → (g.registerAll rs).1[i]? = some (some e) →
    (g.registerAll (rs.take (i + 1))).2 = (g.registerAll (rs.take i)).2
  prefixRule_eq : ∀ k, (g.registerAll rs).2.prefixRule? k =
    (g.prefixRule? k).or (rs.findSome? (Registration.prefixRule? k))
  infixRule_eq : ∀ k, (g.registerAll rs).2.infixRule? k =
    (g.infixRule? k).or (rs.findSome? (Registration.infixRule? k))
  prefixRule_alone : ∀ k, (g.registerAll rs).2.prefixRule? k =
    (g.registerAll (rs.filter fun r => r.fixity = .prefixed)).2.prefixRule? k
  infixRule_alone : ∀ k, (g.registerAll rs).2.infixRule? k =
    (g.registerAll (rs.filter fun r => r.fixity = .infixed)).2.infixRule? k
  precedence_eq : ∀ k, (g.registerAll rs).2.precedenceOf k =
    ((g.infixRule? k).or (rs.findSome? (Registration.infixRule? k))).elim 0 InfixRule.precedence
  dump_eq : ∃ ns ms,
    Indexes (fun k => ((g.registerAll rs).2.prefixRule? k).isSome) ns ∧
    Indexes (fun k => ((g.registerAll rs).2.infixRule? k).isSome) ms ∧
    (g.registerAll rs).2.dump =
      "Grammar \x7b prefix: " ++ bracketed ns ++ ", infix: " ++ bracketed ms ++ " \x7d"

theorem precedenceOf_eq_elim (g : Grammar) (k : Kind) :
    g.precedenceOf k = (g.infixRule? k).elim 0 InfixRule.precedence := by
  rw [precedenceOf]
  cases g.infixRule? k <;> rfl

/-- **The registry keeps the first registration**, whatever grammar it starts with.  And two
sequences in which the registrations for each place are the same and in the same order leave the
same grammar. -/
theorem registry_keeps_first (g : Grammar) (rs : List Registration) :
    g.KeepsFirst rs ∧
      ∀ rs', (∀ place, rs'.filter (fun r => r.place = place) =
          rs.filter (fun r => r.place = place)) →
        (g.registerAll rs').2 = (g.registerAll rs).2 := by
  have hfixity : ∀ (k : Kind) (f : Fixity) (r : Registration), r.place = (k, f) →
      decide (r.fixity = f) = true := fun _ _ _ hr => decide_eq_true (congrArg Prod.snd hr)
  constructor
  · exact {
      length_eq := length_answers g rs
      accepted_or_refused := fun _ _ h => accepted_or_refused g h
      refused_iff := fun _ _ h => refused_iff g h
      refused_eq := fun _ _ _ h he => registerAll_take_of_refused g h he
      prefixRule_eq := fun k => (slot_prefixed k).look_registerAll g rs
      infixRule_eq := fun k => (slot_infixed k).look_registerAll g rs
      prefixRule_alone := fun k =>
        ((slot_prefixed k).look_registerAll_filter g (hfixity k .prefixed) rs).symm
      infixRule_alone := fun k =>
        ((slot_infixed k).look_registerAll_filter g (hfixity k .infixed) rs).symm
      precedence_eq := fun k => by
        rw [precedenceOf_eq_elim, (slot_infixed k).look_registerAll g rs]
      dump_eq := by
        obtain ⟨ns, hns, hstart⟩ :=
          exists_indexes fun k => ((g.registerAll rs).2.prefixRule? k).isSome
        obtain ⟨ms, hms, hbehind⟩ :=
          exists_indexes fun k => ((g.registerAll rs).2.infixRule? k).isSome
        refine ⟨ns, ms, hns, hms, ?_⟩
        rw [← hstart, ← hbehind]
        rfl }
  · intro rs' h
    refine Grammar.ext ?_ ?_
    · intro k
      exact (slot_prefixed k).look_registerAll_congr g (h (k, .prefixed))
    · intro k
      exact (slot_infixed k).look_registerAll_congr g (h (k, .infixed))

/-- Rules for `~` and `!`, which the calculator has none for, a second rule for `~`, and one for
`+`, whose place is taken. -/
def lateRules : List Registration :=
  [.prefixed .tilde (.unary 6), .infixed .bang (.postfixed 7), .prefixed .tilde .atom,
    .infixed .plus (.binary 1 .left)]

/-- The second rule for `~` is refused without a trace, as the first one is there; the rule for `!`
may come before both or behind them. -/
theorem registry_keeps_first_lateRules :
    (Calculator.grammar.registerAll lateRules).1[2]? =
      some (some (.alreadyRegistered .tilde .prefixed)) ∧
    (Calculator.grammar.registerAll (lateRules.take 3)).2 =
      (Calculator.grammar.registerAll (lateRules.take 2)).2 ∧
    (Calculator.grammar.registerAll [.infixed .bang (.postfixed 7), .prefixed .tilde (.unary 6),
        .infixed .plus (.binary 1 .left), .prefixed .tilde .atom]).2 =
      (Calculator.grammar.registerAll lateRules).2 := by
  obtain ⟨hkeeps, horder⟩ := registry_keeps_first Calculator.grammar lateRules
  have hfirst : Calculator.grammar.Accepts lateRules 0 (.prefixed .tilde (.unary 6)) := ⟨rfl, rfl⟩
  have hrefused := (hkeeps.refused_iff 2 (.prefixed .tilde .atom) rfl).2
    (Or.inr ⟨0, _, by decide, hfirst, rfl⟩)
  refine ⟨hrefused, hkeeps.refused_eq 2 _ _ rfl hrefused, horder _ ?_⟩
  rintro ⟨k, f⟩
  cases k <;> cases f <;> rfl

end Grammar

/-! ### The calculator -/

namespace Calculator

/-- The registrations from which the calculator makes its grammar. -/
def registrations : List Registration :=
  [.prefixed .number .atom, .prefixed .leftParen .group,
    .prefixed .plus (.unary Level.prefixed.precedence),
    .prefixed .minus (.unary Level.prefixed.precedence),
    .infixed .plus (.binary Level.sum.precedence .left),
    .infixed .minus (.binary Level.sum.precedence .left),
    .infixed .asterisk (.binary Level.product.precedence .left),
    .infixed .slash (.binary Level.product.precedence .left),
    .infixed .caret (.binary Level.exponent.precedence .right)]

/-- No kind is registered twice in one role, and the rules of the calculator are the result. -/
theorem registerAll_registrations :
    Grammar.empty.registerAll registrations = (List.replicate 9 none, grammar) := by
  refine Prod.ext rfl (Grammar.ext ?_ ?_)
  · intro k
    cases k <;> rfl
  · intro k
    cases k <;> rfl

end Calculator

end Reckon

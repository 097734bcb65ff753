/-
TermRules.Proofs.Admission — which terms come to be bound under a filter.

Matching asks: it binds a variable only to a term that its filter accepts.
Binding by hand does not ask, and so a filter is no more than a condition on
matches. `run_accepted` says that this is the only way past a filter: in the
environment of any session every variable accepts its term, or the two were bound
to each other by hand, be it by the session itself or by a predicate of a set that
it dispatched. Rolling back puts whole entries back, or keeps whole live ones, and
so brings no variable together with a term that was not bound to it before.
`bind_past_filter`: a filter can be passed by in that way.

`DerivesOffering` refines what can be made of an environment by the pairs that are
`offered` for binding by hand, and by the one acceptance that all matches use.
-/
import TermRules.Proofs.SingleAssignment

namespace TermRules

open Matching

namespace Environment

/-! ## Properties of every entry -/

section AllBound

variable {Q : Variable → Term → Prop} {e : Environment} {a : Acceptance}

/-- A match adds accepted terms only, also when it fails. -/
theorem AllBound.into (hQ : ∀ {v t}, (v.accepts a t).value = true → Q v t) (he : e.AllBound Q)
    (p t : Term) : (into a p t e).value.env.AllBound Q :=
  env_visit (fun _ _ _ _ haccepts hf => hf.push (hQ haccepts)) p t he

theorem AllBound.restore {live captured : Environment} (hlive : live.AllBound Q)
    (hcaptured : captured.AllBound Q) : (live.restore captured.snapshot).AllBound Q := by
  rcases restore_cases live captured with ⟨kept, hkept, hrestore⟩ | ⟨-, hrestore⟩
  · rw [hrestore, ← hkept.take_eq]
    exact fun x hx => hlive x (List.mem_of_mem_take hx)
  · rw [hrestore]
    exact hcaptured

end AllBound

/-! ## Binding by hand what is offered -/

/-- What can be made out of an environment by matching under `a`, rolling back, and
binding none but offered pairs by hand. -/
inductive DerivesOffering (a : Acceptance) (offered : Variable → Term → Prop) (e : Environment) :
    Environment → Prop
  /-- The environment that was given. -/
  | given : DerivesOffering a offered e e
  /-- A new one. -/
  | empty : DerivesOffering a offered e .empty
  | bind {f : Environment} (hf : DerivesOffering a offered e f) {v : Variable} {t : Term}
    (hvt : offered v t) : DerivesOffering a offered e (f.bind v t).env
  | into {f : Environment} (hf : DerivesOffering a offered e f) (p t : Term) :
    DerivesOffering a offered e (into a p t f).value.env
  | restore {live captured : Environment} (hlive : DerivesOffering a offered e live)
    (hcaptured : DerivesOffering a offered e captured) :
    DerivesOffering a offered e (live.restore captured.snapshot)

/-- What accepted and offered pairs have in common, every entry of a derived
environment has if those of the given one do. -/
theorem allBound_of_derivesOffering {a : Acceptance} {offered Q : Variable → Term → Prop}
    (haccepted : ∀ {v t}, (v.accepts a t).value = true → Q v t)
    (hoffered : ∀ {v t}, offered v t → Q v t) {e f : Environment} (he : e.AllBound Q)
    (hf : e.DerivesOffering a offered f) : f.AllBound Q := by
  induction hf with
  | given => exact he
  | empty => exact allBound_empty
  | bind _ hvt ih => exact ih.bind (hoffered hvt)
  | into _ p t ih => exact ih.into haccepted p t
  | restore _ _ ihlive ihcaptured => exact ihlive.restore ihcaptured

end Environment

/-- The predicate matches under `a` and binds none but offered pairs by hand. -/
def Predicate.Offers (a : Acceptance) (offered : Variable → Term → Prop) (p : Predicate) : Prop :=
  ∀ (t : Term) (e : Environment), e.DerivesOffering a offered (p.test t e).value.env

/-- A pattern binds nothing by hand. -/
theorem Predicate.offers_pattern (a : Acceptance) (offered : Variable → Term → Prop) (p : Term) :
    (pattern a p).Offers a offered :=
  fun t _ => .into .given p t

/-- The operation matches under `a`, and neither it nor a predicate that it
dispatches binds any but offered pairs by hand. -/
def Operation.Offers (a : Acceptance) (offered : Variable → Term → Prop) : Operation → Prop
  | .bind v t => offered v t
  | .into b _ _ | .asserted b _ _ => b = a
  | .snapshot | .restore _ => True
  | .dispatch s _ _ _ => ∀ l ∈ s.leaves, l.predicate.Offers a offered

namespace Session

/-! ## Whole runs -/

/-- One operation leaves every entry accepted or offered. -/
theorem allBound_step {a : Acceptance} {offered Q : Variable → Term → Prop}
    (haccepted : ∀ {v t}, (v.accepts a t).value = true → Q v t)
    (hoffered : ∀ {v t}, offered v t → Q v t) {op : Operation} (hop : op.Offers a offered)
    {e : Environment} (he : e.AllBound Q) : ((start e).step op).env.AllBound Q := by
  cases op with
  | bind v t => exact he.bind (hoffered hop)
  | into b p t =>
    obtain rfl : b = a := hop
    exact he.into haccepted p t
  | asserted b p t =>
    obtain rfl : b = a := hop
    exact he.into haccepted p t
  | snapshot => exact he
  | restore i => exact he
  | dispatch rules hs o t =>
    refine Rule.env_apply .restore rules.toRule (fun l hl u f hf => ?_) o t he
    exact Environment.allBound_of_derivesOffering haccepted hoffered hf (hop l hl u f)

/-- **No match gets past a filter, and every binding by hand may.** In the
environment of every session that began with an empty one, each variable accepts the
term that it is bound to, unless the two are a pair that was offered for binding by
hand. And a pair that is bound by hand goes in as it is if the variable is unbound,
whether it is accepted or not. -/
theorem run_accepted (a : Acceptance) (offered : Variable → Term → Prop) (ops : List Operation)
    (hops : ∀ op ∈ ops, op.Offers a offered) :
    (∀ x ∈ ((start .empty).run ops).env.entries,
      (x.1.accepts a x.2).value = true ∨ offered x.1 x.2) ∧
    ∀ v t, ((start .empty).run ops).env.get? v = none →
      (((start .empty).run ops).step (.bind v t)).env.entries =
        ((start .empty).run ops).env.entries ++ [(v, t)] := by
  refine ⟨?_, ?_⟩
  · have hrun : ((start .empty).run ops).Everywhere
        (Environment.AllBound fun v t => (v.accepts a t).value = true ∨ offered v t) :=
      (everywhere_start Environment.allBound_empty).run .restore
        fun op hop e he => allBound_step .inl .inr (hops op hop) he
    exact hrun.env
  · intro v t hv
    simp only [step, Environment.bind, hv]
    rfl

/-- A variable for numbers. -/
def forNumbers : Variable := (Variable.named "x").withFilter .number

/-- A set whose one rule binds a number and then fails on the rest. -/
def numberThenNil : RuleSet Term :=
  ⟨none, [.composite (.pattern default (.seq default [.var forNumbers, .nil])) .input]⟩

theorem encapsulated_numberThenNil : numberThenNil.Encapsulated := by
  intro l hl
  have hleaf : l = ⟨.pattern default (.seq default [.var forNumbers, .nil]), .input⟩ :=
    List.mem_singleton.1 hl
  rw [hleaf]
  exact Predicate.encapsulated_pattern _ _

/-- A match that the filter refuses, a set that binds a number for as long as it
tries its rule, and a name bound by hand to the variable for numbers. -/
def refusedThenOffered : List Operation :=
  [.into default (.var forNumbers) (.symbol "one"), .snapshot,
    .dispatch numberThenNil encapsulated_numberThenNil default (.seq default [.long 1, .long 2]),
    .bind forNumbers (.symbol "one"), .restore 0, .bind forNumbers (.symbol "one")]

/-- The pair that was bound by hand is there, and no other. -/
theorem run_accepted_refusedThenOffered :
    (∀ op ∈ refusedThenOffered, op.Offers default fun v t => v = forNumbers ∧ t = .symbol "one") ∧
    ((start .empty).run refusedThenOffered).env.entries = [(forNumbers, .symbol "one")] ∧
    (forNumbers.accepts default (.symbol "one")).value = false ∧
    ∀ x ∈ ((start .empty).run refusedThenOffered).env.entries,
      (x.1.accepts default x.2).value = true ∨ x.1 = forNumbers ∧ x.2 = .symbol "one" := by
  have hops : ∀ op ∈ refusedThenOffered,
      op.Offers default fun v t => v = forNumbers ∧ t = .symbol "one" := by
    intro op hop
    simp only [refusedThenOffered, List.mem_cons, List.not_mem_nil, or_false] at hop
    rcases hop with rfl | rfl | rfl | rfl | rfl | rfl
    · rfl
    · trivial
    · intro l hl
      rw [List.mem_singleton.1 hl]
      exact Predicate.offers_pattern default _ _
    · exact ⟨rfl, rfl⟩
    · trivial
    · exact ⟨rfl, rfl⟩
  obtain ⟨haccepted, -⟩ := run_accepted default _ refusedThenOffered hops
  exact ⟨hops, rfl, rfl, haccepted⟩

/-- Not every variable accepts its term: here a variable for numbers is bound to a
name. -/
theorem bind_past_filter :
    ¬ ∀ (a : Acceptance) (ops : List Operation), (∀ op ∈ ops, op.Offers a fun _ _ => True) →
      ∀ x ∈ ((start .empty).run ops).env.entries, (x.1.accepts a x.2).value = true := by
  intro h
  have haccepts := h default [.bind forNumbers (.symbol "one")]
    (fun op hop => by rw [List.mem_singleton.1 hop]; trivial) (forNumbers, .symbol "one")
    List.mem_cons_self
  cases haccepts

end Session

end TermRules

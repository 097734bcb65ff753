/-
TermRules.Proofs.Dispatch — a tree of nested rule sets against the flat list
of its leaves.

A leaf is a rule that is no set. `leaves` lists the leaves of a tree from left
to right, and `firstMatch` is what becomes of a term when each of them is
tried on one and the same environment. `applyIn_flatten`: if the predicates of
the leaves only bind more, a tree of any shape does just that. The leaves that
fail before the winner leave nothing behind, whatever they bound and however
deep they sit, because what a set restores is always a prefix of what it finds.

The same theorem counts. In a tallied tree every leaf reports its runs under a
label of its own and nothing else, and the remarks of a run are those of
`tallyOf`: one test for each leaf up to the first that matches, one
computation after it, and no more.
-/
import TermRules.Proofs.Extension
import TermRules.Rule.Template

namespace TermRules

/-! ## Leaves -/

/-- A rule that is no set: a predicate and the application that it guards. -/
structure Leaf (R : Type) where
  predicate : Predicate
  application : Application R

variable {R : Type}

namespace Leaf

/-- The leaf as a rule. -/
def toRule (l : Leaf R) : Rule R := .composite l.predicate l.application

/-- Whether the leaf matches a term in an environment. -/
def passes (l : Leaf R) (t : Term) (e : Environment) : Bool := (l.predicate.test t e).value.ok

/-- What becomes of a term under the leaf alone. -/
def outcome (l : Leaf R) (o : Origin) (t : Term) (e : Environment) : Outcome R :=
  (l.toRule.apply o t e).value

end Leaf

namespace Rule

mutual
/-- The leaves of a rule from left to right. -/
def leaves : Rule R → List (Leaf R)
  | .composite p c => [⟨p, c⟩]
  | .nested _ rules => allLeaves rules

/-- The leaves of several rules from left to right. -/
def allLeaves : List (Rule R) → List (Leaf R)
  | [] => []
  | rule :: rules => leaves rule ++ allLeaves rules
end

end Rule

/-- The leaves of a set from left to right. -/
def RuleSet.leaves (s : RuleSet R) : List (Leaf R) := Rule.allLeaves s.rules

/-- What becomes of a term under the first leaf that matches, each tried on the
very environment `e`; when none does, there is no result and `e` is kept. -/
def firstMatch (leaves : List (Leaf R)) (o : Origin) (t : Term) (e : Environment) : Outcome R :=
  match leaves.find? fun l => l.passes t e with
  | some l => l.outcome o t e
  | none => ⟨none, e⟩

/-! ## Counting -/

/-- The remarks of a computation: what observed predicates and applications
reported, oldest first. -/
def Traced.remarks {α : Type} (x : Traced α) : List Event :=
  x.events.filter fun event => event.remark?.isSome

/-- The leaf under count: each run of its predicate and of its application
makes one remark under the label, and nothing else is reported. -/
def Leaf.tallied (label : String) (l : Leaf R) : Leaf R where
  predicate := ⟨fun t e =>
    ⟨(l.predicate.test t e).value, .single (.predicateRan label t e (l.passes t e))⟩⟩
  application := ⟨fun o t e =>
    ⟨(l.application.compute o t e).value, .single (.applicationRan label t e)⟩⟩

namespace Rule

mutual
/-- The rule with its leaves under count; the label of each is looked up by its
index among all leaves. -/
def tallied (label : Nat → String) : Rule R → Rule R
  | .composite p c => (Leaf.tallied (label 0) ⟨p, c⟩).toRule
  | .nested name rules => .nested name (talliedAll label rules)

/-- The rules with their leaves under count. -/
def talliedAll (label : Nat → String) : List (Rule R) → List (Rule R)
  | [] => []
  | rule :: rules =>
    tallied label rule :: talliedAll (fun j => label (j + rule.leaves.length)) rules
end

end Rule

/-- The set with its leaves under count. -/
def RuleSet.tallied (label : Nat → String) (s : RuleSet R) : RuleSet R :=
  ⟨s.name, Rule.talliedAll label s.rules⟩

/-- The remarks due when leaves are tried in order on one environment: a failed
test of each leaf before the first that matches, then its passed test and one
computation in the environment that it leaves. -/
def tallyOf (label : Nat → String) (leaves : List (Leaf R)) (o : Origin) (t : Term)
    (e : Environment) : List Event :=
  match leaves.findIdx? fun l => l.passes t e with
  | some k => (List.range k).map (fun j => .predicateRan (label j) t e false) ++
    [.predicateRan (label k) t e true, .applicationRan (label k) t (firstMatch leaves o t e).env]
  | none => (List.range leaves.length).map fun j => .predicateRan (label j) t e false

/-! ## The flat run -/

namespace Traced

variable {α β : Type}

@[simp] theorem remarks_pure (a : α) : (pure a : Traced α).remarks = [] := rfl

@[simp] theorem remarks_bind (x : Traced α) (f : α → Traced β) :
    (x >>= f).remarks = x.remarks ++ (f x.value).remarks := by
  simp [remarks]

@[simp] theorem remarks_map (f : α → β) (x : Traced α) : (f <$> x).remarks = x.remarks := by
  simp [remarks]

@[simp] theorem remarks_emit (event : Event) :
    (emit event).remarks = if event.remark?.isSome then [event] else [] := by
  simp [remarks, List.filter_cons]

end Traced

/-- Tries leaves in order, each on the very environment `e`. -/
def tryLeaves (o : Origin) (t : Term) (e : Environment) : List (Leaf R) → Traced (Outcome R)
  | [] => pure ⟨none, e⟩
  | l :: ls => do
    let x ← l.toRule.apply o t e
    if x.result.isSome then return x else tryLeaves o t e ls

theorem Leaf.isSome_outcome (l : Leaf R) (o : Origin) (t : Term) (e : Environment) :
    (l.outcome o t e).result.isSome = l.passes t e := by
  simp only [outcome, toRule, Rule.apply, Traced.value_bind, passes]
  split <;> simp_all

theorem Leaf.env_outcome (l : Leaf R) (o : Origin) (t : Term) (e : Environment) :
    (l.outcome o t e).env = (l.predicate.test t e).value.env := by
  simp only [outcome, toRule, Rule.apply, Traced.value_bind]
  split <;> rfl

theorem firstMatch_cons (l : Leaf R) (ls : List (Leaf R)) (o : Origin) (t : Term)
    (e : Environment) : firstMatch (l :: ls) o t e =
      if l.passes t e then l.outcome o t e else firstMatch ls o t e := by
  unfold firstMatch
  rw [List.find?_cons]
  cases l.passes t e <;> rfl

/-- The flat run ends as the first leaf that matches does. -/
theorem value_tryLeaves (o : Origin) (t : Term) (e : Environment) (leaves : List (Leaf R)) :
    (tryLeaves o t e leaves).value = firstMatch leaves o t e := by
  induction leaves with
  | nil => rfl
  | cons l ls ih =>
    have hl := l.isSome_outcome o t e
    unfold Leaf.outcome at hl
    rw [tryLeaves, firstMatch_cons, Traced.value_bind, hl]
    split
    · rfl
    · exact ih

theorem tryLeaves_append (o : Origin) (t : Term) (e : Environment) (ls ms : List (Leaf R)) :
    tryLeaves o t e (ls ++ ms) =
      (tryLeaves o t e ls >>= fun x =>
        if x.result.isSome then pure x else tryLeaves o t e ms) := by
  induction ls with
  | nil => simp [tryLeaves]
  | cons l ls ih =>
    simp only [List.cons_append, tryLeaves, bind_assoc]
    congr 1
    funext x
    split
    · simp [*]
    · exact ih

/-! ## A tree runs as its leaves do -/

/-- The outcome once the caller has rolled a failure back to `e`. -/
def Outcome.settle (x : Outcome R) (e : Environment) : Outcome R :=
  if x.result.isSome then x else ⟨none, e⟩

/-- The first match only binds more. -/
theorem begins_firstMatch {leaves : List (Leaf R)} (hl : ∀ l ∈ leaves, l.predicate.Extends)
    (o : Origin) (t : Term) (e : Environment) : e.Begins (firstMatch leaves o t e).env := by
  unfold firstMatch
  split
  · rename_i l hfind
    rw [l.env_outcome]
    exact hl l (List.mem_of_find?_eq_some hfind) t e
  · exact .refl e

/-- Where no result is found the flat run leaves what it was given. -/
theorem settle_firstMatch (leaves : List (Leaf R)) (o : Origin) (t : Term) (e : Environment) :
    (firstMatch leaves o t e).settle e = firstMatch leaves o t e := by
  induction leaves with
  | nil => rfl
  | cons l ls ih =>
    have hl := l.isSome_outcome o t e
    rw [firstMatch_cons]
    cases h : l.passes t e with
    | true => rw [if_pos rfl, Outcome.settle, hl, h, if_pos rfl]
    | false => exact ih

namespace Rule

mutual
/-- A rule whose leaves only bind more runs as its leaves do in order, once a
failure is rolled back; and what it leaves begins with what it was given. -/
theorem apply_flatten : ∀ (rule : Rule R), (∀ l ∈ rule.leaves, l.predicate.Extends) →
    ∀ (o : Origin) (t : Term) (e : Environment),
      (rule.apply o t e).value.settle e = (tryLeaves o t e rule.leaves).value ∧
      (rule.apply o t e).remarks = (tryLeaves o t e rule.leaves).remarks ∧
      e.Begins (rule.apply o t e).value.env
  | .composite p c, hl, o, t, e => by
    have hp : p.Extends := hl ⟨p, c⟩ List.mem_cons_self
    have hbegins := hp t e
    rw [← Leaf.env_outcome ⟨p, c⟩ o t e] at hbegins
    refine ⟨?_, ?_, hbegins⟩
    · simp only [leaves, tryLeaves, Leaf.toRule, Traced.value_bind, Outcome.settle]
      split
      · rfl
      · rfl
    · simp only [leaves, tryLeaves, Leaf.toRule, Traced.remarks_bind]
      split
      · rw [Traced.remarks_pure, List.append_nil]
      · rw [Traced.remarks_pure, List.append_nil]
  | .nested name rules, hl, o, t, e => by
    obtain ⟨hvalue, hremarks⟩ := attemptAll_flatten rules hl name 0 o t e e (.refl e)
    have hmatch := hvalue.trans (value_tryLeaves o t e (allLeaves rules))
    refine ⟨?_, hremarks, ?_⟩
    · rw [apply, leaves, hmatch, value_tryLeaves, settle_firstMatch]
    · rw [apply, hmatch]
      exact begins_firstMatch hl o t e

/-- A set that finds what begins with `e` tries its leaves in order on `e`. -/
theorem attemptAll_flatten : ∀ (rules : List (Rule R)),
    (∀ l ∈ allLeaves rules, l.predicate.Extends) →
    ∀ (name : Option String) (i : Nat) (o : Origin) (t : Term) (e live : Environment),
      e.Begins live →
      (attemptAll name e.snapshot i rules o t live).value =
        (tryLeaves o t e (allLeaves rules)).value ∧
      (attemptAll name e.snapshot i rules o t live).remarks =
        (tryLeaves o t e (allLeaves rules)).remarks
  | [], _, name, i, o, t, e, live, hlive => by
    rw [attemptAll, allLeaves, tryLeaves, Environment.restore_of_begins hlive]
    exact ⟨rfl, rfl⟩
  | rule :: rules, hl, name, i, o, t, e, live, hlive => by
    have hrule : ∀ l ∈ rule.leaves, l.predicate.Extends :=
      fun l hmem => hl l (List.mem_append_left _ hmem)
    have hrules : ∀ l ∈ allLeaves rules, l.predicate.Extends :=
      fun l hmem => hl l (List.mem_append_right _ hmem)
    obtain ⟨hvalue, hremarks, hbegins⟩ := apply_flatten rule hrule o t e
    obtain ⟨hvalue', hremarks'⟩ := attemptAll_flatten rules hrules name (i + 1) o t e
      (rule.apply o t e).value.env hbegins
    rw [attemptAll, allLeaves, tryLeaves_append, Environment.restore_of_begins hlive]
    simp only [Traced.value_bind, Traced.remarks_bind, ← hvalue, ← hremarks]
    cases hresult : (rule.apply o t e).value.result with
    | some r =>
      simp [Outcome.settle, hresult, Event.remark?]
    | none =>
      simp [Outcome.settle, hresult, Event.remark?, hvalue', hremarks']
end

end Rule

/-! ## What a tallied tree reports -/

/-- Counting changes neither results nor environments. -/
theorem Leaf.outcome_tallied (label : String) (l : Leaf R) (o : Origin) (t : Term)
    (e : Environment) : (l.tallied label).outcome o t e = l.outcome o t e := by
  simp only [outcome, toRule, tallied, Rule.apply, Traced.value_bind]
  split <;> rfl

theorem Leaf.remarks_tallied (label : String) (l : Leaf R) (o : Origin) (t : Term)
    (e : Environment) :
    ((l.tallied label).toRule.apply o t e).remarks =
      .predicateRan label t e (l.passes t e) ::
        if l.passes t e then [.applicationRan label t (l.outcome o t e).env] else [] := by
  have htest : ((l.tallied label).predicate.test t e).remarks =
      [.predicateRan label t e (l.passes t e)] := rfl
  have hcompute : ∀ e', ((l.tallied label).application.compute o t e').remarks =
      [.applicationRan label t e'] := fun _ => rfl
  rw [env_outcome, toRule, Rule.apply, Traced.remarks_bind, htest]
  cases h : l.passes t e with
  | true =>
    have hok : ((l.tallied label).predicate.test t e).value.ok = true := h
    simp only [hok, if_true, Traced.remarks_bind, hcompute, Traced.remarks_pure]
    rfl
  | false =>
    have hok : ((l.tallied label).predicate.test t e).value.ok = false := h
    simp [hok]

namespace Rule

mutual
theorem leaves_tallied : ∀ (label : Nat → String) (rule : Rule R),
    (rule.tallied label).leaves = rule.leaves.mapIdx fun j l => l.tallied (label j)
  | label, .composite p c => by simp [tallied, leaves, Leaf.toRule]
  | label, .nested name rules => by
    rw [tallied, leaves, allLeaves_talliedAll, leaves]

theorem allLeaves_talliedAll : ∀ (label : Nat → String) (rules : List (Rule R)),
    allLeaves (talliedAll label rules) =
      (allLeaves rules).mapIdx fun j l => l.tallied (label j)
  | _, [] => rfl
  | label, rule :: rules => by
    rw [talliedAll, allLeaves, allLeaves, leaves_tallied label rule, allLeaves_talliedAll,
      List.mapIdx_append]
end

end Rule

theorem tallyOf_cons (label : Nat → String) (l : Leaf R) (ls : List (Leaf R)) (o : Origin)
    (t : Term) (e : Environment) :
    tallyOf label (l :: ls) o t e =
      .predicateRan (label 0) t e (l.passes t e) ::
        if l.passes t e then [.applicationRan (label 0) t (l.outcome o t e).env]
        else tallyOf (fun j => label (j + 1)) ls o t e := by
  cases h : l.passes t e with
  | true => simp [tallyOf, List.findIdx?_cons, firstMatch_cons, h]
  | false =>
    have hmatch : firstMatch (l :: ls) o t e = firstMatch ls o t e := by
      simp [firstMatch_cons, h]
    unfold tallyOf
    rw [hmatch, List.findIdx?_cons, h]
    cases ls.findIdx? fun l => l.passes t e with
    | some k => simp [List.range_succ_eq_map, List.map_map, Function.comp_def]
    | none => simp [List.range_succ_eq_map, List.map_map, Function.comp_def]

/-- The flat run over tallied leaves ends as without counting and makes the
remarks that are due. -/
theorem tryLeaves_tallied (o : Origin) (t : Term) (e : Environment) :
    ∀ (label : Nat → String) (ls : List (Leaf R)),
      (tryLeaves o t e (ls.mapIdx fun j l => l.tallied (label j))).value =
        firstMatch ls o t e ∧
      (tryLeaves o t e (ls.mapIdx fun j l => l.tallied (label j))).remarks =
        tallyOf label ls o t e
  | _, [] => ⟨rfl, rfl⟩
  | label, l :: ls => by
    obtain ⟨hvalue, hremarks⟩ := tryLeaves_tallied o t e (fun j => label (j + 1)) ls
    have hout : ((l.tallied (label 0)).toRule.apply o t e).value = l.outcome o t e :=
      l.outcome_tallied (label 0) o t e
    have hpass := l.isSome_outcome o t e
    rw [List.mapIdx_cons, tryLeaves, tallyOf_cons, firstMatch_cons]
    simp only [Traced.value_bind, Traced.remarks_bind, hout, hpass, l.remarks_tallied]
    cases h : l.passes t e with
    | true => simp
    | false => simp [hvalue, hremarks]

theorem RuleSet.extends_tallied {s : RuleSet R} (hs : ∀ l ∈ s.leaves, l.predicate.Extends)
    (label : Nat → String) : ∀ l ∈ (s.tallied label).leaves, l.predicate.Extends := by
  intro l hl
  rw [leaves, tallied, Rule.allLeaves_talliedAll] at hl
  obtain ⟨j, hj, rfl⟩ := List.mem_mapIdx.1 hl
  have hleaf : ((Rule.allLeaves s.rules)[j]).predicate.Extends := hs _ (List.getElem_mem hj)
  exact hleaf

/-- Applying a set whose leaves only bind more ends as its first match does. -/
theorem RuleSet.value_applyIn {s : RuleSet R} (hs : ∀ l ∈ s.leaves, l.predicate.Extends)
    (o : Origin) (t : Term) (e : Environment) :
    (s.applyIn o t e).value = firstMatch s.leaves o t e := by
  obtain ⟨hvalue, -⟩ := Rule.attemptAll_flatten s.rules hs s.name 0 o t e e (.refl e)
  exact hvalue.trans (value_tryLeaves o t e s.leaves)

/-- Applying a tallied set ends as without counting and makes the remarks that
are due. -/
theorem RuleSet.applyIn_tallied {s : RuleSet R} (hs : ∀ l ∈ s.leaves, l.predicate.Extends)
    (label : Nat → String) (o : Origin) (t : Term) (e : Environment) :
    ((s.tallied label).applyIn o t e).value = firstMatch s.leaves o t e ∧
    ((s.tallied label).applyIn o t e).remarks = tallyOf label s.leaves o t e := by
  obtain ⟨hvalue, hremarks⟩ := Rule.attemptAll_flatten (s.tallied label).rules
    (extends_tallied hs label) (s.tallied label).name 0 o t e e (.refl e)
  obtain ⟨hcount, hreport⟩ := tryLeaves_tallied o t e label s.leaves
  have hleaves : Rule.allLeaves (s.tallied label).rules =
      s.leaves.mapIdx fun j l => l.tallied (label j) := Rule.allLeaves_talliedAll label s.rules
  rw [hleaves] at hvalue hremarks
  exact ⟨hvalue.trans hcount, hremarks.trans hreport⟩

/-- **A tree of sets is the list of its leaves.** If the predicates of all
leaves only bind more, applying the set ends exactly as the first leaf that
matches on the caller's environment does, alone, and gives that environment
back when none does. And the leaves are tried once each, on that environment,
up to that first one, whose application alone is computed. -/
theorem applyIn_flatten (s : RuleSet R) (hs : ∀ l ∈ s.leaves, l.predicate.Extends)
    (label : Nat → String) (o : Origin) (t : Term) (e : Environment) :
    (s.applyIn o t e).value = firstMatch s.leaves o t e ∧
    ((s.tallied label).applyIn o t e).value = (s.applyIn o t e).value ∧
    ((s.tallied label).applyIn o t e).remarks = tallyOf label s.leaves o t e := by
  have happly := RuleSet.value_applyIn hs o t e
  obtain ⟨hvalue, hremarks⟩ := RuleSet.applyIn_tallied hs label o t e
  exact ⟨happly, hvalue.trans happly.symm, hremarks⟩

/-- An empty set, a set with a leaf that fails after it bound a variable, and a
leaf whose application gives an absent result, which is a match all the same. -/
def absentAfterFailure : RuleSet (Option Term) where
  name := none
  rules := [.nested none [],
    .nested (some "inner")
      [.composite (.binds [(.named "x", .nil), (.named "x", .long 1)]) (.const none)],
    .composite (.bindsSelf (.named "y")) (.const none)]

/-- A variable bound to a number that does not equal itself. -/
def boundToNaN : Environment := ⟨[(.named "n", .literal (.float ⟨0x7ff8000000000000⟩))]⟩

/-- The first leaf fails with a binding that the second never sees, next to a
binding of a NaN. -/
theorem applyIn_absentAfterFailure :
    (∀ l ∈ absentAfterFailure.leaves, l.predicate.Extends) ∧
    (absentAfterFailure.applyIn default .nil boundToNaN).value =
      ⟨some none, boundToNaN.push (.named "y") .nil⟩ ∧
    ((absentAfterFailure.tallied fun j => if j = 0 then "first" else "second").applyIn
        default .nil boundToNaN).remarks =
      [.predicateRan "first" .nil boundToNaN false, .predicateRan "second" .nil boundToNaN true,
        .applicationRan "second" .nil (boundToNaN.push (.named "y") .nil)] := by
  have hs : ∀ l ∈ absentAfterFailure.leaves, l.predicate.Extends := by
    intro l hl
    simp only [absentAfterFailure, RuleSet.leaves, Rule.allLeaves, Rule.leaves, List.nil_append,
      List.append_nil, List.cons_append, List.mem_cons, List.not_mem_nil, or_false] at hl
    rcases hl with rfl | rfl
    · exact Predicate.extends_binds _
    · exact Predicate.extends_bindsSelf _
  obtain ⟨hvalue, -, hremarks⟩ := applyIn_flatten absentAfterFailure hs
    (fun j => if j = 0 then "first" else "second") default .nil boundToNaN
  exact ⟨hs, hvalue.trans rfl, hremarks.trans rfl⟩

end TermRules

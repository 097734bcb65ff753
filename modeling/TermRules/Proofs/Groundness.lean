/-
TermRules.Proofs.Groundness — rules that bring no variables in.

A match of a ground term binds ground terms only, since all that it binds are parts
of that term, and it binds every variable of its pattern. So the template of a
closed rule becomes ground, wherever in it the variables stand, and putting that
in place of a part of a ground term gives a ground term. `ground_kept` draws the
conclusion for whole runs: sets of closed rules never lead from a ground term to one
with variables, under either strategy, and not at the limit on steps either.
-/
import TermRules.Proofs.Normalization

namespace TermRules

/-! ## Matches of ground terms -/

/-- All terms of the environment are ground. -/
def Environment.Ground (e : Environment) : Prop := e.AllBound fun _ t => t.isGround = true

namespace Matching

mutual
/-- A match of a ground term binds its parts, which are ground. -/
theorem ground_visit (a : Acceptance) : ∀ (p t : Term) {e : Environment},
    t.isGround = true → e.Ground → (visit a p t e).value.env.Ground
  | .var v, t, e, ht, he => by
    rw [visit]
    split
    · exact he
    · rw [Traced.value_bind]
      split
      · exact he.push ht
      · exact he
  | .seq _ ps, .seq _ ts, e, ht, he => by
    rw [visit]
    split
    · exact ground_visitAll a ps ts ht he
    · exact he
  | .seq _ _, .literal _, _, _, he | .seq _ _, .grounded _ _, _, _, he
  | .seq _ _, .boxed _ _, _, _, he => he
  | .literal _, _, _, _, he | .grounded _ _, _, _, _, he | .boxed _ _, _, _, _, he => he

theorem ground_visitAll (a : Acceptance) : ∀ (ps ts : List Term) {e : Environment},
    Term.allGround ts = true → e.Ground → (visitAll a ps ts e).value.env.Ground
  | p :: ps, t :: ts, e, hts, he => by
    obtain ⟨ht, hts⟩ := (Bool.and_eq_true _ _).mp hts
    have hhead := ground_visit a p t ht he
    rw [visitAll, Traced.value_bind]
    split
    · exact ground_visitAll a ps ts hts hhead
    · exact hhead
  | [], [], _, _, he | [], _ :: _, _, _, he | _ :: _, [], _, _, he => he
end

end Matching

namespace Term

mutual
/-- A term is ground once all of its variables are replaced by ground terms. -/
theorem isGround_substitute {e : Environment} : ∀ (t : Term) (o : Origin),
    (∀ v ∈ t.vars, ∃ u, e.get? v = some u ∧ u.isGround = true) →
    (t.substitute e o).isGround = true
  | .var v, o, h => by
    obtain ⟨u, hu, hground⟩ := h v List.mem_cons_self
    rw [substitute_var_of_get? hu]
    exact hground
  | .seq p ts, o, h => by
    obtain ⟨q, hq⟩ := substitute_seq e o p ts
    rw [hq, isGround]
    exact allGround_substituteAll ts o 0 h
  | .literal _, _, _ | .grounded _ _, _, _ | .boxed _ _, _, _ => by simp [isGround]

theorem allGround_substituteAll {e : Environment} : ∀ (ts : List Term) (o : Origin) (i : Nat),
    (∀ v ∈ allVars ts, ∃ u, e.get? v = some u ∧ u.isGround = true) →
    allGround (substituteAll e o i ts) = true
  | [], _, _, _ => rfl
  | t :: ts, o, i, h => by
    have hhead := isGround_substitute t (o.sub i) fun v hv => h v (List.mem_append_left _ hv)
    have htail := allGround_substituteAll ts o (i + 1) fun v hv => h v (List.mem_append_right _ hv)
    rw [substituteAll_cons, allGround, hhead, htail]
    rfl
end

end Term

/-- The result of a closed rule for a ground term is ground. -/
theorem TemplateRule.Closed.ground {a : Acceptance} {r : TemplateRule} (hr : r.Closed)
    {o : Origin} {t u : Term} (ht : t.isGround = true)
    (hu : ((r.leaf a).outcome o t .empty).result = some u) : u.isGround = true := by
  rw [result_outcome] at hu
  split at hu
  · rename_i hok
    cases hu
    have henv := Matching.ground_visit a r.pattern t ht Environment.allBound_empty
    refine Term.isGround_substitute r.template o fun v hv => ?_
    obtain ⟨-, u, hbound⟩ := hr.bound hok hv
    obtain ⟨-, -, hground⟩ := henv.of_get? hbound
    exact ⟨u, hbound, hground⟩
  · cases hu

/-- All rules of the set, at any depth, are closed rules from patterns to templates. -/
def RuleSet.OfClosed (a : Acceptance) (s : RuleSet Term) : Prop :=
  ∀ l ∈ s.leaves, ∃ r : TemplateRule, l = r.leaf a ∧ r.Closed

/-- And so is every result of a set of closed rules. -/
theorem RuleSet.OfClosed.ground {a : Acceptance} {s : RuleSet Term} (hs : s.OfClosed a)
    {o : Origin} {t u : Term} (ht : t.isGround = true) (hu : (s.result? o t).value = some u) :
    u.isGround = true := by
  have hextends : ∀ l ∈ s.leaves, l.predicate.Extends := by
    intro l hl
    obtain ⟨r, rfl, -⟩ := hs l hl
    exact r.extends_leaf a
  obtain ⟨l, hl, hresult⟩ := exists_leaf_of_result? hextends hu
  obtain ⟨r, rfl, hr⟩ := hs l hl
  exact hr.ground ht hresult

/-! ## Steps from ground terms -/

namespace Strategy

variable (s : Strategy) {f : Origin → Term → Traced (Option Term)}

mutual
/-- The sequences around a ground result that stands in a ground term are ground. -/
theorem ground_reduceFirst
    (hf : ∀ {o t u}, t.isGround = true → (f o t).value = some u → u.isGround = true) :
    ∀ (t : Term) (o : Origin) {u : Term}, t.isGround = true →
      (s.reduceFirst f o t).value = some u → u.isGround = true
  | .seq p items, o, u, ht, hu => by
    rcases s.reduceFirst_seq_cases hu with hroot | ⟨us, hus, rfl⟩
    · exact hf ht hroot
    · exact ground_reduceElement hf items o 0 ht hus
  | .literal _, o, u, ht, hu | .grounded _ _, o, u, ht, hu | .boxed _ _, o, u, ht, hu => by
    rw [s.reduceFirst_of_not_seq rfl] at hu
    exact hf ht hu

theorem ground_reduceElement
    (hf : ∀ {o t u}, t.isGround = true → (f o t).value = some u → u.isGround = true) :
    ∀ (ts : List Term) (o : Origin) (i : Nat) {us : List Term}, Term.allGround ts = true →
      (s.reduceElement f o i ts).value = some us → Term.allGround us = true
  | [], _, _, _, _, hus => nomatch hus
  | t :: ts, o, i, us, hts, hus => by
    obtain ⟨ht, hts⟩ := (Bool.and_eq_true _ _).mp hts
    rcases s.reduceElement_cons_cases hus with ⟨t', ht', rfl⟩ | ⟨ts', hts', rfl⟩
    · rw [Term.allGround, ground_reduceFirst hf t (o.sub i) ht ht', hts]
      rfl
    · rw [Term.allGround, ht, ground_reduceElement hf ts o (i + 1) hts hts']
      rfl
end

end Strategy

/-! ## Main statement -/

/-- **Closed rules keep ground terms ground.** For a set whose rules, at any depth, turn
patterns into templates without variables of their own, every result for a ground
term is ground, and so is every term that steps lead to from it, and the term that
normalization ends with, be it a normal form or the last one before the limit. -/
theorem RuleSet.ground_kept (a : Acceptance) (s : RuleSet Term) (hs : s.OfClosed a) (t : Term)
    (ht : t.isGround = true) :
    (∀ o u, (s.result? o t).value = some u → u.isGround = true) ∧
    ∀ settings,
      (∀ places k u, (Normalizer.mk s settings).steps? places k t = some u →
        u.isGround = true) ∧
      ∀ o, (Normalizer.ending ((Normalizer.mk s settings).normalize o t).value).isGround =
        true := by
  have hresult : ∀ {o t u}, t.isGround = true → (s.result? o t).value = some u →
      u.isGround = true := fun ht hu => hs.ground ht hu
  have hstep : ∀ settings {o t u}, t.isGround = true →
      ((Normalizer.mk s settings).step? o t).value = some u → u.isGround = true :=
    fun settings {o t _} ht hu => settings.strategy.ground_reduceFirst hresult t o ht hu
  refine ⟨fun o u hu => hresult ht hu, fun settings => ⟨fun places k u hu => ?_, fun o => ?_⟩⟩
  · exact Normalizer.steps?_keeps (hstep settings) k places ht hu
  · exact Normalizer.ending_keeps (hstep settings) o ht

/-- A rule that drops a variable of its pattern, and one that doubles what it finds. -/
def droppingAndDoubling : List TemplateRule :=
  [⟨.seq default [.symbol "drop", .var (.named "x"), .var (.named "y")], .var (.named "y")⟩,
    ⟨.seq default [.symbol "grow", .var (.named "x")],
      .seq default [.symbol "grow", .seq default [.var (.named "x"), .var (.named "x")]]⟩]

/-- The rules, each in a set of its own. -/
def growing : RuleSet Term :=
  ⟨none, droppingAndDoubling.map fun r => .nested none [r.toRule default]⟩

/-- Something to drop and something that grows for ever. -/
def dropAndGrow : Term :=
  .seq default [.symbol "drop", .nil, .seq default [.symbol "grow", .symbol "a"]]

/-- What is left at the limit is ground. -/
theorem RuleSet.ground_kept_growing :
    growing.OfClosed default ∧ dropAndGrow.isGround = true ∧
    Normalizer.placeless ((Normalizer.mk growing { maxSteps := 2 }).normalize default
      dropAndGrow).value =
        .error ⟨2, .seq default [.symbol "grow", .seq default [.symbol "a", .symbol "a"]]⟩ ∧
    (Normalizer.ending ((Normalizer.mk growing { maxSteps := 2 }).normalize default
      dropAndGrow).value).isGround = true := by
  have hs : growing.OfClosed default := by
    intro l hl
    have hleaves : growing.leaves = droppingAndDoubling.map fun r => r.leaf default := rfl
    rw [hleaves] at hl
    obtain ⟨r, hr, rfl⟩ := List.mem_map.1 hl
    exact ⟨r, rfl, (by decide : ∀ r ∈ droppingAndDoubling, r.Closed) r hr⟩
  obtain ⟨-, hruns⟩ := ground_kept default growing hs dropAndGrow rfl
  have hvalue := (Normalizer.normalize_eq_error_iff ⟨growing, { maxSteps := 2 }⟩ default dropAndGrow
    _ 2).2 ⟨rfl, rfl, (Normalizer.isSome_step? ⟨growing, {}⟩ default _).1 rfl⟩
  exact ⟨hs, rfl, congrArg Normalizer.placeless hvalue, (hruns _).2 default⟩

end TermRules

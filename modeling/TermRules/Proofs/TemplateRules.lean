/-
TermRules.Proofs.TemplateRules — sets of rules that turn patterns into templates.

The leaf of a template rule gives a result exactly if its pattern matches, and that
is the template under the bindings of the match (`result_outcome`). A match binds
every variable of its pattern (`get?_visit`), so under a rule that is `Closed`,
whose template has no other variables, nothing of the template's own is left over.
A set answers as the first of its leaves that gives a result (`value_result?`), and
so sets whose leaves answer alike do as well (`firstMatch_rel`).
-/
import Mathlib.Data.List.Forall2
import Mathlib.Data.Set.Defs
import TermRules.Proofs.Dispatch
import TermRules.Rule.Template
import TermRules.Term.Occurrence

namespace TermRules

/-! ## Variables of patterns and templates -/

namespace Term

/-- The identities of the variables in a term. -/
def ids (t : Term) : Set Identity := {i | ∃ v ∈ t.vars, v.id = i}

instance (t : Term) (i : Identity) : Decidable (i ∈ t.ids) :=
  inferInstanceAs (Decidable (∃ v ∈ t.vars, v.id = i))

theorem mem_ids {t : Term} {v : Variable} (hv : v ∈ t.vars) : v.id ∈ t.ids := ⟨v, hv, rfl⟩

end Term

namespace Matching

mutual
/-- A match binds every variable of its pattern. -/
theorem get?_visit (a : Acceptance) : ∀ (p t : Term) (e : Environment),
    (visit a p t e).value.ok = true →
    ∀ v ∈ p.vars, ∃ u, (visit a p t e).value.env.get? v = some u
  | .var v, t, e, hok, w, hw => by
    obtain rfl : w = v := List.mem_singleton.1 hw
    rw [visit] at hok ⊢
    cases hb : e.get? w with
    | some b => exact ⟨b, hb⟩
    | none =>
      rw [hb] at hok
      simp only [Traced.value_bind] at hok ⊢
      split at hok
      · rename_i haccepts
        rw [if_pos haccepts]
        refine ⟨t, ?_⟩
        rw [Traced.value_pure, Environment.get?_push hb, if_pos rfl]
      · cases hok
  | .seq _ ps, .seq _ ts, e, hok, w, hw => by
    rw [visit] at hok ⊢
    split at hok
    · rename_i hlength
      rw [if_pos hlength]
      exact get?_visitAll a ps ts e hok w hw
    · cases hok
  | .seq _ _, .literal _, _, hok, _, _ | .seq _ _, .grounded _ _, _, hok, _, _
  | .seq _ _, .boxed _ _, _, hok, _, _ | .seq _ _, .var _, _, hok, _, _ => by cases hok
  | .literal _, _, _, _, _, hw | .grounded _ _, _, _, _, _, hw
  | .boxed _ _, _, _, _, _, hw => nomatch hw

theorem get?_visitAll (a : Acceptance) : ∀ (ps ts : List Term) (e : Environment),
    (visitAll a ps ts e).value.ok = true →
    ∀ v ∈ Term.allVars ps, ∃ u, (visitAll a ps ts e).value.env.get? v = some u
  | [], _, _, _, _, hw => nomatch hw
  | _ :: _, [], _, hok, _, _ => by cases hok
  | p :: ps, t :: ts, e, hok, w, hw => by
    rw [visitAll, Traced.value_bind] at hok ⊢
    split at hok
    · rename_i hhead
      rw [if_pos hhead]
      rcases List.mem_append.1 hw with hw | hw
      · -- the rest of the walk only appends to what the head bound
        have hkept : (visit a p t e).value.env.Begins _ :=
          entries_visitAll a ps ts (visit a p t e).value.env
        obtain ⟨u, hu⟩ := get?_visit a p t e hhead w hw
        exact ⟨u, hkept.restricts w u hu⟩
      · exact get?_visitAll a ps ts _ hok w hw
    · rename_i hhead
      exact absurd hok hhead
end

end Matching

/-! ## Leaves of template rules -/

namespace TemplateRule

variable (a : Acceptance) (r : TemplateRule)

/-- The leaf of the rule. -/
def leaf : Leaf Term := ⟨.pattern a r.pattern, .template r.template⟩

/-- Every variable of the template occurs in the pattern. -/
def Closed : Prop := r.template.ids ⊆ r.pattern.ids

theorem closed_iff : r.Closed ↔ ∀ v ∈ r.template.vars, v.id ∈ r.pattern.ids := by
  refine ⟨fun h v hv => h (Term.mem_ids hv), fun h i hi => ?_⟩
  obtain ⟨v, hv, rfl⟩ := hi
  exact h v hv

instance : Decidable r.Closed := decidable_of_iff _ r.closed_iff.symm

theorem extends_leaf : (r.leaf a).predicate.Extends := Predicate.extends_pattern a r.pattern

/-- The result is the template under the bindings of the match. -/
theorem result_outcome (o : Origin) (t : Term) :
    ((r.leaf a).outcome o t .empty).result =
      if (Matching.visit a r.pattern t .empty).value.ok then
        some (r.template.substitute (Matching.visit a r.pattern t .empty).value.env o)
      else none := by
  have htest : ((Predicate.pattern a r.pattern).test t .empty).value =
      (Matching.visit a r.pattern t .empty).value := rfl
  rw [Leaf.outcome, Leaf.toRule, leaf, Rule.apply, Traced.value_bind, htest]
  cases (Matching.visit a r.pattern t .empty).value.ok <;> rfl

variable {a r}

/-- Once the pattern of a closed rule has matched, the variables of the template are
bound, by a variable of the pattern. -/
theorem Closed.bound (hr : r.Closed) {t : Term} {e : Environment}
    (hok : (Matching.visit a r.pattern t e).value.ok = true) {v : Variable}
    (hv : v ∈ r.template.vars) :
    v.id ∈ r.pattern.ids ∧ ∃ u, (Matching.visit a r.pattern t e).value.env.get? v = some u := by
  obtain ⟨w, hw, hid⟩ := hr (Term.mem_ids hv)
  obtain ⟨u, hu⟩ := Matching.get?_visit a r.pattern t e hok w hw
  exact ⟨⟨w, hw, hid⟩, u, Environment.get?_congr _ hid ▸ hu⟩

end TemplateRule

/-! ## Sets that answer alike -/

section Sets

variable {R α : Type}

/-- If the leaves of two lists answer alike in pairs, so do the first that match. -/
theorem firstMatch_rel {f : R → α} {o o' : Origin} {t t' : Term} {e e' : Environment}
    {leaves leaves' : List (Leaf R)}
    (h : List.Forall₂ (fun l l' => (l.outcome o t e).result.map f =
      (l'.outcome o' t' e').result.map f) leaves leaves') :
    (firstMatch leaves o t e).result.map f = (firstMatch leaves' o' t' e').result.map f := by
  induction h with
  | nil => rfl
  | @cons l l' _ _ hl _ ih =>
    have hpass : l.passes t e = l'.passes t' e' := by
      rw [← l.isSome_outcome o, ← l'.isSome_outcome o', ← Option.isSome_map (f := f), hl,
        Option.isSome_map]
    rw [firstMatch_cons, firstMatch_cons, hpass]
    split
    · exact hl
    · exact ih

/-- A set whose leaves only bind more answers as the first of them that matches. -/
theorem RuleSet.value_result? {s : RuleSet R} (hs : ∀ l ∈ s.leaves, l.predicate.Extends)
    (o : Origin) (t : Term) :
    (s.result? o t).value = (firstMatch s.leaves o t .empty).result := by
  rw [result?, Traced.value_map, value_applyIn hs]

/-- A result of the set is one of a leaf. -/
theorem RuleSet.exists_leaf_of_result? {s : RuleSet R}
    (hs : ∀ l ∈ s.leaves, l.predicate.Extends) {o : Origin} {t : Term} {u : R}
    (hu : (s.result? o t).value = some u) :
    ∃ l ∈ s.leaves, (l.outcome o t .empty).result = some u := by
  rw [value_result? hs, firstMatch] at hu
  split at hu
  · rename_i l hfind
    exact ⟨l, List.mem_of_find?_eq_some hfind, hu⟩
  · cases hu

end Sets

/-! ## Sets of template rules -/

/-- What the rule alone makes of a term. -/
def TemplateRule.result? (a : Acceptance) (r : TemplateRule) (o : Origin) (t : Term) :
    Option Term :=
  if (Matching.visit a r.pattern t .empty).value.ok then
    some (r.template.substitute (Matching.visit a r.pattern t .empty).value.env o)
  else none

namespace RuleSet

/-- Template rules as a set, in the given order. -/
def ofTemplates (a : Acceptance) (name : Option String) (rs : List TemplateRule) : RuleSet Term :=
  ⟨name, rs.map (TemplateRule.toRule a)⟩

variable (a : Acceptance) (name : Option String) (rs : List TemplateRule)

/-- Its leaves are those of the rules. -/
theorem leaves_ofTemplates : (ofTemplates a name rs).leaves = rs.map (TemplateRule.leaf a) := by
  unfold leaves ofTemplates
  induction rs with
  | nil => rfl
  | cons r rs ih => exact congrArg (r.leaf a :: ·) ih

theorem exists_template_of_mem_leaves {l : Leaf Term} (hl : l ∈ (ofTemplates a name rs).leaves) :
    ∃ r ∈ rs, l = r.leaf a := by
  rw [leaves_ofTemplates] at hl
  obtain ⟨r, hr, rfl⟩ := List.mem_map.1 hl
  exact ⟨r, hr, rfl⟩

/-- The set answers as the first of its rules that gives a result. -/
theorem value_result?_ofTemplates (o : Origin) (t : Term) :
    ((ofTemplates a name rs).result? o t).value = rs.findSome? fun r => r.result? a o t := by
  have hfirst : (firstMatch (rs.map (TemplateRule.leaf a)) o t .empty).result =
      rs.findSome? fun r => r.result? a o t := by
    induction rs with
    | nil => rfl
    | cons r rs ih =>
      have hpass : (r.leaf a).passes t .empty = (Matching.visit a r.pattern t .empty).value.ok := rfl
      rw [List.map_cons, firstMatch_cons, hpass, List.findSome?_cons, TemplateRule.result?]
      cases hok : (Matching.visit a r.pattern t .empty).value.ok with
      | true => rw [if_pos rfl, r.result_outcome, hok]; rfl
      | false => exact ih
  rw [value_result?, leaves_ofTemplates, hfirst]
  intro l hl
  obtain ⟨r, -, rfl⟩ := exists_template_of_mem_leaves a name rs hl
  exact r.extends_leaf a

end RuleSet

end TermRules

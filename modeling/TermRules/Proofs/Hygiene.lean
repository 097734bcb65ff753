/-
TermRules.Proofs.Hygiene — the names of a rule's variables do not matter.

A rule is tried on an environment of its own, variables of the target are plain
values to it, and what substitution puts in is not looked into again. So no variable
of a rule ever meets one of the target or of another rule, and only equality of
identities counts among those of the rule itself. `hygienic` says so for whole sets:
rename the variables of each rule as you like, as long as two of them do not become
one, and results, steps and normalizations are the very same, also for terms that
contain the old or the new variables.

Two matches are compared that bind the same terms in the same order under other
variables (`visit_rename`). The template is the place where this could go wrong: one
of its variables that the pattern does not bind would be left over under its new
name. For a closed rule there is none (`substitute_rename`).
-/
import Mathlib.Data.Set.Function
import TermRules.Proofs.Normalization
import TermRules.Proofs.Sharing

namespace TermRules

/-! ## Renaming -/

variable {ρ : Identity → Identity}

/-- The variable under another identity, with its own filter. -/
def Variable.rename (ρ : Identity → Identity) (v : Variable) : Variable := { v with id := ρ v.id }

namespace Term

mutual
/-- The term with its variables renamed. A sequence that has some is a new node, built
below `o` along the shape of the term; one that has none is kept. -/
def rename (ρ : Identity → Identity) : Origin → Term → Term
  | _, .var v => .var (v.rename ρ)
  | o, .seq p items => if allGround items then .seq p items else .seq o (renameAll ρ o 0 items)
  | _, t => t

/-- The elements from the `i`-th on with their variables renamed. -/
def renameAll (ρ : Identity → Identity) (o : Origin) (i : Nat) : List Term → List Term
  | [] => []
  | t :: ts => rename ρ (o.sub i) t :: renameAll ρ o (i + 1) ts
end

mutual
theorem rename_of_isGround : ∀ (t : Term) (o : Origin), t.isGround = true → t.rename ρ o = t
  | .seq _ items, _, ht => by
    have hitems : allGround items = true := ht
    rw [rename, if_pos hitems]
  | .literal _, _, _ | .grounded _ _, _, _ | .boxed _ _, _, _ => rfl

theorem renameAll_of_allGround : ∀ (ts : List Term) (o : Origin) (i : Nat),
    allGround ts = true → renameAll ρ o i ts = ts
  | [], _, _, _ => rfl
  | t :: ts, o, i, hts => by
    obtain ⟨ht, hts⟩ := (Bool.and_eq_true _ _).mp hts
    rw [renameAll, rename_of_isGround t (o.sub i) ht, renameAll_of_allGround ts o (i + 1) hts]
end

/-- A sequence becomes one, kept or new, of its elements so treated. -/
theorem rename_seq (ρ : Identity → Identity) (o p : Origin) (ts : List Term) :
    ∃ q, (seq p ts).rename ρ o = .seq q (renameAll ρ o 0 ts) := by
  rw [rename]
  split
  · rename_i hts
    exact ⟨p, by rw [renameAll_of_allGround ts o 0 hts]⟩
  · exact ⟨o, rfl⟩

@[simp] theorem length_renameAll (o : Origin) (i : Nat) (ts : List Term) :
    (renameAll ρ o i ts).length = ts.length := by
  induction ts generalizing i with
  | nil => rfl
  | cons t ts ih => simp [renameAll, ih]

mutual
theorem vars_rename : ∀ (t : Term) (o : Origin),
    (t.rename ρ o).vars = t.vars.map (Variable.rename ρ)
  | .var _, _ => rfl
  | .seq p ts, o => by
    obtain ⟨q, hq⟩ := rename_seq ρ o p ts
    rw [hq, vars, vars, allVars_renameAll ts o 0]
  | .literal _, _ | .grounded _ _, _ | .boxed _ _, _ => rfl

theorem allVars_renameAll : ∀ (ts : List Term) (o : Origin) (i : Nat),
    allVars (renameAll ρ o i ts) = (allVars ts).map (Variable.rename ρ)
  | [], _, _ => rfl
  | t :: ts, o, i => by
    rw [renameAll, allVars, allVars, List.map_append, vars_rename t (o.sub i),
      allVars_renameAll ts o (i + 1)]
end

end Term

/-- The environment with its variables renamed, bound to the same terms. -/
def Environment.rename (ρ : Identity → Identity) (e : Environment) : Environment :=
  ⟨e.entries.map fun x => (x.1.rename ρ, x.2)⟩

/-- The variables of the environment are among those identities. -/
def Environment.Within (S : Set Identity) (e : Environment) : Prop :=
  e.AllBound fun v _ => v.id ∈ S

namespace Environment

theorem rename_push (e : Environment) (v : Variable) (t : Term) :
    (e.push v t).rename ρ = (e.rename ρ).push (v.rename ρ) t := by
  simp [rename, push]

/-- Where no two identities become one, variables are found under their new names. -/
theorem get?_rename {S : Set Identity} (hρ : Set.InjOn ρ S) {e : Environment} (he : e.Within S)
    {v : Variable} (hv : v.id ∈ S) : (e.rename ρ).get? (v.rename ρ) = e.get? v := by
  have hsame : ∀ x ∈ e.entries, (x.1.rename ρ == v.rename ρ) = (x.1 == v) := by
    intro x hx
    have hiff : (x.1.rename ρ == v.rename ρ) = true ↔ (x.1 == v) = true := by
      rw [Variable.beq_iff, Variable.beq_iff]
      exact hρ.eq_iff (he x hx) hv
    exact Bool.eq_iff_iff.2 hiff
  have hfind : e.entries.find? (fun x => x.1.rename ρ == v.rename ρ) =
      e.entries.find? (fun x => x.1 == v) := by
    rw [← List.head?_filter, ← List.head?_filter, List.filter_congr hsame]
  rw [get?, get?, rename, List.find?_map, Option.map_map]
  exact congrArg _ hfind

end Environment

/-! ## Matching under other names -/

/-- The attempt with the variables of its environment renamed. -/
def Attempt.rename (ρ : Identity → Identity) (x : Attempt) : Attempt := ⟨x.ok, x.env.rename ρ⟩

namespace Matching

mutual
/-- A renamed pattern is matched in the same way, in an environment renamed likewise. -/
theorem visit_rename (a : Acceptance) {S : Set Identity} (hρ : Set.InjOn ρ S) :
    ∀ (p t : Term) {e : Environment} (q : Origin), (∀ v ∈ p.vars, v.id ∈ S) → e.Within S →
      (visit a (p.rename ρ q) t (e.rename ρ)).value = (visit a p t e).value.rename ρ ∧
        (visit a p t e).value.env.Within S
  | .var v, t, e, q, hp, he => by
    have hv := hp v List.mem_cons_self
    -- the filter stays with the variable
    have haccepts : (v.rename ρ).accepts a t = v.accepts a t := rfl
    rw [Term.rename, visit, visit, Environment.get?_rename hρ he hv, haccepts]
    cases e.get? v with
    | some b => exact ⟨rfl, he⟩
    | none =>
      simp only [Traced.value_bind]
      split
      · refine ⟨?_, he.push hv⟩
        simp only [Traced.value_pure, Attempt.rename, Environment.rename_push]
      · exact ⟨rfl, he⟩
  | .seq o ps, .seq _ ts, e, q, hp, he => by
    obtain ⟨q', hq'⟩ := Term.rename_seq ρ q o ps
    rw [hq', visit, visit, Term.length_renameAll]
    split
    · exact visitAll_rename a hρ ps ts q 0 hp he
    · exact ⟨rfl, he⟩
  | .seq o ps, .literal _, e, q, _, he | .seq o ps, .grounded _ _, e, q, _, he
  | .seq o ps, .boxed _ _, e, q, _, he | .seq o ps, .var _, e, q, _, he => by
    obtain ⟨q', hq'⟩ := Term.rename_seq ρ q o ps
    rw [hq', visit_seq_of_not_seq a q' _ rfl, visit_seq_of_not_seq a o ps rfl]
    exact ⟨rfl, he⟩
  | .literal _, _, _, _, _, he | .grounded _ _, _, _, _, _, he | .boxed _ _, _, _, _, _, he =>
    ⟨rfl, he⟩

theorem visitAll_rename (a : Acceptance) {S : Set Identity} (hρ : Set.InjOn ρ S) :
    ∀ (ps ts : List Term) {e : Environment} (q : Origin) (i : Nat),
      (∀ v ∈ Term.allVars ps, v.id ∈ S) → e.Within S →
      (visitAll a (Term.renameAll ρ q i ps) ts (e.rename ρ)).value =
        (visitAll a ps ts e).value.rename ρ ∧ (visitAll a ps ts e).value.env.Within S
  | [], [], _, _, _, _, he | [], _ :: _, _, _, _, _, he | _ :: _, [], _, _, _, _, he => ⟨rfl, he⟩
  | p :: ps, t :: ts, e, q, i, hp, he => by
    obtain ⟨hvalue, hwithin⟩ := visit_rename a hρ p t (q.sub i)
      (fun v hv => hp v (List.mem_append_left _ hv)) he
    rw [Term.renameAll, visitAll, visitAll, Traced.value_bind, Traced.value_bind, hvalue,
      Attempt.rename]
    split
    · exact visitAll_rename a hρ ps ts q (i + 1)
        (fun v hv => hp v (List.mem_append_right _ hv)) hwithin
    · exact ⟨rfl, hwithin⟩
end

end Matching

/-! ## Substituting under other names -/

namespace Term

theorem substitute_of_isGround {t : Term} (ht : t.isGround = true) (e : Environment)
    (o : Origin) : t.substitute e o = t := by
  have hnone : substitute? e o t = none := by
    rw [substitute?_eq_none_iff, (isGround_iff t).1 ht]
    exact fun _ hv => nomatch hv
  rw [substitute, hnone, Option.getD_none]

mutual
/-- Where all variables of a term are bound, to the same terms under their new names, the
renamed term becomes the very same one, at the same nodes. -/
theorem substitute_rename {e f : Environment} : ∀ (t : Term) (q o : Origin),
    (∀ v ∈ t.vars, ∃ u, e.get? v = some u ∧ f.get? (v.rename ρ) = some u) →
    (t.rename ρ q).substitute f o = t.substitute e o
  | .var v, _, _, h => by
    obtain ⟨u, hu, hu'⟩ := h v List.mem_cons_self
    rw [rename, substitute_var_of_get? hu, substitute_var_of_get? hu']
  | .seq p ts, q, o, h => by
    cases hts : allGround ts with
    | true =>
      have hground : (seq p ts).isGround = true := hts
      rw [rename_of_isGround _ q hground, substitute_of_isGround hground,
        substitute_of_isGround hground]
    | false =>
      -- a variable stands in it, and so a new node is built from either, at the same place
      obtain ⟨v, hv⟩ : ∃ v, v ∈ allVars ts := by
        refine List.exists_mem_of_ne_nil _ fun hnil => ?_
        rw [(allGround_iff ts).2 hnil] at hts
        cases hts
      obtain ⟨u, hu, hu'⟩ := h v hv
      have hv' : v.rename ρ ∈ allVars (renameAll ρ q 0 ts) := by
        rw [allVars_renameAll]
        exact List.mem_map_of_mem hv
      rw [rename, hts, if_neg Bool.false_ne_true, substitute_seq_of_bound hv hu,
        substitute_seq_of_bound hv' hu', substituteAll_rename ts q o 0 0 h]
  | .literal _, _, _, _ | .grounded _ _, _, _, _ | .boxed _ _, _, _, _ => by simp [rename]

theorem substituteAll_rename {e f : Environment} : ∀ (ts : List Term) (q o : Origin) (j i : Nat),
    (∀ v ∈ allVars ts, ∃ u, e.get? v = some u ∧ f.get? (v.rename ρ) = some u) →
    substituteAll f o i (renameAll ρ q j ts) = substituteAll e o i ts
  | [], _, _, _, _, _ => rfl
  | t :: ts, q, o, j, i, h => by
    rw [renameAll, substituteAll_cons, substituteAll_cons,
      substitute_rename t (q.sub j) (o.sub i) fun v hv => h v (List.mem_append_left _ hv),
      substituteAll_rename ts q o (j + 1) (i + 1) fun v hv => h v (List.mem_append_right _ hv)]
end

end Term

/-! ## Rules under other names -/

namespace TemplateRule

/-- The rule with the variables of both sides renamed, and the new nodes of either side
built at a place of its own. -/
def rename (ρ : Identity → Identity) (q q' : Origin) (r : TemplateRule) : TemplateRule :=
  ⟨r.pattern.rename ρ q, r.template.rename ρ q'⟩

/-- A closed rule gives the same result under other names. -/
theorem Closed.result_rename {r : TemplateRule} (hr : r.Closed)
    (hρ : Set.InjOn ρ r.pattern.ids) (a : Acceptance) (q q' o : Origin) (t : Term) :
    (((r.rename ρ q q').leaf a).outcome o t .empty).result =
      ((r.leaf a).outcome o t .empty).result := by
  obtain ⟨hvisit, hwithin⟩ := Matching.visit_rename a hρ r.pattern t (e := .empty) q
    (fun _ hv => Term.mem_ids hv) Environment.allBound_empty
  have hmatch : (Matching.visit a (r.rename ρ q q').pattern t .empty).value =
      (Matching.visit a r.pattern t .empty).value.rename ρ := hvisit
  rw [result_outcome, result_outcome, hmatch, Attempt.rename]
  split
  · rename_i hok
    refine congrArg some (Term.substitute_rename r.template q' o fun v hv => ?_)
    obtain ⟨hid, u, hu⟩ := hr.bound hok hv
    exact ⟨u, hu, (Environment.get?_rename hρ hwithin hid).trans hu⟩
  · rfl

end TemplateRule

/-- The first leaf is that of a closed rule, and the second that of the rule under other
names, no two of which have become one. -/
inductive Leaf.Renamed (a : Acceptance) : Leaf Term → Leaf Term → Prop
  | intro {r : TemplateRule} (hr : r.Closed) {ρ : Identity → Identity}
    (hρ : Set.InjOn ρ r.pattern.ids) (q q' : Origin) :
    Renamed a (r.leaf a) ((r.rename ρ q q').leaf a)

theorem Leaf.Renamed.extends {a : Acceptance} {l l' : Leaf Term} (h : l.Renamed a l') :
    l.predicate.Extends ∧ l'.predicate.Extends := by
  cases h
  exact ⟨TemplateRule.extends_leaf a _, TemplateRule.extends_leaf a _⟩

theorem Leaf.Renamed.result_eq {a : Acceptance} {l l' : Leaf Term} (h : l.Renamed a l')
    (o : Origin) (t : Term) : (l.outcome o t .empty).result = (l'.outcome o t .empty).result := by
  cases h with
  | intro hr hρ q q' => exact (hr.result_rename hρ a q q' o t).symm

/-- **Rules are hygienic.** Take a set whose rules, at any depth, turn patterns into
templates without variables of their own, and rename the variables of each rule on its
own: the set answers every term as before, whatever variables are in it, and every step
and every normalization is the same, under any settings. -/
theorem RuleSet.hygienic (a : Acceptance) (s s' : RuleSet Term)
    (h : List.Forall₂ (Leaf.Renamed a) s.leaves s'.leaves) (o : Origin) (t : Term) :
    (s'.result? o t).value = (s.result? o t).value ∧
    ∀ settings,
      ((Normalizer.mk s' settings).step? o t).value =
        ((Normalizer.mk s settings).step? o t).value ∧
      ((Normalizer.mk s' settings).normalize o t).value =
        ((Normalizer.mk s settings).normalize o t).value := by
  have hs : ∀ l ∈ s.leaves, l.predicate.Extends :=
    ((List.forall₂_and_left _ _).1 (h.imp fun _ _ hl => ⟨hl.extends.1, hl⟩)).1
  have hs' : ∀ l ∈ s'.leaves, l.predicate.Extends :=
    ((List.forall₂_and_left _ _).1 (.flip (h.imp fun _ _ hl => ⟨hl.extends.2, hl⟩))).1
  have hresult : ∀ o t, (s'.result? o t).value = (s.result? o t).value := by
    intro o t
    have hmatch := firstMatch_rel (f := id) (h.imp fun _ _ hl => congrArg _ (hl.result_eq o t))
    rw [value_result? hs, value_result? hs']
    simpa using hmatch.symm
  have hstep : ∀ settings o t, ((Normalizer.mk s' settings).step? o t).value =
      ((Normalizer.mk s settings).step? o t).value :=
    fun settings o t => settings.strategy.reduceFirst_congr hresult t o
  exact ⟨hresult o t, fun settings => ⟨hstep settings o t,
    Normalizer.normalize_congr ⟨s', settings⟩ ⟨s, settings⟩ rfl (hstep settings) o t⟩⟩

/-- Puts a number first. -/
def numberFirst : TemplateRule where
  pattern := .seq default [.symbol "pair", .var (.named "x"),
    .var ((Variable.named "y").withFilter .number)]
  template := .seq default [.symbol "ordered", .var (.named "y"), .var (.named "x")]

/-- Keeps what comes second. -/
def keepSecond : TemplateRule where
  pattern := .seq default [.symbol "ordered", .var (.named "y"), .var (.named "x")]
  template := .var (.named "x")

/-- The two names changed for each other. -/
def exchanged (i : Identity) : Identity :=
  if i = .named ⟨"x"⟩ then .named ⟨"y"⟩ else if i = .named ⟨"y"⟩ then .named ⟨"x"⟩ else i

/-- One name changed for the other, and that for a fresh variable. -/
def freshened (i : Identity) : Identity :=
  if i = .named ⟨"x"⟩ then .named ⟨"y"⟩ else if i = .named ⟨"y"⟩ then .fresh 0 0 else i

/-- A set of the two rules, the first in a set of its own. -/
def orderAndKeep (r r' : TemplateRule) : RuleSet Term :=
  ⟨none, [.nested none [r.toRule default], r'.toRule default]⟩

/-- Each rule is renamed in its own way, and the target has one of their variables. -/
theorem RuleSet.hygienic_orderAndKeep :
    List.Forall₂ (Leaf.Renamed default) (orderAndKeep numberFirst keepSecond).leaves
      (orderAndKeep (numberFirst.rename exchanged default default)
        (keepSecond.rename freshened default default)).leaves ∧
    ((Normalizer.mk (orderAndKeep (numberFirst.rename exchanged default default)
      (keepSecond.rename freshened default default)) {}).normalize default
        (.seq default [.symbol "pair", .var (.named "x"), .long 1])).value =
      .ok ⟨.var (.named "x"), 2⟩ := by
  have hexchanged : Set.InjOn exchanged numberFirst.pattern.ids := by
    rintro _ ⟨v, hv, rfl⟩ _ ⟨w, hw, rfl⟩
    revert v w
    decide
  have hfreshened : Set.InjOn freshened keepSecond.pattern.ids := by
    rintro _ ⟨v, hv, rfl⟩ _ ⟨w, hw, rfl⟩
    revert v w
    decide
  have hrenamed : List.Forall₂ (Leaf.Renamed default) (orderAndKeep numberFirst keepSecond).leaves
      (orderAndKeep (numberFirst.rename exchanged default default)
        (keepSecond.rename freshened default default)).leaves :=
    .cons (.intro (by decide) hexchanged default default)
      (.cons (.intro (by decide) hfreshened default default) .nil)
  obtain ⟨-, hsame⟩ := hygienic default _ _ hrenamed default
    (.seq default [.symbol "pair", .var (.named "x"), .long 1])
  have hvalue := (Normalizer.normalize_eq_ok_iff ⟨orderAndKeep numberFirst keepSecond, {}⟩ default
    (.seq default [.symbol "pair", .var (.named "x"), .long 1]) (.var (.named "x")) 2).2
      ⟨by decide, rfl, (Normalizer.step?_eq_none_iff _ default _).1 rfl⟩
  exact ⟨hrenamed, (hsame {}).2.trans hvalue⟩

end TermRules

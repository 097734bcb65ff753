/-
TermRules.Proofs.Shrinking — rules whose results are smaller than what they rewrite.

A set `Shrinks` if every result of it, for a whole term, has fewer nodes than that term. The
sequences around a result are built anew with all other elements, so a step inside of a
term, under either strategy, makes the whole smaller too (`size_reduceFirst`). Every step
then pays for itself out of the nodes of the input (`steps?_size`): what is left of them
bounds the steps that are left, and as no term is without a node, a limit of as many steps
as there are nodes is never exceeded. `normalize_shrinking`.

For template rules it can be read off the rule whether it shrinks. A match makes the
pattern, filled in, as large as the term that it met (`size_visit`), and filling in adds to
a term what the bound terms have over a variable, once for each occurrence
(`size_substitute`). So a rule shrinks if its template is smaller than its pattern and no
variable occurs in it more often than there (`TemplateRule.Shrinks`).
-/
import Mathlib.Algebra.GroupWithZero.Nat
import Mathlib.Algebra.Order.BigOperators.Group.List
import Mathlib.Algebra.Order.Group.Nat
import Mathlib.Data.List.Perm.Subperm
import TermRules.Proofs.Inversion
import TermRules.Proofs.Normalization

namespace TermRules

/-! ## Steps of shrinking sets -/

/-- Every result of the set is smaller than the term that it is for. -/
def RuleSet.Shrinks (s : RuleSet Term) : Prop :=
  ∀ (o : Origin) (t u : Term), (s.result? o t).value = some u → u.size < t.size

namespace Strategy

variable (s : Strategy) {f : Origin → Term → Traced (Option Term)}

mutual
/-- What is smaller by itself makes the sequences around it smaller. -/
theorem size_reduceFirst (hf : ∀ {o t u}, (f o t).value = some u → u.size < t.size) :
    ∀ (t : Term) (o : Origin) {u : Term}, (s.reduceFirst f o t).value = some u → u.size < t.size
  | .seq p items, o, u, hu => by
    rcases s.reduceFirst_seq_cases hu with hroot | ⟨us, hus, rfl⟩
    · exact hf hroot
    · exact Nat.succ_lt_succ (sizeAll_reduceElement hf items o 0 hus)
  | .literal _, o, u, hu | .grounded _ _, o, u, hu | .boxed _ _, o, u, hu | .var _, o, u, hu => by
    rw [s.reduceFirst_of_not_seq rfl] at hu
    exact hf hu

theorem sizeAll_reduceElement (hf : ∀ {o t u}, (f o t).value = some u → u.size < t.size) :
    ∀ (ts : List Term) (o : Origin) (i : Nat) {us : List Term},
      (s.reduceElement f o i ts).value = some us → Term.sizeAll us < Term.sizeAll ts
  | [], _, _, _, hus => nomatch hus
  | t :: ts, o, i, us, hus => by
    rcases s.reduceElement_cons_cases hus with ⟨t', ht', rfl⟩ | ⟨ts', hts', rfl⟩
    · exact Nat.add_lt_add_right (size_reduceFirst hf t (o.sub i) ht') _
    · exact Nat.add_lt_add_left (sizeAll_reduceElement hf ts o (i + 1) hts') _
end

end Strategy

namespace Normalizer

variable {n : Normalizer}

theorem size_step? (hn : n.rules.Shrinks) {o : Origin} {t t' : Term}
    (h : (n.step? o t).value = some t') : t'.size < t.size :=
  n.settings.strategy.size_reduceFirst (hn _ _ _) t o h

/-- Each step takes at least one node away. -/
theorem steps?_size (hn : n.rules.Shrinks) (k : Nat) (places : Nat → Origin) {t u : Term}
    (hu : n.steps? places k t = some u) : k + u.size ≤ t.size := by
  induction k generalizing places t with
  | zero =>
    cases hu
    exact (Nat.zero_add _).le
  | succ k ih =>
    obtain ⟨t', hfirst, hrest⟩ := Option.bind_eq_some_iff.1 hu
    have hstep := size_step? hn hfirst
    have hmore := ih _ hrest
    omega

end Normalizer

/-! ## Template rules that shrink -/

/-- What the term of a variable has more than the variable, in nodes. -/
def Environment.growth (e : Environment) (i : Identity) : Nat :=
  match e.get? ⟨i, none⟩ with
  | some t => t.size - 1
  | none => 0

namespace Term

theorem size_of_not_seq {t : Term} (ht : t.isSeq = false) : t.size = 1 := by
  cases t with
  | seq o ts => cases ht
  | _ => rfl

mutual
/-- Terms that are alike have the same size. -/
theorem Alike.size_eq : ∀ (t : Term) {u : Term}, t.Alike u → t.size = u.size
  | .seq o ts, u, h => by
    obtain ⟨p, us, rfl, helements⟩ := h.elements
    rw [size, size, sizeAll_eq_of_alike ts helements]
  | .literal _, u, h | .grounded _ _, u, h | .boxed _ _, u, h | .var _, u, h => by
    rw [size_of_not_seq rfl, size_of_not_seq (h.not_seq rfl)]

theorem sizeAll_eq_of_alike : ∀ (ts : List Term) {us : List Term}, List.Forall₂ Alike ts us →
    sizeAll ts = sizeAll us
  | [], _, .nil => rfl
  | t :: ts, _, .cons h hs => by rw [sizeAll, sizeAll, h.size_eq, sizeAll_eq_of_alike ts hs]
end

mutual
/-- Each occurrence of a bound variable makes a term larger by as much as its term is. -/
theorem size_substitute (e : Environment) : ∀ (t : Term) (o : Origin),
    (t.substitute e o).size = t.size + (t.vars.map fun v => e.growth v.id).sum
  | .var v, o => by
    have hget : e.get? v = e.get? ⟨v.id, none⟩ := e.get?_congr rfl
    rw [substitute_var, hget, vars, List.map_singleton, List.sum_cons, List.sum_nil,
      Environment.growth]
    cases e.get? ⟨v.id, none⟩ with
    | none => rfl
    | some b =>
      have hpos := b.size_pos
      show b.size = 1 + (b.size - 1)
      omega
  | .seq p ts, o => by
    obtain ⟨q, hq⟩ := substitute_seq e o p ts
    have helements := sizeAll_substituteAll e ts o 0
    rw [hq, size, size, vars, helements, Nat.add_right_comm]
  | .literal _, _ | .grounded _ _, _ | .boxed _ _, _ => by simp [vars]

theorem sizeAll_substituteAll (e : Environment) : ∀ (ts : List Term) (o : Origin) (i : Nat),
    sizeAll (substituteAll e o i ts) = sizeAll ts + ((allVars ts).map fun v => e.growth v.id).sum
  | [], _, _ => rfl
  | t :: ts, o, i => by
    have hhead := size_substitute e t (o.sub i)
    have htail := sizeAll_substituteAll e ts o (i + 1)
    rw [substituteAll_cons, sizeAll, sizeAll, allVars, List.map_append, List.sum_append_nat, hhead,
      htail]
    omega
end

end Term

namespace TemplateRule

/-- The template is smaller than the pattern, and no variable occurs in it more often. -/
def Shrinks (r : TemplateRule) : Prop :=
  r.template.size < r.pattern.size ∧
    (r.template.vars.map (·.id)).Subperm (r.pattern.vars.map (·.id))

instance (r : TemplateRule) : Decidable r.Shrinks :=
  inferInstanceAs (Decidable (_ < _ ∧ List.Subperm _ _))

/-- What the template makes of a match is smaller than what the pattern matched. -/
theorem Shrinks.size_lt {a : Acceptance} {r : TemplateRule} (hr : r.Shrinks) {o : Origin}
    {t u : Term} (hu : ((r.leaf a).outcome o t .empty).result = some u) : u.size < t.size := by
  rw [result_outcome] at hu
  split at hu
  · rename_i hok
    cases hu
    obtain ⟨hsize, l, hperm, hsublist⟩ := hr
    -- the pattern, filled in, is as large as what it matched
    have hmatched := (Matching.visit_alike a r.pattern t .empty _ o hok (.refl _)).size_eq
    have hgrowth : ∀ (e : Environment), (r.template.vars.map fun v => e.growth v.id).sum ≤
        (r.pattern.vars.map fun v => e.growth v.id).sum := by
      intro e
      have hsum := (hsublist.map e.growth).sum_le_sum fun _ _ => Nat.zero_le _
      rw [(hperm.map e.growth).sum_nat, List.map_map, List.map_map] at hsum
      exact hsum
    have hmore := hgrowth (Matching.visit a r.pattern t .empty).value.env
    rw [Term.size_substitute] at hmatched ⊢
    omega
  · cases hu

end TemplateRule

/-- A set whose rules, at any depth, are template rules that shrink does so, too. -/
theorem RuleSet.shrinks_of_leaves {a : Acceptance} {s : RuleSet Term}
    (hs : ∀ l ∈ s.leaves, ∃ r : TemplateRule, l = r.leaf a ∧ r.Shrinks) : s.Shrinks := by
  have hextends : ∀ l ∈ s.leaves, l.predicate.Extends := by
    intro l hl
    obtain ⟨r, rfl, -⟩ := hs l hl
    exact r.extends_leaf a
  intro o t u hu
  obtain ⟨l, hl, hresult⟩ := exists_leaf_of_result? hextends hu
  obtain ⟨r, rfl, hr⟩ := hs l hl
  exact hr.size_lt hresult

/-! ## Main statement -/

namespace Normalizer

/-- **Shrinking rules never run into the limit.** If every result of a set is smaller than
the term that it is for, normalization succeeds under either strategy from any term that
has no more nodes than the limit has steps, and the steps that it takes and the nodes of the
normal form are together no more than the nodes of that term. -/
theorem normalize_shrinking (n : Normalizer) (hn : n.rules.Shrinks) (o : Origin) (t : Term)
    (hlimit : t.size ≤ n.settings.maxSteps) :
    ∃ r, (n.normalize o t).value = .ok r ∧ r.steps + r.term.size ≤ t.size := by
  cases hend : (n.normalize o t).value with
  | ok r =>
    obtain ⟨u, s⟩ := r
    obtain ⟨-, hu, -⟩ := (n.normalize_eq_ok_iff o t u s).1 hend
    exact ⟨⟨u, s⟩, rfl, steps?_size hn s o.turn hu⟩
  | error x =>
    obtain ⟨limit, u⟩ := x
    obtain ⟨rfl, hu, -⟩ := (n.normalize_eq_error_iff o t u limit).1 hend
    -- as many steps as that would leave a term without nodes
    have hpaid := steps?_size hn n.settings.maxSteps o.turn hu
    have hpos := u.size_pos
    omega

/-- A rule that asks for the same term twice and keeps one of them, and one that looks two
levels deep. -/
def pruningRules : List TemplateRule :=
  [⟨.seq default [.symbol "either", .var (.named "x"), .var (.named "x")], .var (.named "x")⟩,
    ⟨.seq default [.symbol "open", .seq default [.symbol "box", .var (.named "x")]],
      .seq default [.symbol "got", .var (.named "x")]⟩]

def pruning : RuleSet Term := .ofTemplates default none pruningRules

/-- The same box twice, one of them to be opened first. -/
def boxedTwice : Term :=
  .seq default [.symbol "either", .seq default [.symbol "got", .symbol "a"],
    .seq default [.symbol "open", .seq default [.symbol "box", .symbol "a"]]]

/-- Nodes are enough of a limit. The two steps, the opening and the choice, and the three
nodes that are left are paid for by the ten of the term. -/
theorem normalize_shrinking_boxedTwice :
    pruning.Shrinks ∧ boxedTwice.size ≤ 10 ∧
    ((Normalizer.mk pruning { maxSteps := 10 }).normalize default boxedTwice).value =
      .ok ⟨.seq default [.symbol "got", .symbol "a"], 2⟩ ∧
    2 + (Term.seq default [.symbol "got", .symbol "a"]).size ≤ boxedTwice.size := by
  have hshrinks : pruning.Shrinks := by
    refine RuleSet.shrinks_of_leaves (a := default) fun l hl => ?_
    obtain ⟨r, hr, rfl⟩ := RuleSet.exists_template_of_mem_leaves _ _ _ hl
    exact ⟨r, rfl, (by decide : ∀ r ∈ pruningRules, r.Shrinks) r hr⟩
  have hlimit : boxedTwice.size ≤ 10 := by decide
  have hvalue : ((Normalizer.mk pruning { maxSteps := 10 }).normalize default boxedTwice).value =
      .ok ⟨.seq default [.symbol "got", .symbol "a"], 2⟩ :=
    (normalize_eq_ok_iff _ _ _ _ _).2
      ⟨by decide, rfl, (step?_eq_none_iff ⟨pruning, {}⟩ default _).1 rfl⟩
  obtain ⟨r, hr, hpaid⟩ :=
    normalize_shrinking ⟨pruning, { maxSteps := 10 }⟩ hshrinks default boxedTwice hlimit
  obtain rfl := Except.ok.inj (hr.symm.trans hvalue)
  exact ⟨hshrinks, hlimit, hvalue, hpaid⟩

end Normalizer

end TermRules

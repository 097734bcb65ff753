/-
TermRules.Proofs.Placement — terms up to the places of their sequences.

Two computations that do the same work at different places end in terms that
differ only in the origins of the sequences they built. `unplaced` forgets
these; grounded atoms keep theirs, since equality looks at them. A rule set is
`PlaceBlind` if its answer is a function of the term so understood. Then a step
is one too (`reduceFirst_unplaced`), under either strategy. Template rules are
place-blind, in sets of any nesting (`placeBlind_of_leaves`,
`template_placeBlind`), because equality does not see the places of sequences
and substitution only hands terms on.
-/
import TermRules.Proofs.Reduction
import TermRules.Proofs.TemplateRules

namespace TermRules

namespace Term

mutual
/-- The term with the places of its sequences forgotten. -/
def unplaced : Term → Term
  | .seq _ items => .seq default (allUnplaced items)
  | t => t

/-- The terms with the places of their sequences forgotten. -/
def allUnplaced : List Term → List Term
  | [] => []
  | t :: ts => unplaced t :: allUnplaced ts
end

theorem allUnplaced_eq_map (ts : List Term) : allUnplaced ts = ts.map unplaced := by
  induction ts with
  | nil => rfl
  | cons t ts ih => rw [allUnplaced, ih, List.map_cons]

theorem isSeq_unplaced (t : Term) : t.unplaced.isSeq = t.isSeq := by
  cases t <;> rfl

theorem unplaced_of_not_seq {t : Term} (ht : t.isSeq = false) : t.unplaced = t := by
  cases t with
  | seq o items => cases ht
  | _ => rfl

/-- What agrees with a sequence up to places is a sequence. -/
theorem eq_seq_of_unplaced {o : Origin} {ts : List Term} {u : Term}
    (h : (Term.seq o ts).unplaced = u.unplaced) :
    ∃ o' us, u = .seq o' us ∧ allUnplaced ts = allUnplaced us := by
  cases u with
  | seq o' us =>
    rw [unplaced, unplaced] at h
    injection h with _ hitems
    exact ⟨o', us, rfl, hitems⟩
  | _ => cases h

/-- What agrees up to places with a term that is no sequence is that term. -/
theorem eq_of_unplaced {t u : Term} (ht : t.isSeq = false) (h : t.unplaced = u.unplaced) :
    u = t := by
  have hu : u.isSeq = false := by rw [← isSeq_unplaced, ← h, isSeq_unplaced, ht]
  rw [unplaced_of_not_seq ht, unplaced_of_not_seq hu] at h
  exact h.symm

mutual
/-- Equality does not see the places of sequences. -/
theorem beq_unplaced : ∀ t u : Term, (t.unplaced == u.unplaced) = (t == u)
  | .seq o ts, .seq o' us => beqAll_unplaced ts us
  | .seq _ _, .literal _ | .seq _ _, .grounded _ _ | .seq _ _, .boxed _ _ | .seq _ _, .var _ => rfl
  | .literal _, u | .grounded _ _, u | .boxed _ _, u | .var _, u => by cases u <;> rfl

theorem beqAll_unplaced : ∀ ts us : List Term,
    beqAll (allUnplaced ts) (allUnplaced us) = beqAll ts us
  | [], [] | [], _ :: _ | _ :: _, [] => rfl
  | t :: ts, u :: us => by
    have hhead : Term.beq t.unplaced u.unplaced = Term.beq t u := beq_unplaced t u
    rw [allUnplaced, allUnplaced, beqAll, beqAll, hhead, beqAll_unplaced ts us]
end

theorem beq_congr_unplaced {t t' u u' : Term} (ht : t.unplaced = t'.unplaced)
    (hu : u.unplaced = u'.unplaced) : (t == u) = (t' == u') := by
  rw [← beq_unplaced t u, ht, hu, beq_unplaced]

end Term

/-! ## Steps at other places -/

/-- The answer of the set is a function of the term, whatever the places of its
sequences, up to the places of what is built. -/
def RuleSet.PlaceBlind (s : RuleSet Term) : Prop :=
  ∀ (o o' : Origin) (t t' : Term), t.unplaced = t'.unplaced →
    (s.result? o t).value.map Term.unplaced = (s.result? o' t').value.map Term.unplaced

namespace Strategy

variable (s : Strategy) {f : Origin → Term → Traced (Option Term)}

mutual
theorem reduceFirst_unplaced
    (hf : ∀ o o' t t', t.unplaced = t'.unplaced →
      (f o t).value.map Term.unplaced = (f o' t').value.map Term.unplaced) :
    ∀ (t t' : Term) (o o' : Origin), t.unplaced = t'.unplaced →
      (s.reduceFirst f o t).value.map Term.unplaced =
        (s.reduceFirst f o' t').value.map Term.unplaced
  | .seq p items, t', o, o', h => by
    obtain ⟨p', items', rfl, hitems⟩ := Term.eq_seq_of_unplaced h
    have helement := reduceElement_unplaced hf items items' o o' 0 0 hitems
    have hroot := hf o o' _ _ h
    have hseq : ∀ (q : Origin) (ts : Option (List Term)),
        (ts.map (Term.seq q)).map Term.unplaced =
          (ts.map Term.allUnplaced).map (Term.seq default) := by
      intro q ts
      cases ts <;> rfl
    cases s with
    | outermost => simp [reduceFirst, Traced.value_orElse, Option.map_or, hroot, hseq, helement]
    | innermost => simp [reduceFirst, Traced.value_orElse, Option.map_or, hroot, hseq, helement]
  | .literal _, t', o, o', h | .grounded _ _, t', o, o', h | .boxed _ _, t', o, o', h
  | .var _, t', o, o', h => by
    rw [Term.eq_of_unplaced rfl h, s.reduceFirst_of_not_seq rfl, s.reduceFirst_of_not_seq rfl]
    exact hf o o' _ _ rfl

theorem reduceElement_unplaced
    (hf : ∀ o o' t t', t.unplaced = t'.unplaced →
      (f o t).value.map Term.unplaced = (f o' t').value.map Term.unplaced) :
    ∀ (ts ts' : List Term) (o o' : Origin) (i i' : Nat),
      Term.allUnplaced ts = Term.allUnplaced ts' →
      (s.reduceElement f o i ts).value.map Term.allUnplaced =
        (s.reduceElement f o' i' ts').value.map Term.allUnplaced
  | [], [], _, _, _, _, _ => rfl
  | [], _ :: _, _, _, _, _, h | _ :: _, [], _, _, _, _, h => by cases h
  | t :: ts, t' :: ts', o, o', i, i', h => by
    rw [Term.allUnplaced, Term.allUnplaced] at h
    obtain ⟨hhead, htail⟩ := List.cons.inj h
    have hfirst := reduceFirst_unplaced hf t t' (o.sub i) (o'.sub i') hhead
    have hrest := reduceElement_unplaced hf ts ts' o o' (i + 1) (i' + 1) htail
    have hput : ∀ (us : List Term) (x : Option Term), (x.map (· :: us)).map Term.allUnplaced =
        (x.map Term.unplaced).map (· :: Term.allUnplaced us) := by
      intro us x
      cases x <;> rfl
    have hkeep : ∀ (u : Term) (x : Option (List Term)), (x.map (u :: ·)).map Term.allUnplaced =
        (x.map Term.allUnplaced).map (u.unplaced :: ·) := by
      intro u x
      cases x <;> rfl
    rw [value_reduceElement_cons, value_reduceElement_cons, Option.map_or, Option.map_or, hput,
      hput, hkeep, hkeep, hfirst, hrest, hhead, htail]
end

end Strategy

/-! ## Template rules -/

/-- The environment with the places of sequences in its terms forgotten. -/
def Environment.unplaced (e : Environment) : Environment :=
  ⟨e.entries.map fun entry => (entry.1, entry.2.unplaced)⟩

namespace Environment

theorem get?_unplaced (e : Environment) (v : Variable) :
    e.unplaced.get? v = (e.get? v).map Term.unplaced := by
  simp only [get?, unplaced, List.find?_map, Option.map_map]
  rfl

theorem unplaced_push (e : Environment) (v : Variable) (t : Term) :
    (e.push v t).unplaced = e.unplaced.push v t.unplaced := by
  simp [unplaced, push]

/-- Environments that agree up to places bind each variable to terms that do. -/
theorem get?_eq_of_unplaced {e e' : Environment} (h : e.unplaced = e'.unplaced) (v : Variable) :
    (e.get? v).map Term.unplaced = (e'.get? v).map Term.unplaced := by
  rw [← get?_unplaced, h, get?_unplaced]

end Environment

/-- No custom filter sees the places of sequences. -/
def Acceptance.PlaceBlind (a : Acceptance) : Prop :=
  ∀ (key : Nat) (t t' : Term), t.unplaced = t'.unplaced →
    (a.test key t).value = (a.test key t').value

theorem Acceptance.placeBlind_default : PlaceBlind default := fun _ _ _ _ => rfl

theorem Variable.accepts_unplaced {a : Acceptance} (ha : a.PlaceBlind) (v : Variable)
    {t t' : Term} (h : t.unplaced = t'.unplaced) :
    (v.accepts a t).value = (v.accepts a t').value := by
  have hshape : Filter.isNumber t = Filter.isNumber t' ∧ t.symbol? = t'.symbol? ∧
      t.isSeq = t'.isSeq := by
    cases ht : t.isSeq with
    | false => rw [Term.eq_of_unplaced ht h]; exact ⟨rfl, rfl, ht.symm⟩
    | true =>
      cases t with
      | seq o ts =>
        obtain ⟨o', us, rfl, -⟩ := Term.eq_seq_of_unplaced h
        exact ⟨rfl, rfl, rfl⟩
      | _ => cases ht
  obtain ⟨hnumber, hsymbol, hseq⟩ := hshape
  unfold accepts
  cases v.filter with
  | none => rfl
  | some f =>
    cases f with
    | number => simp [Filter.accepts, hnumber]
    | symbol => simp [Filter.accepts, hsymbol]
    | sequence => simp [Filter.accepts, hseq]
    | custom label key => exact ha key t t' h

namespace Matching

mutual
/-- Matching gives the same answer and the same bindings up to places. -/
theorem visit_unplaced {a : Acceptance} (ha : a.PlaceBlind) :
    ∀ (p t t' : Term) (e e' : Environment), t.unplaced = t'.unplaced →
      e.unplaced = e'.unplaced →
      (visit a p t e).value.ok = (visit a p t' e').value.ok ∧
        (visit a p t e).value.env.unplaced = (visit a p t' e').value.env.unplaced
  | .var v, t, t', e, e', ht, he => by
    have hbound := Environment.get?_eq_of_unplaced he v
    rw [visit, visit]
    cases h : e.get? v with
    | some b =>
      rw [h] at hbound
      obtain ⟨b', h', hb⟩ := Option.map_eq_some_iff.1 hbound.symm
      rw [h']
      exact ⟨Term.beq_congr_unplaced hb.symm ht, he⟩
    | none =>
      rw [h] at hbound
      rw [Option.map_eq_none_iff.1 hbound.symm]
      simp only [Traced.value_bind, v.accepts_unplaced ha ht]
      split
      · refine ⟨rfl, ?_⟩
        simp only [Traced.value_pure, Environment.unplaced_push, he, ht]
      · exact ⟨rfl, he⟩
  | .seq o ps, t, t', e, e', ht, he => by
    cases hseq : t.isSeq with
    | true =>
      cases t with
      | seq q ts =>
        obtain ⟨q', ts', rfl, hts⟩ := Term.eq_seq_of_unplaced ht
        have hlen : ts.length = ts'.length := by
          rw [Term.allUnplaced_eq_map, Term.allUnplaced_eq_map] at hts
          simpa using congrArg List.length hts
        rw [visit, visit, hlen]
        split
        · exact visitAll_unplaced ha ps ts ts' e e' hts he
        · exact ⟨rfl, he⟩
      | _ => cases hseq
    | false =>
      rw [Term.eq_of_unplaced hseq ht, visit_seq_of_not_seq a o ps hseq,
        visit_seq_of_not_seq a o ps hseq]
      exact ⟨rfl, he⟩
  | .literal _, t, t', e, e', ht, he | .grounded _ _, t, t', e, e', ht, he
  | .boxed _ _, t, t', e, e', ht, he => ⟨Term.beq_congr_unplaced rfl ht, he⟩

theorem visitAll_unplaced {a : Acceptance} (ha : a.PlaceBlind) :
    ∀ (ps ts ts' : List Term) (e e' : Environment),
      Term.allUnplaced ts = Term.allUnplaced ts' → e.unplaced = e'.unplaced →
      (visitAll a ps ts e).value.ok = (visitAll a ps ts' e').value.ok ∧
        (visitAll a ps ts e).value.env.unplaced = (visitAll a ps ts' e').value.env.unplaced
  | _, [], _ :: _, _, _, hts, _ | _, _ :: _, [], _, _, hts, _ => by cases hts
  | [], [], [], _, _, _, he | [], _ :: _, _ :: _, _, _, _, he
  | _ :: _, [], [], _, _, _, he => ⟨rfl, he⟩
  | p :: ps, t :: ts, t' :: ts', e, e', hts, he => by
    rw [Term.allUnplaced, Term.allUnplaced] at hts
    obtain ⟨hhead, htail⟩ := List.cons.inj hts
    obtain ⟨hok, henv⟩ := visit_unplaced ha p t t' e e' hhead he
    rw [visitAll, visitAll, Traced.value_bind, Traced.value_bind, hok]
    split
    · exact visitAll_unplaced ha ps ts ts' _ _ htail henv
    · exact ⟨hok, henv⟩
end

end Matching

namespace Term

mutual
/-- Substitution hands terms on without looking at their places. -/
theorem unplaced_substitute {e e' : Environment} (he : e.unplaced = e'.unplaced) :
    ∀ (u : Term) (o o' : Origin), (u.substitute e o).unplaced = (u.substitute e' o').unplaced
  | .var v, _, _ => by
    have hbound := Environment.get?_eq_of_unplaced he v
    have hgetD : ∀ x : Option Term,
        (x.getD (.var v)).unplaced = (x.map unplaced).getD (.var v) := by
      intro x
      cases x <;> rfl
    rw [substitute_var, substitute_var, hgetD, hgetD, hbound]
  | .seq p us, o, o' => by
    obtain ⟨q, hq⟩ := substitute_seq e o p us
    obtain ⟨q', hq'⟩ := substitute_seq e' o' p us
    rw [hq, hq', unplaced, unplaced, unplaced_substituteAll he us o o' 0 0]
  | .literal _, _, _ | .grounded _ _, _, _ | .boxed _ _, _, _ => by simp

theorem unplaced_substituteAll {e e' : Environment} (he : e.unplaced = e'.unplaced) :
    ∀ (us : List Term) (o o' : Origin) (i i' : Nat),
      allUnplaced (substituteAll e o i us) = allUnplaced (substituteAll e' o' i' us)
  | [], _, _, _, _ => rfl
  | u :: us, o, o', i, i' => by
    rw [substituteAll_cons, substituteAll_cons, allUnplaced, allUnplaced,
      unplaced_substitute he u (o.sub i) (o'.sub i'),
      unplaced_substituteAll he us o o' (i + 1) (i' + 1)]
end

end Term

/-- The answer of the leaf is a function of the term up to places. -/
def Leaf.PlaceBlind (l : Leaf Term) : Prop :=
  ∀ (o o' : Origin) (t t' : Term), t.unplaced = t'.unplaced →
    (l.outcome o t .empty).result.map Term.unplaced =
      (l.outcome o' t' .empty).result.map Term.unplaced

/-- A set is place-blind if its leaves are and only bind more. -/
theorem RuleSet.placeBlind_of_leaves {s : RuleSet Term}
    (hs : ∀ l ∈ s.leaves, l.predicate.Extends) (hl : ∀ l ∈ s.leaves, l.PlaceBlind) :
    s.PlaceBlind := by
  intro o o' t t' h
  rw [value_result? hs, value_result? hs]
  exact firstMatch_rel (List.forall₂_same.2 fun l hmem => hl l hmem o o' t t' h)

/-- The leaf of a template rule is place-blind. -/
theorem TemplateRule.placeBlind {a : Acceptance} (ha : a.PlaceBlind) (r : TemplateRule) :
    (r.leaf a).PlaceBlind := by
  intro o o' t t' h
  obtain ⟨hok, henv⟩ := Matching.visit_unplaced ha r.pattern t t' .empty .empty h rfl
  rw [result_outcome, result_outcome, hok]
  split
  · exact congrArg some (Term.unplaced_substitute henv r.template o o')
  · rfl

/-- **Template rules do not see places.** A set whose rules, at any depth, turn
patterns into templates answers by the term alone, up to what it builds. -/
theorem RuleSet.template_placeBlind {a : Acceptance} (ha : a.PlaceBlind) {s : RuleSet Term}
    (hs : ∀ l ∈ s.leaves, ∃ r : TemplateRule, l = r.leaf a) : s.PlaceBlind := by
  refine placeBlind_of_leaves (fun l hl => ?_) (fun l hl => ?_)
  · obtain ⟨r, rfl⟩ := hs l hl
    exact r.extends_leaf a
  · obtain ⟨r, rfl⟩ := hs l hl
    exact r.placeBlind ha

theorem RuleSet.placeBlind_ofTemplates {a : Acceptance} (ha : a.PlaceBlind)
    (name : Option String) (rs : List TemplateRule) : (ofTemplates a name rs).PlaceBlind := by
  refine template_placeBlind ha fun l hl => ?_
  obtain ⟨r, -, rfl⟩ := exists_template_of_mem_leaves a name rs hl
  exact ⟨r, rfl⟩

end TermRules

/-
TermRules.Proofs.Composition — one substitution after another.

Substitution is terminal, so substituting under two environments in turn is not
substituting under both put together: a term of the first may mention a variable of the
second. It is substituting under the first with its terms substituted under the second,
and then the entries of the second whose variables the first leaves unbound (`andThen`).

On values alone this is an equation between fillings, `fill_fill`, and what
substitution does up to the places of sequences is a filling
(`unplaced_substitute_eq`). What is replaced in a term, and by what, is told by the
look-ups of its variables (`substitute?_congr`), so the order of the entries does not
matter; and the variables left afterwards are known (`vars_substitute`), so it can be told
when there is nothing left to replace. `substitute_andThen` puts these together.
-/
import TermRules.Proofs.Mapping
import TermRules.Proofs.Sharing

namespace TermRules

/-! ## Composition -/

namespace Environment

variable {e f : Environment}

/-- The terms of the first filled in under the second, then what only the second binds. -/
def compose (e f : Environment) : Environment :=
  ⟨e.entries.map (fun x => (x.1, x.2.fill f)) ++ f.entries.filter fun x => !e.contains x.1⟩

/-- The terms of the first substituted under the second, each at a part of `o` of its own,
then what only the second binds. -/
def andThen (e f : Environment) (o : Origin) : Environment :=
  ⟨e.entries.mapIdx (fun i x => (x.1, x.2.substitute f (o.sub i))) ++
    f.entries.filter fun x => !e.contains x.1⟩

theorem get?_compose (e f : Environment) (v : Variable) :
    (e.compose f).get? v = ((e.get? v).map (Term.fill f)).or (f.get? v) := by
  have hfirst : (e.entries.map fun x => (x.1, x.2.fill f)).find? (fun x => x.1 == v) =
      (e.entries.find? fun x => x.1 == v).map fun x => (x.1, x.2.fill f) := by
    rw [List.find?_map]
    rfl
  unfold compose
  cases hv : e.get? v with
  | some b =>
    obtain ⟨x, hx, rfl⟩ := Option.map_eq_some_iff.1 hv
    simp [get?, List.find?_append, hfirst, hx]
  | none =>
    -- what the second binds to `v` is kept then
    have hkept : ∀ x : Variable × Term, (!e.contains x.1 && x.1 == v) = (x.1 == v) := by
      intro x
      by_cases hid : x.1.id = v.id
      · simp [contains, e.get?_congr hid, hv]
      · simp [Variable.beq_def, hid]
    have hx : e.entries.find? (fun x => x.1 == v) = none := Option.map_eq_none_iff.1 hv
    simp only [get?, List.find?_append, hfirst, hx, List.find?_filter, Bool.decide_and,
      Bool.decide_eq_true, hkept, Option.map_none, Option.none_or]

theorem Single.compose (he : e.Single) (hf : f.Single) : (e.compose f).Single := by
  refine List.pairwise_append.2 ⟨List.pairwise_map.2 he, hf.filter _, ?_⟩
  intro x hx y hy hid
  obtain ⟨x', hx', rfl⟩ := List.mem_map.1 hx
  obtain ⟨-, hy⟩ := List.mem_filter.1 hy
  obtain ⟨t, ht⟩ := exists_get?_of_mem hx'
  rw [e.get?_congr hid] at ht
  simp [contains, ht] at hy

theorem single_unplaced : e.unplaced.Single ↔ e.Single := List.pairwise_map

theorem contains_unplaced (e : Environment) (v : Variable) :
    e.unplaced.contains v = e.contains v := by
  rw [contains, get?_unplaced, Option.isSome_map, contains]

end Environment

/-! ## Filling in twice -/

namespace Term

mutual
/-- Filling in under one environment and then another is filling in under both composed. -/
theorem fill_fill (e f : Environment) : ∀ t : Term, (t.fill e).fill f = t.fill (e.compose f)
  | .var v => by
    rw [fill, fill, Environment.get?_compose]
    cases e.get? v with
    | some b => rfl
    | none => rfl
  | .seq _ ts => by simp only [fill, fillAll_fillAll e f ts]
  | .literal _ | .grounded _ _ | .boxed _ _ => rfl

theorem fillAll_fillAll (e f : Environment) :
    ∀ ts : List Term, fillAll f (fillAll e ts) = fillAll (e.compose f) ts
  | [] => rfl
  | t :: ts => by simp only [fillAll, fill_fill e f t, fillAll_fillAll e f ts]
end

mutual
/-- Filling in does not look at places. -/
theorem unplaced_fill (e : Environment) : ∀ t : Term,
    (t.fill e).unplaced = t.unplaced.fill e.unplaced
  | .var v => by
    rw [unplaced_of_not_seq (t := .var v) rfl, fill, fill, Environment.get?_unplaced]
    cases e.get? v with
    | some b => rfl
    | none => rfl
  | .seq _ ts => by simp only [fill, unplaced, allUnplaced_fillAll e ts]
  | .literal _ | .grounded _ _ | .boxed _ _ => rfl

theorem allUnplaced_fillAll (e : Environment) : ∀ ts : List Term,
    allUnplaced (fillAll e ts) = fillAll e.unplaced (allUnplaced ts)
  | [] => rfl
  | t :: ts => by simp only [fillAll, allUnplaced, unplaced_fill e t, allUnplaced_fillAll e ts]
end

/-- Substitution is filling in, up to places. -/
theorem unplaced_substitute_eq (e : Environment) (t : Term) (o : Origin) :
    (t.substitute e o).unplaced = t.unplaced.fill e.unplaced := by
  rw [unplaced_substitute_eq_fill, unplaced_fill]

end Term

/-- Up to places, composition is composition. -/
theorem Environment.unplaced_andThen (e f : Environment) (o : Origin) :
    (e.andThen f o).unplaced = e.unplaced.compose f.unplaced := by
  have hterms : (e.entries.mapIdx fun i x => (x.1, x.2.substitute f (o.sub i))).map
        (fun x => (x.1, x.2.unplaced)) =
      e.unplaced.entries.map fun x => (x.1, x.2.fill f.unplaced) := by
    refine List.ext_getElem? fun i => ?_
    simp only [unplaced, List.getElem?_map, List.getElem?_mapIdx, Option.map_map]
    refine congrArg (Option.map · e.entries[i]?) (funext fun x => ?_)
    exact congrArg (Prod.mk x.1) (Term.unplaced_substitute_eq f x.2 (o.sub i))
  have hrest : (f.entries.filter fun x => !e.contains x.1).map (fun x => (x.1, x.2.unplaced)) =
      f.unplaced.entries.filter fun x => !e.unplaced.contains x.1 := by
    simp only [contains_unplaced]
    rw [unplaced, List.filter_map]
    rfl
  rw [unplaced, andThen, List.map_append, hterms, hrest]
  rfl

/-! ## What is left to replace -/

namespace Term

mutual
theorem mapped?_congr {e f : Environment} : ∀ (t : Term) (o : Origin),
    (∀ v ∈ t.vars, e.get? v = f.get? v) → mapped? e o t = mapped? f o t
  | .var v, _, h => h v List.mem_cons_self
  | .seq _ ts, o, h => by rw [mapped?, mapped?, mappedAll?_congr ts o 0 h]
  | .literal _, _, _ | .grounded _ _, _, _ | .boxed _ _, _, _ => rfl

theorem mappedAll?_congr {e f : Environment} : ∀ (ts : List Term) (o : Origin) (i : Nat),
    (∀ v ∈ allVars ts, e.get? v = f.get? v) → mappedAll? e o i ts = mappedAll? f o i ts
  | [], _, _, _ => rfl
  | t :: ts, o, i, h => by
    have hhead := mapped?_congr t (o.sub i) fun v hv => h v (List.mem_append_left _ hv)
    have htail := mappedAll?_congr ts o (i + 1) fun v hv => h v (List.mem_append_right _ hv)
    rw [mappedAll?, mappedAll?, hhead, htail]
end

/-- What a substitution does is told by the look-ups of the term's variables. -/
theorem substitute?_congr {e f : Environment} (t : Term) (o : Origin)
    (h : ∀ v ∈ t.vars, e.get? v = f.get? v) : substitute? e o t = substitute? f o t := by
  rw [substitute?_eq_mapped?, substitute?_eq_mapped?, mapped?_congr t o h]

mutual
/-- Every variable is replaced by those of what is put in its place. -/
theorem vars_substitute (e : Environment) : ∀ (t : Term) (o : Origin),
    (t.substitute e o).vars = t.vars.flatMap fun v => ((var v).substitute e o).vars
  | .var v, o => by simp [vars]
  | .seq p ts, o => by
    obtain ⟨q, hq⟩ := substitute_seq e o p ts
    rw [hq, vars, vars, allVars_substituteAll e ts o 0]
  | .literal _, _ | .grounded _ _, _ | .boxed _ _, _ => by simp [vars]

theorem allVars_substituteAll (e : Environment) : ∀ (ts : List Term) (o : Origin) (i : Nat),
    allVars (substituteAll e o i ts) =
      (allVars ts).flatMap fun v => ((var v).substitute e o).vars
  | [], _, _ => rfl
  | t :: ts, o, i => by
    rw [substituteAll_cons, allVars, allVars, List.flatMap_append, vars_substitute e t,
      allVars_substituteAll e ts o (i + 1)]
    rfl
end

/-- A bound variable that is left was put in with the term of another one. -/
theorem exists_of_mem_vars_substitute {e : Environment} {t : Term} {o : Origin} {w : Variable}
    (hw : w ∈ (t.substitute e o).vars) {c : Term} (hc : e.get? w = some c) :
    ∃ v ∈ t.vars, ∃ b, e.get? v = some b ∧ w ∈ b.vars := by
  rw [vars_substitute, List.mem_flatMap] at hw
  obtain ⟨v, hv, hw⟩ := hw
  rw [substitute_var] at hw
  cases hb : e.get? v with
  | some b =>
    rw [hb] at hw
    exact ⟨v, hv, b, hb, hw⟩
  | none =>
    rw [hb, Option.getD_none, vars, List.mem_singleton] at hw
    rw [hw, hb] at hc
    cases hc

/-! ## Main statement -/

/-- **Substitutions compose.** Substituting under two environments in turn is, up to the
places of sequences, substituting under the first followed by the second, and these make a
single environment if they are single. A substitution depends on what the variables are
looked up as and on nothing else, so the entries of a single environment may stand in any
order. And where no bound term mentions a bound variable, there is nothing to replace the
second time. -/
theorem substitute_andThen (t : Term) (e f : Environment) :
    (∀ o o' p q, ((t.substitute e o).substitute f o').unplaced =
      (t.substitute (e.andThen f p) q).unplaced) ∧
    (e.Single → f.Single → ∀ p, (e.andThen f p).Single) ∧
    (∀ g : Environment, (∀ v, e.get? v = g.get? v) →
      ∀ o, substitute? e o t = substitute? g o t) ∧
    (∀ g : Environment, e.Single → e.entries.Perm g.entries →
      ∀ o, substitute? e o t = substitute? g o t) ∧
    ((∀ v b, e.get? v = some b → ∀ w ∈ b.vars, e.get? w = none) →
      ∀ o o', substitute? e o' (t.substitute e o) = none) := by
  refine ⟨?_, ?_, ?_, ?_, ?_⟩
  · intro o o' p q
    simp only [unplaced_substitute_eq, fill_fill, Environment.unplaced_andThen]
  · intro he hf p
    rw [← Environment.single_unplaced, Environment.unplaced_andThen]
    exact (Environment.single_unplaced.2 he).compose (Environment.single_unplaced.2 hf)
  · exact fun g h o => substitute?_congr t o fun v _ => h v
  · exact fun g he hperm o => substitute?_congr t o fun v _ => he.get?_perm hperm v
  · intro hterminal o o'
    rw [substitute?_eq_none_iff]
    intro w hw
    cases hc : e.get? w with
    | none => rfl
    | some c =>
      obtain ⟨v, -, b, hb, hmention⟩ := exists_of_mem_vars_substitute hw hc
      rw [hterminal v b hb w hmention] at hc
      cases hc

/-- A variable bound to a call that mentions another one, and an alias. -/
def callAndAlias : Environment :=
  ⟨[(.named "x", .seq ⟨[1]⟩ [.symbol "g", .var (.named "y")]), (.named "z", .var (.named "w"))]⟩

/-- The variable that the call mentions, and the one bound to the call. -/
def mentionedAndBound : Environment := ⟨[(.named "y", .long 1), (.named "x", .long 2)]⟩

/-- Three of these variables. -/
def threeVariables : Term :=
  .seq ⟨[0]⟩ [.var (.named "x"), .var (.named "y"), .var (.named "z")]

/-- What is bound twice keeps its first term, filled in; nothing is left to replace under
the first environment, and the order of its entries is of no account. -/
theorem substitute_andThen_overlapping :
    callAndAlias.Single ∧ mentionedAndBound.Single ∧
    (callAndAlias.andThen mentionedAndBound ⟨[2]⟩).Single ∧
    callAndAlias.entries.Perm callAndAlias.entries.reverse ∧
    (∀ o, substitute? callAndAlias o threeVariables =
      substitute? ⟨callAndAlias.entries.reverse⟩ o threeVariables) ∧
    substitute? callAndAlias ⟨[4]⟩ (threeVariables.substitute callAndAlias ⟨[3]⟩) = none ∧
    ((threeVariables.substitute callAndAlias ⟨[3]⟩).substitute mentionedAndBound ⟨[4]⟩).unplaced =
      (threeVariables.substitute (callAndAlias.andThen mentionedAndBound ⟨[2]⟩) ⟨[5]⟩).unplaced ∧
    (threeVariables.substitute (callAndAlias.andThen mentionedAndBound ⟨[2]⟩) ⟨[5]⟩).unplaced =
      .seq default [.seq default [.symbol "g", .long 1], .long 1, .var (.named "w")] := by
  obtain ⟨hcompose, hsingle, -, hperm, hterminal⟩ :=
    substitute_andThen threeVariables callAndAlias mentionedAndBound
  have he : callAndAlias.Single := by decide
  have hf : mentionedAndBound.Single := by decide
  have hreverse : callAndAlias.entries.Perm callAndAlias.entries.reverse :=
    (List.reverse_perm _).symm
  have hnone : ∀ v b, callAndAlias.get? v = some b → ∀ w ∈ b.vars, callAndAlias.get? w = none := by
    intro v b hb
    obtain ⟨u, hu, -⟩ := Environment.exists_entry_of_get? hb
    exact (by decide : ∀ x ∈ callAndAlias.entries, ∀ w ∈ x.2.vars, callAndAlias.get? w = none) _ hu
  exact ⟨he, hf, hsingle he hf ⟨[2]⟩, hreverse, hperm _ he hreverse, hterminal hnone ⟨[3]⟩ ⟨[4]⟩,
    hcompose _ _ _ _, by decide⟩

end Term

end TermRules

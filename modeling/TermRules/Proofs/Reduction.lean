/-
TermRules.Proofs.Reduction — when a step can be taken, and what it costs.

A set matches a term when one of its rules does on an empty environment
(`RuleSet.Matches`), and a term is reducible when the set matches something in
it, at whatever depth (`RuleSet.Reducible`). `isSome_step?`: under either
strategy a step can be taken exactly from the reducible terms, and where the
nodes of the result are built plays no part in that. `countP_reduceFirst`: if
the rules report their results, a search reports the one that it ends with and
no other.
-/
import TermRules.Normalizer
import TermRules.Proofs.Positions

namespace TermRules

variable {R : Type}

/-! ## Rules at different places -/

namespace Rule

mutual
/-- The place decides neither whether a rule matches nor what it binds. -/
theorem apply_place : ∀ (rule : Rule R) (o o' : Origin) (t : Term) (e : Environment),
    (rule.apply o t e).value.result.isSome = (rule.apply o' t e).value.result.isSome ∧
      (rule.apply o t e).value.env = (rule.apply o' t e).value.env
  | .composite p c, o, o', t, e => by
    simp only [apply, Traced.value_bind]
    split <;> exact ⟨rfl, rfl⟩
  | .nested name rules, o, o', t, e => attemptAll_place rules name e.snapshot 0 o o' t e

theorem attemptAll_place : ∀ (rules : List (Rule R)) (name : Option String) (backup : Snapshot)
    (i : Nat) (o o' : Origin) (t : Term) (e : Environment),
    (attemptAll name backup i rules o t e).value.result.isSome =
        (attemptAll name backup i rules o' t e).value.result.isSome ∧
      (attemptAll name backup i rules o t e).value.env =
        (attemptAll name backup i rules o' t e).value.env
  | [], _, _, _, _, _, _, _ => ⟨rfl, rfl⟩
  | rule :: rules, name, backup, i, o, o', t, e => by
    obtain ⟨hsome, henv⟩ := apply_place rule o o' t (e.restore backup)
    simp only [attemptAll, Traced.value_bind]
    cases h : (rule.apply o t (e.restore backup)).value.result with
    | some r =>
      cases h' : (rule.apply o' t (e.restore backup)).value.result with
      | some r' => exact ⟨by simp [h, h'], by simpa using henv⟩
      | none => simp [h, h'] at hsome
    | none =>
      cases h' : (rule.apply o' t (e.restore backup)).value.result with
      | some r' => simp [h, h'] at hsome
      | none =>
        rw [henv]
        exact attemptAll_place rules name backup (i + 1) o o' t _
end

end Rule

/-! ## Terms that a set matches -/

namespace RuleSet

/-- Some rule of the set matches the term on an empty environment. -/
def Matches (s : RuleSet R) (t : Term) : Prop :=
  ∃ rule ∈ s.rules, (rule.apply default t .empty).value.result.isSome = true

/-- The set matches the term or something inside of its sequences. -/
def Reducible (s : RuleSet R) (t : Term) : Prop :=
  ∃ path u, t.at? path = some u ∧ s.Matches u

end RuleSet

/-- Rolling back to the empty environment empties any other. -/
theorem Environment.restore_empty (live : Environment) :
    live.restore Environment.empty.snapshot = .empty := by
  have h : ∀ entries, startsWith entries [] = true := fun entries => by cases entries <;> rfl
  simp [restore, snapshot, empty, h]

theorem Rule.isSome_attemptAll (name : Option String) (o : Origin) (t : Term) :
    ∀ (rules : List (Rule R)) (i : Nat) (live : Environment),
      (attemptAll name Environment.empty.snapshot i rules o t live).value.result.isSome = true ↔
        ∃ rule ∈ rules, (rule.apply default t .empty).value.result.isSome = true
  | [], _, _ => by simp [attemptAll]
  | rule :: rules, i, live => by
    have hplace := (apply_place rule o default t .empty).1
    simp only [attemptAll, Traced.value_bind, Environment.restore_empty, List.mem_cons,
      exists_eq_or_imp, ← hplace]
    cases h : (rule.apply o t .empty).value.result with
    | some r => simp [h]
    | none => simpa [h] using isSome_attemptAll name o t rules (i + 1) _

/-- A set gives a result, at any place, exactly for the terms that it matches. -/
theorem RuleSet.isSome_result? (s : RuleSet R) (o : Origin) (t : Term) :
    (s.result? o t).value.isSome = true ↔ s.Matches t :=
  Rule.isSome_attemptAll s.name o t s.rules 0 .empty

/-! ## The search for a position -/

namespace Traced

variable {α : Type}

theorem isSome_orElse (x : Traced (Option α)) (y : Unit → Traced (Option α)) :
    (x.orElse y).value.isSome = (x.value.isSome || (y ()).value.isSome) := by
  unfold orElse
  rw [value_bind]
  cases x.value <;> simp

theorem value_orElse (x : Traced (Option α)) (y : Unit → Traced (Option α)) :
    (x.orElse y).value = x.value.or (y ()).value := by
  unfold orElse
  rw [value_bind]
  cases x.value <;> simp

/-- The second computation runs only when the first gave nothing. -/
theorem countP_orElse (q : Event → Bool) (x : Traced (Option α))
    (y : Unit → Traced (Option α)) :
    (x.orElse y).events.countP q =
      x.events.countP q + if x.value.isSome then 0 else (y ()).events.countP q := by
  unfold orElse
  rw [events_bind, List.countP_append]
  cases x.value <;> simp

end Traced

namespace Strategy

variable (s : Strategy) {f : Origin → Term → Traced (Option Term)}

theorem reduceFirst_of_not_seq {t : Term} (ht : t.isSeq = false) (o : Origin) :
    s.reduceFirst f o t = f o t := by
  cases t with
  | seq o' items => cases ht
  | _ => rfl

theorem value_reduceElement_cons (o : Origin) (i : Nat) (t : Term) (ts : List Term) :
    (s.reduceElement f o i (t :: ts)).value =
      ((s.reduceFirst f (o.sub i) t).value.map (· :: ts)).or
        ((s.reduceElement f o (i + 1) ts).value.map (t :: ·)) := by
  rw [reduceElement, Traced.value_bind]
  cases (s.reduceFirst f (o.sub i) t).value <;> simp

theorem isSome_reduceFirst_seq (o o' : Origin) (items : List Term) :
    (s.reduceFirst f o (.seq o' items)).value.isSome =
      ((f o (.seq o' items)).value.isSome || (s.reduceElement f o 0 items).value.isSome) := by
  cases s with
  | outermost => simp [reduceFirst, Traced.isSome_orElse]
  | innermost => simp [reduceFirst, Traced.isSome_orElse, Bool.or_comm]

/-- What a search in a sequence finds is a result for the whole or in an element. -/
theorem reduceFirst_seq_cases {o o' : Origin} {items : List Term} {u : Term}
    (h : (s.reduceFirst f o (.seq o' items)).value = some u) :
    (f o (.seq o' items)).value = some u ∨
      ∃ us, (s.reduceElement f o 0 items).value = some us ∧ u = .seq o us := by
  have helement : ((s.reduceElement f o 0 items).value.map (Term.seq o)) = some u →
      ∃ us, (s.reduceElement f o 0 items).value = some us ∧ u = .seq o us := by
    intro hu
    obtain ⟨us, hus, rfl⟩ := Option.map_eq_some_iff.1 hu
    exact ⟨us, hus, rfl⟩
  cases s with
  | outermost =>
    rw [reduceFirst, Traced.value_orElse, Option.or_eq_some_iff] at h
    exact h.imp_right fun hu => helement hu.2
  | innermost =>
    rw [reduceFirst, Traced.value_orElse, Option.or_eq_some_iff] at h
    exact h.symm.imp And.right helement

/-- What a search through elements finds is in the first of them or in the others. -/
theorem reduceElement_cons_cases {o : Origin} {i : Nat} {t : Term} {ts us : List Term}
    (h : (s.reduceElement f o i (t :: ts)).value = some us) :
    (∃ t', (s.reduceFirst f (o.sub i) t).value = some t' ∧ us = t' :: ts) ∨
      ∃ ts', (s.reduceElement f o (i + 1) ts).value = some ts' ∧ us = t :: ts' := by
  rw [value_reduceElement_cons, Option.or_eq_some_iff] at h
  rcases h with h | ⟨-, h⟩
  · obtain ⟨t', ht', rfl⟩ := Option.map_eq_some_iff.1 h
    exact .inl ⟨t', ht', rfl⟩
  · obtain ⟨ts', hts', rfl⟩ := Option.map_eq_some_iff.1 h
    exact .inr ⟨ts', hts', rfl⟩

mutual
/-- A position is found exactly when there is one, in whatever order the
strategy looks. -/
theorem isSome_reduceFirst {P : Term → Prop} (hf : ∀ o t, (f o t).value.isSome = true ↔ P t) :
    ∀ (t : Term) (o : Origin),
      (s.reduceFirst f o t).value.isSome = true ↔ ∃ path u, t.at? path = some u ∧ P u
  | .seq o' items, o => by
    rw [Term.exists_at?_seq, ← isSome_reduceElement hf items o 0, ← hf o, isSome_reduceFirst_seq,
      Bool.or_eq_true]
  | .literal _, o | .grounded _ _, o | .boxed _ _, o | .var _, o => by
    rw [s.reduceFirst_of_not_seq rfl, Term.exists_at?_of_not_seq rfl, hf]

theorem isSome_reduceElement {P : Term → Prop} (hf : ∀ o t, (f o t).value.isSome = true ↔ P t) :
    ∀ (ts : List Term) (o : Origin) (i : Nat),
      (s.reduceElement f o i ts).value.isSome = true ↔
        ∃ t ∈ ts, ∃ path u, t.at? path = some u ∧ P u
  | [], _, _ => by simp [reduceElement]
  | t :: ts, o, i => by
    have hfirst := isSome_reduceFirst hf t (o.sub i)
    have hrest := isSome_reduceElement hf ts o (i + 1)
    simp only [value_reduceElement_cons, Option.isSome_or, Option.isSome_map, Bool.or_eq_true,
      hfirst, hrest, List.mem_cons, exists_eq_or_imp]
end

mutual
/-- If every result of `f` is reported once and nothing else is, then so is
every result of the search. -/
theorem countP_reduceFirst {q : Event → Bool}
    (hq : ∀ o t, (f o t).events.countP q = (f o t).value.isSome.toNat) :
    ∀ (t : Term) (o : Origin),
      (s.reduceFirst f o t).events.countP q = (s.reduceFirst f o t).value.isSome.toNat
  | .seq o' items, o => by
    have helement := countP_reduceElement hq items o 0
    rw [isSome_reduceFirst_seq]
    cases s with
    | outermost =>
      simp only [reduceFirst, Traced.countP_orElse, hq, Traced.events_map, helement]
      cases (f o (.seq o' items)).value.isSome <;> simp
    | innermost =>
      simp only [reduceFirst, Traced.countP_orElse, hq, Traced.events_map, Traced.value_map,
        Option.isSome_map, helement]
      cases (reduceElement .innermost f o 0 items).value.isSome <;> simp
  | .literal _, o | .grounded _ _, o | .boxed _ _, o | .var _, o => by
    rw [s.reduceFirst_of_not_seq rfl, hq]

theorem countP_reduceElement {q : Event → Bool}
    (hq : ∀ o t, (f o t).events.countP q = (f o t).value.isSome.toNat) :
    ∀ (ts : List Term) (o : Origin) (i : Nat),
      (s.reduceElement f o i ts).events.countP q = (s.reduceElement f o i ts).value.isSome.toNat
  | [], _, _ => by simp [reduceElement]
  | t :: ts, o, i => by
    have hfirst := countP_reduceFirst hq t (o.sub i)
    have hrest := countP_reduceElement hq ts o (i + 1)
    rw [value_reduceElement_cons, reduceElement, Traced.events_bind, List.countP_append, hfirst]
    cases (s.reduceFirst f (o.sub i) t).value <;> simp [hrest]
end

mutual
/-- What the search finds depends on what `f` gives and not on what it reports. -/
theorem reduceFirst_congr {g : Origin → Term → Traced (Option Term)}
    (hfg : ∀ o t, (f o t).value = (g o t).value) : ∀ (t : Term) (o : Origin),
      (s.reduceFirst f o t).value = (s.reduceFirst g o t).value
  | .seq o' items, o => by
    have helement := reduceElement_congr hfg items o 0
    cases s with
    | outermost => simp [reduceFirst, Traced.value_orElse, hfg, helement]
    | innermost => simp [reduceFirst, Traced.value_orElse, hfg, helement]
  | .literal _, o | .grounded _ _, o | .boxed _ _, o | .var _, o => by
    rw [s.reduceFirst_of_not_seq rfl, s.reduceFirst_of_not_seq rfl, hfg]

theorem reduceElement_congr {g : Origin → Term → Traced (Option Term)}
    (hfg : ∀ o t, (f o t).value = (g o t).value) : ∀ (ts : List Term) (o : Origin) (i : Nat),
      (s.reduceElement f o i ts).value = (s.reduceElement g o i ts).value
  | [], _, _ => rfl
  | t :: ts, o, i => by
    rw [value_reduceElement_cons, value_reduceElement_cons, reduceFirst_congr hfg t (o.sub i),
      reduceElement_congr hfg ts o (i + 1)]
end

end Strategy

namespace Normalizer

/-- A step can be taken, at any place, exactly from the reducible terms. -/
theorem isSome_step? (n : Normalizer) (o : Origin) (t : Term) :
    (n.step? o t).value.isSome = true ↔ n.rules.Reducible t :=
  n.settings.strategy.isSome_reduceFirst n.rules.isSome_result? t o

end Normalizer

end TermRules

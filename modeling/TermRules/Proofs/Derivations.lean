/-
TermRules.Proofs.Derivations — so many steps from one term to another.

A step in a sequence is what the rules give for the whole of it or a step in one of its
elements, as the strategy has it (`step?_seq`). Where no element can be reduced, it is the
former under either strategy (`step?_seq_of_irreducible`). Otherwise it is a step in the first
element that can be reduced, unless the strategy is outermost and the rules give a result for
the whole (`step?_seq_of_element`, `step?_seq_of_result?`).

`Leads` says that so many steps lead from one term to another, up to the places of
sequences, wherever they are taken. For rules that do not see places it is a counted
relation that can be put together from single steps (`leads_succ_iff`, `Leads.trans`) and
carried into the element of a sequence (`Leads.element`). If it leads to a term in normal
form, the limit decides which of its two ends normalization comes to (`Leads.normalize_ok`,
`Leads.normalize_error`).
-/
import TermRules.Proofs.Normalization

namespace TermRules

theorem Term.unplaced_element {o p : Origin} {t u : Term} (h : t.unplaced = u.unplaced)
    (front back : List Term) :
    (Term.seq o (front ++ t :: back)).unplaced = (Term.seq p (front ++ u :: back)).unplaced := by
  simp only [unplaced, allUnplaced_eq_map, List.map_append, List.map_cons, h]

/-! ## Irreducible terms -/

namespace RuleSet

variable {s : RuleSet Term}

theorem not_matches_of_none {o : Origin} {t : Term} (h : (s.result? o t).value = none) :
    ¬ s.Matches t := by
  rw [← s.isSome_result? o, h]
  exact Bool.false_ne_true

theorem not_reducible_of_not_seq {t : Term} (ht : t.isSeq = false) {o : Origin}
    (h : (s.result? o t).value = none) : ¬ s.Reducible t := by
  unfold Reducible
  rw [Term.exists_at?_of_not_seq ht]
  exact not_matches_of_none h

theorem not_reducible_seq {o p : Origin} {items : List Term}
    (h : (s.result? o (.seq p items)).value = none) (hitems : ∀ t ∈ items, ¬ s.Reducible t) :
    ¬ s.Reducible (.seq p items) := by
  unfold Reducible
  rw [Term.exists_at?_seq]
  rintro (hroot | ⟨t, ht, hreducible⟩)
  · exact not_matches_of_none h hroot
  · exact hitems t ht hreducible

end RuleSet

namespace Normalizer

variable {n : Normalizer}

/-! ## One step in a sequence -/

theorem reduceElement_eq_none {items : List Term} (h : ∀ t ∈ items, ¬ n.rules.Reducible t)
    (o : Origin) (i : Nat) :
    (n.settings.strategy.reduceElement (fun o t => n.rules.result? o t) o i items).value = none := by
  rw [← Option.not_isSome_iff_eq_none,
    n.settings.strategy.isSome_reduceElement n.rules.isSome_result? items o i]
  rintro ⟨t, ht, hreducible⟩
  exact h t ht hreducible

/-- A search through elements passes over those that cannot be reduced, and ends in the
first one that can. -/
theorem reduceElement_append {front : List Term} (hfront : ∀ x ∈ front, ¬ n.rules.Reducible x)
    {o : Origin} {i : Nat} {t t' : Term}
    (ht : (n.step? (o.sub (i + front.length)) t).value = some t') (back : List Term) :
    (n.settings.strategy.reduceElement (fun o t => n.rules.result? o t) o i
      (front ++ t :: back)).value = some (front ++ t' :: back) := by
  induction front generalizing i with
  | nil =>
    rw [step?, List.length_nil, Nat.add_zero] at ht
    rw [List.nil_append, Strategy.value_reduceElement_cons, ht]
    rfl
  | cons x front ih =>
    have hx := (n.step?_eq_none_iff (o.sub i) x).2 (hfront x List.mem_cons_self)
    rw [step?] at hx
    rw [List.length_cons, ← Nat.succ_add_eq_add_succ] at ht
    rw [List.cons_append, Strategy.value_reduceElement_cons, hx,
      ih (fun y hy => hfront y (List.mem_cons_of_mem x hy)) ht]
    rfl

/-- A step in a sequence is what the rules give for the whole of it or a step in an element,
and the strategy says which of the two goes first. -/
theorem step?_seq (n : Normalizer) (o p : Origin) (items : List Term) :
    (n.step? o (.seq p items)).value =
      let root := (n.rules.result? o (.seq p items)).value
      let inside := (n.settings.strategy.reduceElement (fun o t => n.rules.result? o t) o 0
        items).value.map (Term.seq o)
      match n.settings.strategy with
      | .outermost => root.or inside
      | .innermost => inside.or root := by
  unfold step?
  cases hs : n.settings.strategy with
  | outermost => rw [Strategy.reduceFirst, Traced.value_orElse, Traced.value_map]
  | innermost => rw [Strategy.reduceFirst, Traced.value_orElse, Traced.value_map]

/-- Around elements that cannot be reduced a step is one of the rules. -/
theorem step?_seq_of_irreducible {items : List Term} (h : ∀ t ∈ items, ¬ n.rules.Reducible t)
    (o p : Origin) :
    (n.step? o (.seq p items)).value = (n.rules.result? o (.seq p items)).value := by
  rw [step?_seq, reduceElement_eq_none h]
  cases n.settings.strategy with
  | outermost => exact Option.or_none
  | innermost => rfl

/-- A result for a whole sequence is taken by outermost in any case, and by innermost if
nothing inside can be reduced. -/
theorem step?_seq_of_result? {o p : Origin} {items : List Term} {u : Term}
    (hitems : n.settings.strategy = .innermost → ∀ t ∈ items, ¬ n.rules.Reducible t)
    (hu : (n.rules.result? o (.seq p items)).value = some u) :
    (n.step? o (.seq p items)).value = some u := by
  cases hs : n.settings.strategy with
  | outermost =>
    rw [step?_seq, hs, hu]
    rfl
  | innermost => rw [step?_seq_of_irreducible (hitems hs), hu]

/-- A step of the first element that can be reduced is one of the sequence, if outermost
finds no result for the whole. -/
theorem step?_seq_of_element {o p : Origin} {front back : List Term} {t t' : Term}
    (hfront : ∀ x ∈ front, ¬ n.rules.Reducible x)
    (hroot : n.settings.strategy = .outermost →
      (n.rules.result? o (.seq p (front ++ t :: back))).value = none)
    (ht : (n.step? (o.sub front.length) t).value = some t') :
    (n.step? o (.seq p (front ++ t :: back))).value = some (.seq o (front ++ t' :: back)) := by
  rw [← Nat.zero_add front.length] at ht
  rw [step?_seq, reduceElement_append hfront ht back]
  cases hs : n.settings.strategy with
  | outermost =>
    rw [hroot hs]
    rfl
  | innermost => rfl

/-! ## Counted steps -/

/-- So many steps lead from the first term to the second, up to the places of sequences,
wherever they are taken. -/
def Leads (n : Normalizer) (k : Nat) (t u : Term) : Prop :=
  ∀ places, (n.steps? places k t).map Term.unplaced = some u.unplaced

section Blind

variable (hn : n.rules.PlaceBlind)
include hn

theorem Leads.congr {k : Nat} {t t' u u' : Term} (h : n.Leads k t u)
    (ht : t.unplaced = t'.unplaced) (hu : u.unplaced = u'.unplaced) : n.Leads k t' u' := by
  intro places
  rw [← hu, ← h places]
  exact steps?_unplaced hn k places places ht.symm

/-- The first step may be taken anywhere. -/
theorem leads_succ_iff {k : Nat} {t u : Term} (o : Origin) :
    n.Leads (k + 1) t u ↔ ∃ t', (n.step? o t).value = some t' ∧ n.Leads k t' u := by
  refine ⟨fun h => ?_, ?_⟩
  · cases hfirst : (n.step? o t).value with
    | none =>
      have hnone := h fun _ => o
      rw [steps?, hfirst] at hnone
      cases hnone
    | some t' =>
      refine ⟨t', rfl, fun places => ?_⟩
      have hsteps : ((n.step? o t).value >>= n.steps? places k).map Term.unplaced =
          some u.unplaced := h fun i => Nat.casesOn (motive := fun _ => Origin) i o places
      rw [hfirst] at hsteps
      exact hsteps
  · rintro ⟨t', hfirst, h⟩ places
    have hsame := step?_unplaced hn o (places 0) (t := t) rfl
    rw [hfirst] at hsame
    obtain ⟨t'', hstep, hplaced⟩ := Option.map_eq_some_iff.1 hsame.symm
    rw [steps?, hstep]
    exact h.congr hn hplaced.symm rfl _

theorem leads_of_step? {o : Origin} {t u u' : Term} (h : (n.step? o t).value = some u)
    (hu : u.unplaced = u'.unplaced) : n.Leads 1 t u' :=
  (leads_succ_iff hn o).2 ⟨u, h, fun _ => congrArg some hu⟩

/-- A result for a whole sequence is a step under the conditions of its strategy. -/
theorem leads_of_result? {o p : Origin} {items : List Term} {u u' : Term}
    (hitems : n.settings.strategy = .innermost → ∀ t ∈ items, ¬ n.rules.Reducible t)
    (h : (n.rules.result? o (.seq p items)).value = some u) (hu : u.unplaced = u'.unplaced) :
    n.Leads 1 (.seq p items) u' :=
  leads_of_step? hn (step?_seq_of_result? hitems h) hu

theorem Leads.trans {j k : Nat} {t u w : Term} (h : n.Leads j t u) (h' : n.Leads k u w) :
    n.Leads (j + k) t w := by
  intro places
  have hfirst := h places
  obtain ⟨u', hu', hplaced⟩ := Option.map_eq_some_iff.1 hfirst
  rw [steps?_add, hu']
  exact h'.congr hn hplaced.symm rfl _

section Elements

variable (front back : List Term) (hfront : ∀ x ∈ front, ¬ n.rules.Reducible x)
include hfront

/-- A step from the first element that can be reduced is one from the sequence, if outermost
finds no result for the whole. -/
theorem Leads.element_one {t u : Term} (h : n.Leads 1 t u)
    (hroot : n.settings.strategy = .outermost →
      (n.rules.result? default (.seq default (front ++ t :: back))).value = none) :
    n.Leads 1 (.seq default (front ++ t :: back)) (.seq default (front ++ u :: back)) := by
  obtain ⟨t', hstep, hrest⟩ := (leads_succ_iff hn (Origin.sub default front.length)).1 h
  refine leads_of_step? hn (step?_seq_of_element hfront hroot hstep) ?_
  exact Term.unplaced_element (Option.some.inj (hrest fun _ => default)) front back

/-- And so are several steps, if outermost never finds one. -/
theorem Leads.element {k : Nat} {t u : Term} (h : n.Leads k t u)
    (hroot : n.settings.strategy = .outermost →
      ∀ x, (n.rules.result? default (.seq default (front ++ x :: back))).value = none) :
    n.Leads k (.seq default (front ++ t :: back)) (.seq default (front ++ u :: back)) := by
  induction k generalizing t with
  | zero =>
    intro places
    exact congrArg some (Term.unplaced_element (Option.some.inj (h places)) front back)
  | succ k ih =>
    obtain ⟨t', hstep, hrest⟩ := (leads_succ_iff hn default).1 h
    have hfirst := (leads_of_step? hn hstep rfl).element_one hn front back hfront fun hs => hroot hs t
    rw [Nat.add_comm]
    exact hfirst.trans hn (ih hrest)

end Elements

/-! ## Normalization along counted steps -/

/-- If steps lead to a normal form within the limit, normalization ends with it and
reports as many. -/
theorem Leads.normalize_ok {k : Nat} {t u : Term} (h : n.Leads k t u)
    (hu : ¬ n.rules.Reducible u) (hk : k ≤ n.settings.maxSteps) (o : Origin) :
    ∃ u', (n.normalize o t).value = .ok ⟨u', k⟩ ∧ u'.unplaced = u.unplaced := by
  obtain ⟨u', hsteps, hplaced⟩ := Option.map_eq_some_iff.1 (h o.turn)
  refine ⟨u', (n.normalize_eq_ok_iff o t u' k).2 ⟨hk, hsteps, ?_⟩, hplaced⟩
  rwa [reducible_unplaced hn hplaced]

omit hn in
/-- Where more steps can be taken than the limit allows, normalization fails. -/
theorem Leads.normalize_error {k : Nat} {t u : Term} (h : n.Leads k t u)
    (hk : n.settings.maxSteps < k) (o : Origin) :
    ∃ w, (n.normalize o t).value = .error ⟨n.settings.maxSteps, w⟩ := by
  obtain ⟨j, rfl⟩ := Nat.exists_eq_add_of_lt hk
  obtain ⟨u', hsteps, -⟩ := Option.map_eq_some_iff.1 (h o.turn)
  rw [Nat.add_assoc, steps?_add] at hsteps
  obtain ⟨w, hw, hmore⟩ := Option.bind_eq_some_iff.1 hsteps
  obtain ⟨w', hnext, -⟩ := Option.bind_eq_some_iff.1 hmore
  exact ⟨w, (n.normalize_eq_error_iff o t w _).2 ⟨rfl, hw, reducible_of_step? hnext⟩⟩

end Blind

end Normalizer

end TermRules

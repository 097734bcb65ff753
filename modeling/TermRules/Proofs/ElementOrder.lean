/-
TermRules.Proofs.ElementOrder — sequences matched in another order of their elements.

A match reads its elements from left to right and each sees what the ones before it bound, so
in another order other occurrences bind and other ones are compared. Neither matters if the
occurrences of a variable all carry one filter, and none that tells equal terms apart
(`Uniform`). The meetings of a match can then be judged as a whole (`Compatible`): each
filter accepts at every occurrence, and what one variable meets anywhere is equal in
pairs. That needs equality to be symmetric and transitive, as it is over every
`OwnEquality`, and says nothing of a term that is met only once, so a NaN may be. It holds
of a list in any order (`Compatible.perm`), and of two orders a variable takes terms of the
same value (`Compatible.rel_get?`).

Elements that are reordered in lockstep have the same encounters, in another order and at
other paths; `into_perm` puts the two together.
-/
import Mathlib.Data.List.Nodup
import TermRules.Proofs.Congruence
import TermRules.Proofs.FailedMatches
import TermRules.Proofs.Mapping

namespace TermRules

/-- Variables of one identity have the same filter, and it is a built-in one if they have
any. -/
structure Uniform (vs : List Variable) : Prop where
  builtIn : ∀ v ∈ vs, v.isBuiltIn = true
  alike : ∀ v ∈ vs, ∀ w ∈ vs, v.id = w.id → v.filter = w.filter

theorem Uniform.of_subset {vs ws : List Variable} (h : Uniform ws) (hsub : vs ⊆ ws) : Uniform vs :=
  ⟨fun v hv => h.builtIn v (hsub hv), fun v hv w hw => h.alike v (hsub hv) w (hsub hw)⟩

theorem Uniform.eq {vs : List Variable} (h : Uniform vs) {v w : Variable} (hv : v ∈ vs)
    (hw : w ∈ vs) (hid : v.id = w.id) : v = w := by
  have hfilter := h.alike v hv w hw hid
  cases v
  cases w
  cases hid
  cases hfilter
  rfl

namespace Matching

/-! ## Meetings in any order -/

/-- A meeting without its path. -/
def Meeting.sides (m : Meeting) : Variable × Term := (m.var, m.target)

/-- If they are of one variable, and one that is not bound, two meetings are with equal terms. -/
def Concur [OwnEquality] (e : Environment) (m n : Variable × Term) : Prop :=
  m.1.id = n.1.id → e.get? m.1 = none → (m.2 == n.2) = true

theorem Concur.symm [OwnEquality] {e : Environment} {m n : Variable × Term} (h : Concur e m n) :
    Concur e n m := by
  intro hid hnone
  exact Term.beq_symm (h hid.symm (e.get?_congr hid ▸ hnone))

instance [OwnEquality] (e : Environment) : Std.Symm (Concur e) := ⟨fun _ _ => .symm⟩

/-- Meetings can be held under an environment, in any order. -/
structure Compatible [OwnEquality] (a : Acceptance) (e : Environment)
    (ms : List (Variable × Term)) : Prop where
  /-- Bound variables meet terms equal to their own. -/
  bound : ∀ m ∈ ms, ∀ b, e.get? m.1 = some b → (b == m.2) = true
  /-- The filter of every other one accepts what it meets. -/
  accepted : ∀ m ∈ ms, e.get? m.1 = none → (m.1.accepts a m.2).value = true
  /-- What such a variable meets at two occurrences is equal. -/
  same : ms.Pairwise (Concur e)

theorem get?_sides (ms : List Meeting) (v : Variable) :
    Environment.get? ⟨ms.map Meeting.sides⟩ v = (firstMeeting? ms v).map Meeting.target := by
  rw [Environment.get?, List.find?_map, Option.map_map]
  rfl

section Compatible

variable [OwnEquality] {a : Acceptance} {e : Environment}

theorem Compatible.perm {ms ns : List (Variable × Term)} (h : Compatible a e ms)
    (hp : ms.Perm ns) : Compatible a e ns where
  bound m hm := h.bound m (hp.mem_iff.2 hm)
  accepted m hm := h.accepted m (hp.mem_iff.2 hm)
  same := (hp.pairwise_iff .symm).1 h.same

/-- The first meetings of an unbound variable in two orders are with terms of the same
value. -/
theorem Compatible.rel_get? {ms ns : List (Variable × Term)} (h : Compatible a e ms)
    (hp : ms.Perm ns) {v : Variable} (hv : e.get? v = none) :
    Option.Rel Term.SameValue (Environment.get? ⟨ms⟩ v) (Environment.get? ⟨ns⟩ v) := by
  cases hm : Environment.get? ⟨ms⟩ v with
  | none =>
    cases hn : Environment.get? ⟨ns⟩ v with
    | none => exact .none
    | some u =>
      obtain ⟨t, ht⟩ := Environment.exists_get?_of_subset (f := ⟨ms⟩) hp.symm.subset hn
      rw [hm] at ht
      cases ht
  | some t =>
    obtain ⟨u, hu⟩ := Environment.exists_get?_of_subset (f := ⟨ns⟩) hp.subset hm
    obtain ⟨w, hw, hwid⟩ := Environment.exists_entry_of_get? hm
    obtain ⟨w', hw', hwid'⟩ := Environment.exists_entry_of_get? hu
    rw [hu]
    refine .some ?_
    by_cases heq : (w, t) = (w', u)
    · cases heq
      exact .refl t
    · have hconcur := h.same.forall hw (hp.mem_iff.2 hw') heq
      exact .inr (hconcur (hwid.trans hwid'.symm) (e.get?_congr hwid ▸ hv))

variable {ms : List Meeting}

/-- In meetings that agree any two of an unbound variable are with equal terms: each is with one
that the first equals. -/
theorem Agree.concur (h : Agree a e ms) {m n : Meeting} (hm : m ∈ ms) (hn : n ∈ ms) (hne : m ≠ n) :
    Concur e m.sides n.sides := by
  intro (hid : m.var.id = n.var.id) hnone
  obtain ⟨f, hf⟩ := exists_firstMeeting? hm
  have hleft : f ≠ m → (f.target == m.target) = true := h.same m hm hnone f hf
  have hright : f ≠ n → (f.target == n.target) = true :=
    h.same n hn (e.get?_congr hid ▸ hnone) f (firstMeeting?_congr ms hid ▸ hf)
  by_cases hfm : f = m
  · rw [hfm] at hright
    exact hright hne
  · by_cases hfn : f = n
    · rw [hfn] at hleft
      exact Term.beq_symm (hleft hne.symm)
    · exact Term.beq_trans (Term.beq_symm (hleft hfm)) (hright hfn)

/-- Under uniform filters agreement means that they accept everywhere. -/
theorem Agree.accepts (h : Agree a e ms) (hvars : Uniform (ms.map Meeting.var)) {m : Meeting}
    (hm : m ∈ ms) (hnone : e.get? m.var = none) : (m.var.accepts a m.target).value = true := by
  have hmem : ∀ n ∈ ms, n.var ∈ ms.map Meeting.var := fun n hn => List.mem_map_of_mem hn
  obtain ⟨f, hf⟩ := exists_firstMeeting? hm
  obtain ⟨hfm, hid⟩ := mem_of_firstMeeting? hf
  have hvar : f.var = m.var := hvars.eq (hmem f hfm) (hmem m hm) hid
  have hvalue : f.target.SameValue m.target := by
    by_cases hfirst : f = m
    · exact .inl (congrArg Meeting.target hfirst)
    · exact .inr (h.same m hm hnone f hf hfirst)
  have haccepts := h.accepted f hfm (hvar ▸ hnone) (hvar ▸ hf)
  rw [hvar, m.var.accepts_congr a hvalue (.inl (hvars.builtIn m.var (hmem m hm)))] at haccepts
  exact haccepts

theorem Compatible.agree (h : Compatible a e (ms.map Meeting.sides)) : Agree a e ms where
  bound := List.forall_mem_map.1 h.bound
  accepted m hm hnone _ := List.forall_mem_map.1 h.accepted m hm hnone
  same := by
    intro m hm hnone f hf hne
    obtain ⟨hfm, hid⟩ := mem_of_firstMeeting? hf
    have : Std.Symm fun m n : Meeting => Concur e m.sides n.sides := ⟨fun _ _ => .symm⟩
    have hconcur := (List.pairwise_map.1 h.same).forall hfm hm hne
    exact hconcur hid (e.get?_congr hid ▸ hnone)

/-- Under uniform filters meetings agree exactly if they are compatible. -/
theorem agree_iff_compatible (hnodup : ms.Nodup) (hvars : Uniform (ms.map Meeting.var)) :
    Agree a e ms ↔ Compatible a e (ms.map Meeting.sides) := by
  refine ⟨fun h => ⟨List.forall_mem_map.2 h.bound, ?_, ?_⟩, Compatible.agree⟩
  · exact List.forall_mem_map.2 fun m hm => h.accepts hvars hm
  · exact List.pairwise_map.2 (hnodup.pairwise_of_forall_ne fun m hm n hn => h.concur hm hn)

/-- Under uniform filters variables take the terms that they meet exactly if their meetings
are compatible. -/
theorem meetAll_ok_iff (hnodup : ms.Nodup) (hvars : Uniform (ms.map Meeting.var)) :
    (meetAll a ms e).value.ok = true ↔ Compatible a e (ms.map Meeting.sides) :=
  (meetAll_spec a ms hnodup e).1.trans (agree_iff_compatible hnodup hvars)

end Compatible

/-! ## Elements in lockstep -/

section Lockstep

variable {o q : Origin}

theorem encounters_seq_map (xs : List (Term × Term)) :
    encounters (.seq o (xs.map Prod.fst)) (.seq q (xs.map Prod.snd)) =
      ⟨[], .seq o (xs.map Prod.fst), .seq q (xs.map Prod.snd)⟩ ::
        encountersFrom 0 (xs.map Prod.fst) (xs.map Prod.snd) := by
  rw [encounters, if_pos (by rw [List.length_map, List.length_map])]

/-- Sequences of one length fit if their elements do. -/
theorem fits_seq_map [OwnEquality] (xs : List (Term × Term)) :
    (∀ y ∈ encounters (.seq o (xs.map Prod.fst)) (.seq q (xs.map Prod.snd)), y.fits = true) ↔
      ∀ x ∈ xs, ∀ y ∈ encounters x.1 x.2, y.fits = true := by
  have hfrom : ∀ i, (∀ y ∈ encountersFrom i (xs.map Prod.fst) (xs.map Prod.snd), y.fits = true) ↔
      ∀ x ∈ xs, ∀ y ∈ encounters x.1 x.2, y.fits = true := by
    induction xs with
    | nil => simp [encountersFrom]
    | cons x xs ih =>
      intro i
      rw [List.map_cons, List.map_cons, encountersFrom, List.forall_mem_append, List.forall_mem_map,
        List.forall_mem_cons, ih]
      rfl
  rw [encounters_seq_map, List.forall_mem_cons, hfrom]
  simp [Encounter.fits, Term.fits]

/-- The meetings of two sequences of one length are those of their elements. -/
theorem meetings_seq_map (xs : List (Term × Term)) :
    (meetings (encounters (.seq o (xs.map Prod.fst)) (.seq q (xs.map Prod.snd)))).map
        Meeting.sides =
      xs.flatMap fun x => (meetings (encounters x.1 x.2)).map Meeting.sides := by
  have hfrom : ∀ i, (meetings (encountersFrom i (xs.map Prod.fst) (xs.map Prod.snd))).map
      Meeting.sides = xs.flatMap fun x => (meetings (encounters x.1 x.2)).map Meeting.sides := by
    induction xs with
    | nil => simp [encountersFrom, meetings]
    | cons x xs ih =>
      intro i
      have hbelow : (meetings ((encounters x.1 x.2).map (Encounter.below i))).map Meeting.sides =
          (meetings (encounters x.1 x.2)).map Meeting.sides := by
        simp only [meetings, List.filterMap_map, List.map_filterMap, Function.comp_def,
          Option.map_map]
        rfl
      rw [List.map_cons, List.map_cons, encountersFrom, meetings, List.filterMap_append,
        List.map_append, List.flatMap_cons, ← ih (i + 1), ← hbelow]
      rfl
  rw [encounters_seq_map, ← hfrom 0]
  rfl

end Lockstep

/-- The variables that meet something occur in the pattern. -/
theorem var_mem_vars {p t : Term} {m : Meeting} (hm : m ∈ meetings (encounters p t)) :
    m.var ∈ p.vars := by
  obtain ⟨x, hx, hmx⟩ := List.mem_filterMap.1 hm
  obtain ⟨v, hv, rfl⟩ := Option.map_eq_some_iff.1 hmx
  have hat := (p.mem_positions).1 ((encounters_sublist p t).subset (List.mem_map_of_mem hx))
  rw [Term.var?_eq_some_iff.1 hv] at hat
  exact (p.mem_vars_iff v).2 ⟨x.path, hat⟩

/-- Where everything fits no two meetings are the same. -/
theorem nodup_meetings_encounters [OwnEquality] {p t : Term}
    (h : ∀ x ∈ encounters p t, x.fits = true) :
    (meetings (encounters p t)).Nodup := by
  rw [meetings_eq_map h]
  exact nodup_meetings p t

/-- A match under uniform filters, judged without an order. -/
theorem visit_ok_iff_compatible [OwnEquality] {p t : Term} (hvars : Uniform p.vars) (a : Acceptance)
    (e : Environment) : (visit a p t e).value.ok = true ↔
      (∀ x ∈ encounters p t, x.fits = true) ∧
        Compatible a e ((meetings (encounters p t)).map Meeting.sides) := by
  rw [visit_ok_iff]
  refine and_congr_right fun hfits => meetAll_ok_iff (nodup_meetings_encounters hfits) ?_
  exact hvars.of_subset (List.forall_mem_map.2 fun m hm => var_mem_vars hm)

/-- What variables are bound to after a match: what they were bound to before, else what they
met first. -/
theorem get?_visit_sides [OwnEquality] {a : Acceptance} {p t : Term} {e : Environment}
    (hok : (visit a p t e).value.ok = true) (v : Variable) :
    (visit a p t e).value.env.get? v = (e.get? v).or
      (Environment.get? ⟨(meetings (encounters p t)).map Meeting.sides⟩ v) := by
  obtain ⟨hfits, hmeet⟩ := (visit_ok_iff a p t e).1 hok
  rw [visit_eq_meetAll a hfits, get?_meetAll hmeet, get?_sides]

/-- **The order of elements does not decide a match.** Let the variables of a sequence of
patterns all have one filter each, a built-in one or none. However its elements are
reordered in lockstep with those of the target, and whatever is bound before, the match
gives the same answer, and if it succeeds it binds the same variables, and to terms of the same
value. Whether values of callers are equal is theirs to say, as long as they say it symmetrically
and transitively. -/
theorem into_perm [OwnEquality] (a : Acceptance) (o q o' q' : Origin) (xs ys : List (Term × Term))
    (hperm : xs.Perm ys) (hvars : Uniform (Term.allVars (xs.map Prod.fst))) (e : Environment) :
    ((into a (.seq o (xs.map Prod.fst)) (.seq q (xs.map Prod.snd)) e).value.ok = true ↔
      (into a (.seq o' (ys.map Prod.fst)) (.seq q' (ys.map Prod.snd)) e).value.ok = true) ∧
    ((into a (.seq o (xs.map Prod.fst)) (.seq q (xs.map Prod.snd)) e).value.ok = true →
      ∀ v, Option.Rel Term.SameValue
        ((into a (.seq o (xs.map Prod.fst)) (.seq q (xs.map Prod.snd)) e).value.env.get? v)
        ((into a (.seq o' (ys.map Prod.fst)) (.seq q' (ys.map Prod.snd)) e).value.env.get? v)) := by
  simp only [value_into]
  have hvars' : Uniform (Term.allVars (ys.map Prod.fst)) := by
    refine hvars.of_subset fun v hv => ?_
    rw [Term.mem_allVars_iff] at hv ⊢
    obtain ⟨p, hp, hat⟩ := hv
    exact ⟨p, (hperm.map Prod.fst).mem_iff.2 hp, hat⟩
  have hsides := hperm.flatMap_right fun x => (meetings (encounters x.1 x.2)).map Meeting.sides
  have hok := visit_ok_iff_compatible (p := .seq o (xs.map Prod.fst))
    (t := .seq q (xs.map Prod.snd)) hvars a e
  have hok' := visit_ok_iff_compatible (p := .seq o' (ys.map Prod.fst))
    (t := .seq q' (ys.map Prod.snd)) hvars' a e
  rw [fits_seq_map, meetings_seq_map] at hok hok'
  have hsame := hok.trans (Iff.trans (and_congr (by simp only [hperm.mem_iff])
    ⟨fun h => h.perm hsides, fun h => h.perm hsides.symm⟩) hok'.symm)
  refine ⟨hsame, fun hmatch v => ?_⟩
  rw [get?_visit_sides hmatch, get?_visit_sides (hsame.1 hmatch), meetings_seq_map, meetings_seq_map]
  cases hv : e.get? v with
  | some b => exact .some (.refl b)
  | none => exact (hok.1 hmatch).2.rel_get? hsides hv

/-- Where only one occurrence has a filter the order does decide. -/
example :
    (into default (.seq default [.var (.named "x"), .var ((Variable.named "x").withFilter .number)])
      (.seq default [.nil, .nil]) .empty).value.ok = true ∧
    (into default (.seq default [.var ((Variable.named "x").withFilter .number), .var (.named "x")])
      (.seq default [.nil, .nil]) .empty).value.ok = false := by decide

/-- A number that meets both zeros, once in a nested element, and a variable that meets a
NaN. -/
def zerosAndNaN : List (Term × Term) :=
  [(.var ((Variable.named "x").withFilter .number), .plusZero),
    (.var (.named "y"), .notANumber),
    (.seq default [.var ((Variable.named "x").withFilter .number)], .seq default [.minusZero])]

/-- The zeros match in either order, and the variable is bound to the one that it meets
first: the positive one as written, the negative one the other way round. The NaN is bound
to the other variable in either order. -/
theorem into_perm_zerosAndNaN :
    zerosAndNaN.Perm zerosAndNaN.reverse ∧
    Uniform (Term.allVars (zerosAndNaN.map Prod.fst)) ∧
    (into default (.seq default (zerosAndNaN.reverse.map Prod.fst))
      (.seq default (zerosAndNaN.reverse.map Prod.snd)) .empty).value.ok = true ∧
    (∀ v, Option.Rel Term.SameValue
      ((into default (.seq default (zerosAndNaN.map Prod.fst))
        (.seq default (zerosAndNaN.map Prod.snd)) .empty).value.env.get? v)
      ((into default (.seq default (zerosAndNaN.reverse.map Prod.fst))
        (.seq default (zerosAndNaN.reverse.map Prod.snd)) .empty).value.env.get? v)) ∧
    (∀ xs ∈ [zerosAndNaN, zerosAndNaN.reverse],
      (into default (.seq default (xs.map Prod.fst))
        (.seq default (xs.map Prod.snd)) .empty).value.env.get? (.named "y") =
          some .notANumber) ∧
    (into default (.seq default (zerosAndNaN.map Prod.fst))
      (.seq default (zerosAndNaN.map Prod.snd)) .empty).value.env.get? (.named "x") =
        some .plusZero ∧
    (into default (.seq default (zerosAndNaN.reverse.map Prod.fst))
      (.seq default (zerosAndNaN.reverse.map Prod.snd)) .empty).value.env.get? (.named "x") =
        some .minusZero := by
  have hperm : zerosAndNaN.Perm zerosAndNaN.reverse := (List.reverse_perm _).symm
  have hvars : Uniform (Term.allVars (zerosAndNaN.map Prod.fst)) := ⟨by decide, by decide⟩
  have hok : (into default (.seq default (zerosAndNaN.map Prod.fst))
      (.seq default (zerosAndNaN.map Prod.snd)) .empty).value.ok = true := by decide
  obtain ⟨hiff, hsame⟩ := into_perm default default default default default _ _ hperm hvars .empty
  exact ⟨hperm, hvars, hiff.1 hok, hsame hok, by decide, by decide, by decide⟩

end Matching

end TermRules

/-
TermRules.Proofs.Mapping — an environment as the mapping that its look-ups make.

A look-up finds the first entry of an identity, so two environments with the same entries
in another order can differ as mappings. They cannot if no identity has two terms:
`Consistent` asks just that, `Single` environments are consistent, and binding an unbound
variable keeps it so. Of consistent environments the entries alone are compared:
what has all entries of another binds what that one binds (`Consistent.restricts`), and
in a single environment the order is of no account (`Single.get?_perm`).
-/
import Mathlib.Data.List.Pairwise
import TermRules.Proofs.SingleAssignment

namespace TermRules.Environment

variable {e f : Environment}

theorem exists_entry_of_get? {v : Variable} {t : Term} (h : e.get? v = some t) :
    ∃ w, (w, t) ∈ e.entries ∧ w.id = v.id := by
  obtain ⟨⟨w, u⟩, hfind, rfl⟩ := Option.map_eq_some_iff.1 h
  exact ⟨w, List.mem_of_find?_eq_some hfind, by simpa using List.find?_some hfind⟩

theorem contains_of_get? {v : Variable} {t : Term} (h : e.get? v = some t) :
    e.contains v = true := by
  rw [contains, h, Option.isSome_some]

theorem exists_get?_of_mem {x : Variable × Term} (hx : x ∈ e.entries) :
    ∃ t, e.get? x.1 = some t := by
  cases h : e.get? x.1 with
  | some t => exact ⟨t, rfl⟩
  | none =>
    simp only [get?, Option.map_eq_none_iff, List.find?_eq_none, Variable.beq_iff] at h
    exact absurd rfl (h x hx)

/-- What is bound by some entries is bound by more. -/
theorem exists_get?_of_subset (h : e.entries ⊆ f.entries) {v : Variable} {t : Term}
    (hv : e.get? v = some t) : ∃ u, f.get? v = some u := by
  obtain ⟨w, hw, hid⟩ := exists_entry_of_get? hv
  obtain ⟨u, hu⟩ := exists_get?_of_mem (h hw)
  exact ⟨u, (f.get?_congr hid).symm.trans hu⟩

/-- An environment that binds a variable alike and restricts to another one restricts to it
with that variable pushed. -/
theorem Restricts.of_push (h : e.Restricts f) {v : Variable} {t : Term} (he : e.get? v = none)
    (hf : f.get? v = some t) : (e.push v t).Restricts f := by
  intro w u hw
  rw [get?_push he] at hw
  split at hw
  · rename_i hid
    rw [← f.get?_congr hid, hf, hw]
  · exact h w u hw

/-- Environments that restrict to each other are the same mapping. -/
theorem get?_eq_of_restricts (hef : e.Restricts f) (hfe : f.Restricts e) (v : Variable) :
    e.get? v = f.get? v := by
  cases hv : e.get? v with
  | some t => exact (hef v t hv).symm
  | none =>
    cases hv' : f.get? v with
    | none => rfl
    | some t =>
      rw [hfe v t hv'] at hv
      cases hv

/-! ## Consistent environments -/

/-- Every entry is what its variable is looked up as. -/
def Consistent (e : Environment) : Prop := e.AllBound fun v t => e.get? v = some t

theorem Single.consistent (he : e.Single) : e.Consistent := by
  intro x hx
  obtain ⟨t, ht⟩ := exists_get?_of_mem hx
  obtain ⟨w, hw, hid⟩ := exists_entry_of_get? ht
  have : Std.Symm fun x y : Variable × Term => x.1.id ≠ y.1.id := ⟨fun _ _ => Ne.symm⟩
  by_cases h : (w, t) = x
  · rw [ht, ← h]
  · exact absurd hid (List.Pairwise.forall he hw hx h)

theorem Consistent.push (he : e.Consistent) {v : Variable} (hv : e.get? v = none) (t : Term) :
    (e.push v t).Consistent := by
  have hkept : e.AllBound fun w u => (e.push v t).get? w = some u :=
    fun x hx => (begins_push e v t).restricts x.1 x.2 (he x hx)
  exact hkept.push (by rw [get?_push hv, if_pos rfl])

theorem Consistent.into [OwnEquality] (he : e.Consistent) (a : Acceptance) (p t : Term) :
    (Matching.into a p t e).value.env.Consistent :=
  Matching.env_visit (fun _ _ u hv _ h => h.push hv u) p t he

/-- What some entries of a consistent environment bind it binds likewise. -/
theorem Consistent.restricts (hf : f.Consistent) (h : e.entries ⊆ f.entries) : e.Restricts f := by
  intro v t hv
  obtain ⟨w, hw, hid⟩ := exists_entry_of_get? hv
  rw [← f.get?_congr hid]
  exact hf (w, t) (h hw)

/-- Some entries of a consistent environment make a consistent one. -/
theorem Consistent.of_subset (hf : f.Consistent) (h : e.entries ⊆ f.entries) : e.Consistent := by
  intro x hx
  obtain ⟨t, ht⟩ := exists_get?_of_mem hx
  have hsame := hf.restricts h x.1 t ht
  rw [hf x (h hx)] at hsame
  rw [ht, hsame]

/-- In single environments the order of the entries does not matter to look-ups. -/
theorem Single.get?_perm (he : e.Single) (h : e.entries.Perm f.entries) (v : Variable) :
    e.get? v = f.get? v := by
  have hf : f.Single := h.pairwise he fun hne => Ne.symm hne
  exact get?_eq_of_restricts (hf.consistent.restricts h.subset)
    (he.consistent.restricts h.symm.subset) v

end TermRules.Environment

/-
TermRules.Proofs.Inversion — matching and substitution undo each other.

Substituting what a match bound gives the matched term back, as far as equality
can tell: a term that was bound before the match only equals the one it met,
and an atom of the pattern only equals the one opposite. So the two terms are
`Alike`: the same shape, and at each position where no sequence stands the very
same term or an equal one. Nothing is asked of the terms; substitution is
terminal, and so a bound term that mentions variables comes back as it is.

Conversely a pattern matches each of its instances and recovers the terms that
were put in, provided these and the atoms of the pattern equal themselves and
the filters accept them. The walk then keeps an environment that only
`Restricts` the one substituted. `match_substitute` puts both together.
-/
import Mathlib.Data.List.Forall2
import TermRules.Proofs.Extension
import TermRules.Proofs.Positions
import TermRules.Substitution

namespace TermRules

/-! ## Terms that are alike -/

namespace Term

/-- The number of elements, for sequences only. -/
def width? (t : Term) : Option Nat := t.elements?.map List.length

theorem width?_of_not_seq {t : Term} (ht : t.isSeq = false) : t.width? = none := by
  cases t with
  | seq o items => cases ht
  | _ => rfl

/-- The same shape, filled with identical or equal terms. -/
structure Alike [OwnEquality] (t u : Term) : Prop where
  /-- The same positions, and sequences of the same length at the same ones. -/
  shape : ∀ path, (t.at? path).map width? = (u.at? path).map width?
  /-- What stands at a position, if no sequence, is the same or equal. -/
  equal : ∀ path x y, t.at? path = some x → u.at? path = some y → x.isSeq = false →
    x = y ∨ (x == y) = true

section Alike

variable [OwnEquality]

theorem Alike.refl (t : Term) : t.Alike t where
  shape _ := rfl
  equal path x y hx hy _ := by
    rw [hx] at hy
    exact .inl (Option.some.inj hy)

/-- Sequences are alike if their elements are. -/
theorem Alike.seq {ts us : List Term} (h : List.Forall₂ Alike ts us) (o p : Origin) :
    (Term.seq o ts).Alike (.seq p us) := by
  have hitem : ∀ i : Nat, (ts[i]? = none ∧ us[i]? = none) ∨
      ∃ t u : Term, ts[i]? = some t ∧ us[i]? = some u ∧ t.Alike u := by
    induction h with
    | nil => exact fun i => .inl ⟨rfl, rfl⟩
    | cons hhead _ ih =>
      intro i
      cases i with
      | zero => exact .inr ⟨_, _, rfl, rfl, hhead⟩
      | succ i => exact ih i
  refine ⟨fun path => ?_, fun path x y hx hy hseq => ?_⟩
  · cases path with
    | nil => simp [width?, elements?, h.length_eq]
    | cons i path =>
      rw [at?_seq_cons, at?_seq_cons]
      rcases hitem i with ⟨ht, hu⟩ | ⟨t, u, ht, hu, halike⟩
      · rw [ht, hu]
      · rw [ht, hu]
        exact halike.shape path
  · cases path with
    | nil =>
      cases hx
      cases hseq
    | cons i path =>
      rw [at?_seq_cons] at hx hy
      rcases hitem i with ⟨ht, _⟩ | ⟨t, u, ht, hu, halike⟩
      · rw [ht] at hx
        cases hx
      · rw [ht] at hx
        rw [hu] at hy
        exact halike.equal path x y hx hy hseq

/-- What is alike to a sequence is one, and the elements are alike. -/
theorem Alike.elements {o : Origin} {ts : List Term} {u : Term} (h : (Term.seq o ts).Alike u) :
    ∃ p us, u = .seq p us ∧ List.Forall₂ Alike ts us := by
  have hroot := h.shape []
  cases u with
  | seq p us =>
    have hlength : ts.length = us.length := by simpa [width?, elements?] using hroot
    refine ⟨p, us, rfl, List.forall₂_iff_get.2 ⟨hlength, fun i hi hi' => ?_⟩⟩
    have hat : ∀ path, (Term.seq o ts).at? (i :: path) = (ts.get ⟨i, hi⟩).at? path := by
      intro path
      rw [at?_seq_cons, List.getElem?_eq_getElem hi]
      rfl
    have hat' : ∀ path, (Term.seq p us).at? (i :: path) = (us.get ⟨i, hi'⟩).at? path := by
      intro path
      rw [at?_seq_cons, List.getElem?_eq_getElem hi']
      rfl
    refine ⟨fun path => ?_, fun path x y hx hy => ?_⟩
    · rw [← hat, ← hat', h.shape]
    · rw [← hat] at hx
      rw [← hat'] at hy
      exact h.equal _ x y hx hy
  | _ => cases hroot

/-- What is alike to a term that is no sequence is none. -/
theorem Alike.not_seq {t u : Term} (h : t.Alike u) (ht : t.isSeq = false) : u.isSeq = false := by
  have hroot := h.shape []
  cases u with
  | seq p us =>
    rw [at?_nil, at?_nil, Option.map_some, width?_of_not_seq ht] at hroot
    cases hroot
  | _ => rfl

/-- Terms that are no sequences are alike if they are equal. -/
theorem Alike.atom {t u : Term} (ht : t.isSeq = false) (h : (t == u) = true) : t.Alike u := by
  have hu : u.isSeq = false := by
    cases u with
    | seq p us =>
      cases t with
      | seq o ts => cases ht
      | _ => cases h
    | _ => rfl
  refine ⟨fun path => ?_, fun path x y hx hy _ => ?_⟩
  · cases path with
    | nil => simp [width?_of_not_seq, ht, hu]
    | cons i path => rw [at?_cons_of_not_seq ht, at?_cons_of_not_seq hu]
  · cases path with
    | nil =>
      rw [at?_nil] at hx hy
      cases hx
      cases hy
      exact .inr h
    | cons i path =>
      rw [at?_cons_of_not_seq ht] at hx
      cases hx

mutual
/-- Equal terms are alike. -/
theorem Alike.of_beq : ∀ t u : Term, (t == u) = true → t.Alike u
  | .seq o ts, .seq p us, h => .seq (forall₂_alike_of_beqAll ts us h) o p
  | .seq _ _, .literal _, h | .seq _ _, .grounded _ _, h | .seq _ _, .boxed _ _, h
  | .seq _ _, .var _, h => by cases h
  | .literal _, _, h | .grounded _ _, _, h | .boxed _ _, _, h | .var _, _, h => .atom rfl h

theorem forall₂_alike_of_beqAll : ∀ ts us : List Term, beqAll ts us = true →
    List.Forall₂ Alike ts us
  | [], [], _ => .nil
  | [], _ :: _, h | _ :: _, [], h => by cases h
  | t :: ts, u :: us, h => by
    rw [beqAll, Bool.and_eq_true] at h
    exact .cons (.of_beq t u h.1) (forall₂_alike_of_beqAll ts us h.2)
end

end Alike

end Term

/-! ## Substituting a match -/

namespace Matching

open Environment

section Instances

variable [OwnEquality]

mutual
/-- If a match succeeds, its pattern under the bindings of the match, or under
any that keep them, is alike to the target. -/
theorem visit_alike (a : Acceptance) : ∀ (p t : Term) (e f : Environment) (o : Origin),
    (visit a p t e).value.ok = true → (visit a p t e).value.env.Restricts f →
    (p.substitute f o).Alike t
  | .var v, t, e, f, o, hok, hf => by
    rw [visit] at hok hf
    cases hb : e.get? v with
    | some b =>
      rw [hb] at hok hf
      rw [Term.substitute_var_of_get? (hf v b hb)]
      exact .of_beq b t hok
    | none =>
      rw [hb] at hok hf
      simp only [Traced.value_bind] at hok hf
      split at hok
      · rename_i haccepts
        rw [if_pos haccepts] at hf
        have hv : (e.push v t).get? v = some t := by
          rw [get?_push hb, if_pos rfl]
        rw [Term.substitute_var_of_get? (hf v t hv)]
        exact .refl t
      · cases hok
  | .seq q ps, .seq q' ts, e, f, o, hok, hf => by
    obtain ⟨r, hr⟩ := Term.substitute_seq f o q ps
    rw [visit] at hok hf
    split at hok
    · rename_i hlength
      rw [if_pos hlength] at hf
      rw [hr]
      exact .seq (visitAll_alike a ps ts e f o 0 hok hf) r q'
    · cases hok
  | .seq _ _, .literal _, _, _, _, hok, _ | .seq _ _, .grounded _ _, _, _, _, hok, _
  | .seq _ _, .boxed _ _, _, _, _, hok, _ | .seq _ _, .var _, _, _, _, hok, _ => by cases hok
  | .literal _, _, _, _, _, hok, _ | .grounded _ _, _, _, _, _, hok, _
  | .boxed _ _, _, _, _, _, hok, _ => by
    simp only [Term.substitute_literal, Term.substitute_grounded, Term.substitute_boxed]
    exact .atom rfl hok

theorem visitAll_alike (a : Acceptance) :
    ∀ (ps ts : List Term) (e f : Environment) (o : Origin) (i : Nat),
      (visitAll a ps ts e).value.ok = true → (visitAll a ps ts e).value.env.Restricts f →
      List.Forall₂ Term.Alike (Term.substituteAll f o i ps) ts
  | [], [], _, _, _, _, _, _ => .nil
  | [], _ :: _, _, _, _, _, hok, _ | _ :: _, [], _, _, _, _, hok, _ => by cases hok
  | p :: ps, t :: ts, e, f, o, i, hok, hf => by
    rw [visitAll, Traced.value_bind] at hok hf
    split at hok
    · rename_i hhead
      rw [if_pos hhead] at hf
      -- what the rest appends takes nothing away from the head
      have hkept : (visit a p t e).value.env.Begins _ :=
        entries_visitAll a ps ts (visit a p t e).value.env
      rw [Term.substituteAll_cons]
      exact .cons (visit_alike a p t e f (o.sub i) hhead (hkept.restricts.trans hf))
        (visitAll_alike a ps ts _ f o (i + 1) hok hf)
    · rename_i hhead
      exact absurd hok hhead
end

/-! ## Matching an instance -/

/-- The environment has a term for the variable that equals itself and that its
filter accepts. -/
def Supplies (a : Acceptance) (s : Environment) (v : Variable) : Prop :=
  ∃ b, s.get? v = some b ∧ (b == b) = true ∧ (v.accepts a b).value = true

mutual
/-- A pattern matches its instance under `s` from any environment that `s`
extends; what is bound afterwards is still bound so by `s`, and is what was
bound before together with the variables of the pattern. -/
theorem visit_substitute {a : Acceptance} {s : Environment} :
    ∀ (p : Term), (p == p) = true → (∀ v ∈ p.vars, Supplies a s v) →
    ∀ (e : Environment) (o : Origin), e.Restricts s →
      ∃ e', (visit a p (p.substitute s o) e).value = ⟨true, e'⟩ ∧ e'.Restricts s ∧
        ∀ v, e'.contains v = true ↔ e.contains v = true ∨ ∃ w ∈ p.vars, w.id = v.id
  | .var v, _, hs, e, o, he => by
    obtain ⟨b, hb, hself, haccepts⟩ := hs v List.mem_cons_self
    rw [Term.substitute_var_of_get? hb, visit]
    simp only [Term.vars, List.mem_singleton, exists_eq_left]
    cases hget : e.get? v with
    | some c =>
      obtain rfl : c = b := Option.some.inj ((he v c hget).symm.trans hb)
      refine ⟨e, by rw [← hself]; rfl, he, fun w => ⟨.inl, ?_⟩⟩
      intro hw
      rcases hw with hw | hid
      · exact hw
      · unfold contains
        rw [← e.get?_congr hid, hget]
        rfl
    | none =>
      refine ⟨e.push v b, by simp [haccepts], ?_, contains_push hget b⟩
      intro w t hw
      rw [get?_push hget] at hw
      split at hw
      · rename_i hid
        rw [← s.get?_congr hid, hb, hw]
      · exact he w t hw
  | .seq q ps, hp, hs, e, o, he => by
    obtain ⟨r, hr⟩ := Term.substitute_seq s o q ps
    obtain ⟨e', hvisit, hrest⟩ := visitAll_substitute ps hp hs e o 0 he
    refine ⟨e', ?_, hrest⟩
    rw [hr, visit, if_pos (Term.length_substituteAll s o 0 ps).symm, hvisit]
  | .literal _, hp, _, e, _, he | .grounded _ _, hp, _, e, _, he
  | .boxed _ _, hp, _, e, _, he => by
    simp only [Term.substitute_literal, Term.substitute_grounded, Term.substitute_boxed]
    exact ⟨e, congrArg (Attempt.mk · e) hp, he, fun v => by simp [Term.vars]⟩

theorem visitAll_substitute {a : Acceptance} {s : Environment} :
    ∀ (ps : List Term), Term.beqAll ps ps = true → (∀ v ∈ Term.allVars ps, Supplies a s v) →
    ∀ (e : Environment) (o : Origin) (i : Nat), e.Restricts s →
      ∃ e', (visitAll a ps (Term.substituteAll s o i ps) e).value = ⟨true, e'⟩ ∧
        e'.Restricts s ∧
        ∀ v, e'.contains v = true ↔ e.contains v = true ∨ ∃ w ∈ Term.allVars ps, w.id = v.id
  | [], _, _, e, _, _, he => ⟨e, rfl, he, fun v => by simp [Term.allVars]⟩
  | p :: ps, hp, hs, e, o, i, he => by
    rw [Term.beqAll, Bool.and_eq_true] at hp
    have hhead : ∀ v ∈ p.vars, Supplies a s v := fun v hv => hs v (List.mem_append_left _ hv)
    have htail : ∀ v ∈ Term.allVars ps, Supplies a s v :=
      fun v hv => hs v (List.mem_append_right _ hv)
    obtain ⟨f, hvisit, hf, hbound⟩ := visit_substitute p hp.1 hhead e (o.sub i) he
    obtain ⟨g, hrest, hg, hbound'⟩ := visitAll_substitute ps hp.2 htail f o (i + 1) hf
    refine ⟨g, ?_, hg, fun v => ?_⟩
    · rw [Term.substituteAll_cons, visitAll, Traced.value_bind, hvisit]
      exact hrest
    · rw [hbound', hbound, or_assoc, Term.allVars]
      simp only [List.mem_append, or_and_right, exists_or]
end

/-- **Matching and substitution undo each other.** After a match, the pattern
under what was bound is alike to the target, whatever the target and the
environment hold. And a pattern that equals itself matches its instance under
any environment that supplies its variables, and binds just these, each to the
very term of that environment, which equals itself. -/
theorem match_substitute (a : Acceptance) (p : Term) (o : Origin) :
    (∀ t e, (into a p t e).value.ok = true →
      (p.substitute (into a p t e).value.env o).Alike t) ∧
    (∀ s, (p == p) = true → (∀ v ∈ p.vars, Supplies a s v) →
      ∃ e, (bindings? a p (p.substitute s o)).value = some e ∧
        (∀ v, e.contains v = true ↔ ∃ w ∈ p.vars, w.id = v.id) ∧
        ∀ v b, e.get? v = some b → s.get? v = some b ∧ (b == b) = true) := by
  refine ⟨?_, ?_⟩
  · intro t e hok
    exact visit_alike a p t e _ o hok (.refl _)
  · intro s hp hs
    obtain ⟨e, hvisit, he, hbound⟩ := visit_substitute p hp hs .empty o (fun _ _ h => nomatch h)
    have hvars : ∀ v, e.contains v = true ↔ ∃ w ∈ p.vars, w.id = v.id := by
      intro v
      rw [hbound]
      simp [contains]
    have hinto : (into a p (p.substitute s o) .empty).value = ⟨true, e⟩ := hvisit
    refine ⟨e, ?_, hvars, fun v b hv => ⟨he v b hv, ?_⟩⟩
    · rw [bindings?, Traced.value_bind, hinto]
      rfl
    · have hv' : e.contains v = true := by rw [contains, hv]; rfl
      obtain ⟨w, hw, hid⟩ := (hvars v).1 hv'
      obtain ⟨c, hc, hself, -⟩ := hs w hw
      rw [s.get?_congr hid, he v b hv] at hc
      cases hc
      exact hself

end Instances

/-- A variable for any term and one for numbers. -/
def anyAndNumber : Term :=
  .seq default [.var (.named "x"), .var ((Variable.named "y").withFilter .number)]

/-- A sequence that mentions the second variable next to a NaN, and a number. -/
def mentioning : Term :=
  .seq default [.seq default [.var (.named "y"), .literal (.float ⟨0x7ff8000000000000⟩)], .long 1]

/-- Both variables bound. -/
def zeroAndOne : Environment := ⟨[(.named "y", .long 1), (.named "x", .symbol "zero")]⟩

/-- What is bound comes back unopened and with its NaN, and both variables are
recovered. -/
theorem match_substitute_anyAndNumber :
    (into default anyAndNumber mentioning .empty).value.ok = true ∧
    (anyAndNumber.substitute (into default anyAndNumber mentioning .empty).value.env
      default).Alike mentioning ∧
    (∀ v ∈ anyAndNumber.vars, Supplies default zeroAndOne v) ∧
    ∃ e, (bindings? default anyAndNumber (anyAndNumber.substitute zeroAndOne default)).value =
        some e ∧
      (∀ v, e.contains v = true ↔ ∃ w ∈ anyAndNumber.vars, w.id = v.id) ∧
      ∀ v b, e.get? v = some b → zeroAndOne.get? v = some b ∧ (b == b) = true := by
  obtain ⟨halike, hmatch⟩ := match_substitute default anyAndNumber default
  have hok : (into default anyAndNumber mentioning .empty).value.ok = true := by decide
  have hs : ∀ v ∈ anyAndNumber.vars, Supplies default zeroAndOne v := by
    intro v hv
    have hvars : anyAndNumber.vars =
        [.named "x", (Variable.named "y").withFilter .number] := rfl
    rw [hvars, List.mem_cons, List.mem_singleton] at hv
    rcases hv with rfl | rfl
    · exact ⟨.symbol "zero", rfl, rfl, rfl⟩
    · exact ⟨.long 1, rfl, rfl, rfl⟩
  exact ⟨hok, halike mentioning .empty hok, hs, hmatch zeroAndOne (by decide) hs⟩

end Matching

end TermRules

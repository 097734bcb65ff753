/-
TermRules.Proofs.Rollback — what is left of an environment that predicates
do as they please with.

A predicate may replace the whole environment and then fail. The set that tried
it rolls back, and may then keep live entries that only look like the captured
ones. `Aligned` environments have the same variables in the same order, bound to
terms that are related one by one; a rollback leaves one that is aligned with the
captured one under `StandsFor` (`aligned_restore`), whatever was live.

`trials` lists the attempts that a rule makes at all levels below it, each with
the environment it starts from; `apply_tallied` shows that for leaves these are the
very environments that they report when observed. `trials_aligned`: every attempt starts
from an environment that stands for the caller's, and a dispatch without a result
leaves such a one. Each level captures what the level above restored, so the
relation has to be transitive, which `==` alone would not give for NaNs.
-/
import Mathlib.Data.List.Forall2
import Mathlib.Data.Option.Basic
import TermRules.Proofs.Dispatch
import TermRules.Proofs.Equality

namespace TermRules

namespace Environment

/-! ## Alignment -/

/-- Two entries for one variable, with terms that are related. -/
def Corresponds (r : Term → Term → Prop) (x y : Variable × Term) : Prop :=
  x.1.id = y.1.id ∧ r x.2 y.2

/-- The same variables in the same order, bound to terms that are related. -/
def Aligned (r : Term → Term → Prop) (e f : Environment) : Prop :=
  List.Forall₂ (Corresponds r) e.entries f.entries

section Aligned

variable {r s : Term → Term → Prop} {e f g : Environment}

theorem Aligned.refl (hr : ∀ t, r t t) (e : Environment) : e.Aligned r e :=
  List.forall₂_same.2 fun x _ => ⟨rfl, hr x.2⟩

theorem forall₂_corresponds_trans (hr : ∀ {t u w}, r t u → r u w → r t w) :
    ∀ {xs ys zs : List (Variable × Term)}, List.Forall₂ (Corresponds r) xs ys →
      List.Forall₂ (Corresponds r) ys zs → List.Forall₂ (Corresponds r) xs zs
  | _, _, _, .nil, .nil => .nil
  | _, _, _, .cons hxy hxys, .cons hyz hyzs =>
    .cons ⟨hxy.1.trans hyz.1, hr hxy.2 hyz.2⟩ (forall₂_corresponds_trans hr hxys hyzs)

theorem Aligned.trans (hr : ∀ {t u w}, r t u → r u w → r t w) (hef : e.Aligned r f)
    (hfg : f.Aligned r g) : e.Aligned r g :=
  forall₂_corresponds_trans (r := r) hr hef hfg

theorem Aligned.mono (hrs : ∀ {t u}, r t u → s t u) (h : e.Aligned r f) : e.Aligned s f :=
  List.Forall₂.imp (fun _ _ hxy => ⟨hxy.1, hrs hxy.2⟩) h

theorem Aligned.length_eq (h : e.Aligned r f) : e.length = f.length :=
  List.Forall₂.length_eq h

/-- A variable is bound to related terms, or in neither. -/
theorem Aligned.rel_get? (h : e.Aligned r f) (v : Variable) :
    Option.Rel r (e.get? v) (f.get? v) := by
  obtain ⟨xs⟩ := e
  obtain ⟨ys⟩ := f
  change List.Forall₂ (Corresponds r) xs ys at h
  induction h with
  | nil => exact .none
  | @cons x y xs ys hxy _ ih =>
    have hsame : (x.1 == v) = (y.1 == v) := by
      rw [Variable.beq_def, Variable.beq_def, hxy.1]
    unfold get? at ih ⊢
    rw [List.find?_cons, List.find?_cons, hsame]
    cases y.1 == v with
    | true => exact .some hxy.2
    | false => exact ih

/-- `rel_get?` by cases: the variable is unbound in both, or bound in both. -/
theorem Aligned.get?_cases (h : e.Aligned r f) (v : Variable) :
    (e.get? v = none ∧ f.get? v = none) ∨
      ∃ t u, e.get? v = some t ∧ f.get? v = some u ∧ r t u := by
  have hget := h.rel_get? v
  generalize e.get? v = x at hget
  generalize f.get? v = y at hget
  cases hget with
  | none => exact .inl ⟨rfl, rfl⟩
  | some htu => exact .inr ⟨_, _, rfl, rfl, htu⟩

theorem Aligned.contains_eq (h : e.Aligned r f) (v : Variable) :
    e.contains v = f.contains v := by
  rcases h.get?_cases v with ⟨he, hf⟩ | ⟨t, u, he, hf, -⟩
  · simp [contains, he, hf]
  · simp [contains, he, hf]

/-- Pushing related terms for one variable keeps environments aligned. -/
theorem Aligned.push (h : e.Aligned r f) (v : Variable) {t u : Term} (htu : r t u) :
    (e.push v t).Aligned r (f.push v u) :=
  List.rel_append h (.cons ⟨rfl, htu⟩ .nil)

end Aligned

/-! ## Rolling back -/

/-- The live environment begins with entries that look like the captured ones:
the same variables, bound to shared terms. -/
structure Shows (live captured : Environment) (kept : List (Variable × Term)) : Prop where
  begins : ∃ rest, live.entries = kept ++ rest
  alike : List.Forall₂ (Corresponds fun t u => t.sharedWith u = true) kept captured.entries

theorem Shows.take_eq {live captured : Environment} {kept : List (Variable × Term)}
    (h : live.Shows captured kept) : live.entries.take captured.length = kept := by
  obtain ⟨rest, hlive⟩ := h.begins
  rw [hlive, length, ← h.alike.length_eq, List.take_left]

theorem shows_of_startsWith : ∀ {live captured : List (Variable × Term)},
    startsWith live captured = true →
      Shows ⟨live⟩ ⟨captured⟩ (live.take captured.length)
  | live, [], _ => ⟨⟨live, rfl⟩, .nil⟩
  | [], _ :: _, h => by cases h
  | (v, t) :: live, (w, u) :: captured, h => by
    simp only [startsWith, Bool.and_eq_true, Variable.beq_iff] at h
    obtain ⟨⟨hid, hshared⟩, hrest⟩ := h
    obtain ⟨⟨rest, hlive⟩, halike⟩ := shows_of_startsWith hrest
    exact ⟨⟨rest, congrArg ((v, t) :: ·) hlive⟩, .cons ⟨hid, hshared⟩ halike⟩

theorem startsWith_of_forall₂ {kept captured : List (Variable × Term)}
    (h : List.Forall₂ (Corresponds fun t u => t.sharedWith u = true) kept captured)
    (rest : List (Variable × Term)) : startsWith (kept ++ rest) captured = true := by
  induction h with
  | nil => cases rest <;> rfl
  | cons hxy _ ih =>
    simp only [List.cons_append, startsWith, Bool.and_eq_true, Variable.beq_iff]
    exact ⟨hxy, ih⟩

/-- All that a rollback can do: it keeps live entries that look like the captured
ones, and puts these back where there are none. -/
theorem restore_cases (live captured : Environment) :
    (∃ kept, live.Shows captured kept ∧ live.restore captured.snapshot = ⟨kept⟩) ∨
    ((∀ kept, ¬ live.Shows captured kept) ∧ live.restore captured.snapshot = captured) := by
  unfold restore
  split
  · rename_i h
    exact .inl ⟨_, shows_of_startsWith h, rfl⟩
  · rename_i h
    refine .inr ⟨fun kept hkept => h ?_, rfl⟩
    obtain ⟨⟨rest, hlive⟩, halike⟩ := hkept
    rw [hlive]
    exact startsWith_of_forall₂ halike rest

/-- A rollback misses the captured entries exactly when others that look like
them are live. -/
theorem restore_ne_iff (live captured : Environment) :
    (live.restore captured.snapshot).entries ≠ captured.entries ↔
      ∃ kept, live.Shows captured kept ∧ kept ≠ captured.entries := by
  rcases restore_cases live captured with ⟨kept, hkept, hrestore⟩ | ⟨hnone, hrestore⟩
  · rw [hrestore]
    refine ⟨fun hne => ⟨kept, hkept, hne⟩, ?_⟩
    rintro ⟨other, hother, hne⟩
    rwa [← hother.take_eq, hkept.take_eq] at hne
  · rw [hrestore]
    refine ⟨fun hne => absurd rfl hne, ?_⟩
    rintro ⟨kept, hkept, -⟩
    exact absurd hkept (hnone kept)

/-- Whatever was live, a rollback leaves what stands for the captured entries. -/
theorem aligned_restore (live captured : Environment) :
    (live.restore captured.snapshot).Aligned Term.StandsFor captured := by
  rcases restore_cases live captured with ⟨kept, hkept, hrestore⟩ | ⟨-, hrestore⟩
  · rw [hrestore]
    exact List.Forall₂.imp (fun _ _ hxy => ⟨hxy.1, .inr hxy.2⟩) hkept.alike
  · rw [hrestore]
    exact .refl .refl captured

/-- What both the live and the captured environment begin with survives. -/
theorem begins_restore {e live captured : Environment} (hlive : e.Begins live)
    (hcaptured : e.Begins captured) : e.Begins (live.restore captured.snapshot) := by
  rcases restore_cases live captured with ⟨kept, hkept, hrestore⟩ | ⟨-, hrestore⟩
  · -- the kept entries are as many as the captured ones, so at least those of `e`
    obtain ⟨more, hmore⟩ := hlive
    obtain ⟨later, hlater⟩ := hcaptured
    refine ⟨more.take later.length, ?_⟩
    rw [hrestore, ← hkept.take_eq, length, hmore, hlater, List.length_append,
      List.take_length_add_append]
  · rw [hrestore]
    exact hcaptured

end Environment

/-! ## Trials -/

/-- A rule that is tried, and the environment that it starts from. -/
structure Trial (R : Type) where
  rule : Rule R
  env : Environment

variable {R : Type}

namespace Rule

mutual
/-- The trials of a rule in an environment: its own, and if it is a set those of
the rules that the set tries, at all levels. -/
def trials : Rule R → Origin → Term → Environment → List (Trial R)
  | .composite p c, _, _, e => [⟨.composite p c, e⟩]
  | .nested name rules, o, t, e => ⟨.nested name rules, e⟩ :: trialsAll e.snapshot rules o t e

/-- The trials of rules that are tried in order, rolling back to `backup` before
each of them, until one gives a result. -/
def trialsAll (backup : Snapshot) : List (Rule R) → Origin → Term → Environment → List (Trial R)
  | [], _, _, _ => []
  | rule :: rules, o, t, e =>
    trials rule o t (e.restore backup) ++
      if (rule.apply o t (e.restore backup)).value.result.isSome then []
      else trialsAll backup rules o t (rule.apply o t (e.restore backup)).value.env
end

end Rule

/-! ## Observed leaves report the trials -/

/-- The environment in which an observed predicate ran. -/
def Event.start? : Event → Option Environment
  | .predicateRan _ _ e _ => some e
  | _ => none

/-- The environment of a trial of a leaf. -/
def Trial.start? (x : Trial R) : Option Environment :=
  match x.rule with
  | .composite _ _ => some x.env
  | .nested _ _ => none

namespace Rule

mutual
/-- Counting changes no outcome, and the leaves report the environments of their
trials. -/
theorem apply_tallied : ∀ (rule : Rule R) (label : Nat → String) (o : Origin) (t : Term)
    (e : Environment),
    ((rule.tallied label).apply o t e).value = (rule.apply o t e).value ∧
    ((rule.tallied label).apply o t e).remarks.filterMap Event.start? =
      (rule.trials o t e).filterMap Trial.start?
  | .composite p c, label, o, t, e => by
    refine ⟨Leaf.outcome_tallied (label 0) ⟨p, c⟩ o t e, ?_⟩
    rw [tallied, Leaf.remarks_tallied]
    split
    · rfl
    · rfl
  | .nested name rules, label, o, t, e => attemptAll_tallied rules label name e.snapshot 0 o t e

theorem attemptAll_tallied : ∀ (rules : List (Rule R)) (label : Nat → String)
    (name : Option String) (backup : Snapshot) (i : Nat) (o : Origin) (t : Term) (e : Environment),
    (attemptAll name backup i (talliedAll label rules) o t e).value =
      (attemptAll name backup i rules o t e).value ∧
    (attemptAll name backup i (talliedAll label rules) o t e).remarks.filterMap Event.start? =
      (trialsAll backup rules o t e).filterMap Trial.start?
  | [], _, _, _, _, _, _, _ => ⟨rfl, rfl⟩
  | rule :: rules, label, name, backup, i, o, t, e => by
    obtain ⟨hvalue, hstarts⟩ := apply_tallied rule label o t (e.restore backup)
    obtain ⟨hvalue', hstarts'⟩ := attemptAll_tallied rules
      (fun j => label (j + rule.leaves.length)) name backup (i + 1) o t
      (rule.apply o t (e.restore backup)).value.env
    rw [talliedAll, attemptAll, attemptAll, trialsAll]
    simp only [Traced.value_bind, Traced.remarks_bind, List.filterMap_append, hvalue, hstarts]
    cases hresult : (rule.apply o t (e.restore backup)).value.result with
    | some r => simp [Event.remark?]
    | none => simp [Event.remark?, hvalue', hstarts']
end

/-! ## Every trial starts from what stands for the caller's environment -/

mutual
theorem trials_standFor : ∀ (rule : Rule R) (o : Origin) (t : Term) (e : Environment),
    ∀ x ∈ rule.trials o t e, x.env.Aligned Term.StandsFor e
  | .composite p c, o, t, e, x, hx => by
    rw [trials, List.mem_singleton] at hx
    subst hx
    exact .refl .refl e
  | .nested name rules, o, t, e, x, hx => by
    rw [trials, List.mem_cons] at hx
    rcases hx with rfl | hx
    · exact .refl .refl e
    · exact trialsAll_standFor rules o t e e x hx

theorem trialsAll_standFor : ∀ (rules : List (Rule R)) (o : Origin) (t : Term)
    (e live : Environment),
    ∀ x ∈ trialsAll e.snapshot rules o t live, x.env.Aligned Term.StandsFor e
  | [], _, _, _, _, x, hx => by cases hx
  | rule :: rules, o, t, e, live, x, hx => by
    rw [trialsAll, List.mem_append] at hx
    rcases hx with hx | hx
    · -- what the rule captured is what was restored for it, which only stands for `e`
      have hinner := trials_standFor rule o t _ x hx
      exact hinner.trans .trans (Environment.aligned_restore live e)
    · split at hx
      · cases hx
      · exact trialsAll_standFor rules o t e _ x hx
end

/-- Rules that give no result leave what stands for the captured environment. -/
theorem attemptAll_standFor (name : Option String) (rules : List (Rule R)) (i : Nat) (o : Origin)
    (t : Term) (e live : Environment)
    (h : (attemptAll name e.snapshot i rules o t live).value.result = none) :
    (attemptAll name e.snapshot i rules o t live).value.env.Aligned Term.StandsFor e := by
  induction rules generalizing i live with
  | nil => exact Environment.aligned_restore live e
  | cons rule rules ih =>
    rw [attemptAll] at h ⊢
    simp only [Traced.value_bind] at h ⊢
    cases hresult : (rule.apply o t (live.restore e.snapshot)).value.result with
    | some r =>
      rw [hresult] at h
      cases hresult.symm.trans h
    | none =>
      rw [hresult] at h
      exact ih (i + 1) _ h

end Rule

/-- **Every rule finds the caller's bindings.** Whatever the predicates of a tree
do to the environments that they are given, each attempt at each level starts
from one with the caller's variables in their order, each bound to the caller's
term or to one that is shared with it, so to a later rule as much is bound as to
the caller. A dispatch without a result leaves such an environment, too. And the
attempts spoken of are those that observed leaves report. -/
theorem trials_aligned (s : RuleSet R) (label : Nat → String) (o : Origin) (t : Term)
    (e : Environment) :
    (∀ x ∈ s.toRule.trials o t e, x.env.Aligned Term.StandsFor e ∧ x.env.length = e.length ∧
      ∀ v, x.env.contains v = e.contains v ∧
        Option.Rel Term.StandsFor (x.env.get? v) (e.get? v)) ∧
    ((s.applyIn o t e).value.result = none →
      (s.applyIn o t e).value.env.Aligned Term.StandsFor e) ∧
    ((s.tallied label).applyIn o t e).value = (s.applyIn o t e).value ∧
    ((s.tallied label).applyIn o t e).remarks.filterMap Event.start? =
      (s.toRule.trials o t e).filterMap Trial.start? := by
  refine ⟨?_, ?_, ?_⟩
  · intro x hx
    have haligned := Rule.trials_standFor s.toRule o t e x hx
    exact ⟨haligned, haligned.length_eq, fun v => ⟨haligned.contains_eq v, haligned.rel_get? v⟩⟩
  · exact Rule.attemptAll_standFor s.name s.rules 0 o t e e
  · exact Rule.apply_tallied s.toRule label o t e

/-- A set whose inner rule replaces the whole environment and fails, and whose
outer rule asks for a variable that only the replacement had. -/
def replacing : RuleSet Term where
  name := none
  rules := [.nested none
      [.composite
        (.not (.replaces [(.named "x", Term.minusZero), (.named "y", .long 1)])) .input],
    .composite (.isBound (.named "y")) .input]

/-- The replacement is rolled back, and yet the caller ends with the other
zero. -/
theorem trials_aligned_replacing :
    (replacing.applyIn default .nil ⟨[(.named "x", Term.plusZero)]⟩).value =
      ⟨none, ⟨[(.named "x", Term.minusZero)]⟩⟩ ∧
    Environment.Aligned Term.StandsFor ⟨[(.named "x", Term.minusZero)]⟩ ⟨[(.named "x", Term.plusZero)]⟩ := by
  obtain ⟨-, hkept, -⟩ :=
    trials_aligned replacing (fun _ => "leaf") default .nil ⟨[(.named "x", Term.plusZero)]⟩
  have hvalue : (replacing.applyIn default .nil ⟨[(.named "x", Term.plusZero)]⟩).value =
      ⟨none, ⟨[(.named "x", Term.minusZero)]⟩⟩ := rfl
  rw [hvalue] at hkept
  exact ⟨hvalue, hkept rfl⟩

end TermRules

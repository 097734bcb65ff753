/-
TermRules.Proofs.SingleAssignment — a variable is bound once, over whole runs.

An environment is `Single` if no two of its entries are for one identity. The
one way in which an entry comes about is that an unbound variable is bound to a
term, and that keeps it so; a match binds no other way (`env_visit`), and a
rollback leaves a beginning of the live entries or the captured ones. So whatever
can be made out of a single environment is single (`single_of_derives`), which
takes in the work of any rule set. `run_single`: so is the environment of every
session, and until the session goes back, its entries stay where they are.
-/
import TermRules.Proofs.MatchingWalk
import TermRules.Proofs.Session

namespace TermRules

open Matching

/-! ## What a match can do -/

namespace Matching

variable [OwnEquality] {P : Environment → Prop} {a : Acceptance}

theorem env_meet
    (hpush : ∀ e v t, e.get? v = none → (v.accepts a t).value = true → P e → P (e.push v t))
    (v : Variable) (t : Term) {e : Environment} (he : P e) : P (meet a v t e).value.env := by
  unfold meet
  cases hv : e.get? v with
  | some bound => exact he
  | none =>
    simp only [Traced.value_bind]
    split
    · rename_i haccepts
      exact hpush e v t hv haccepts he
    · exact he

/-- What survives that an unbound variable is bound to a term which it accepts
survives a match, whether it succeeds or fails. -/
theorem env_visit
    (hpush : ∀ e v t, e.get? v = none → (v.accepts a t).value = true → P e → P (e.push v t))
    (p t : Term) {e : Environment} (he : P e) : P (visit a p t e).value.env := by
  rw [visit_eq_judgeAll]
  generalize encounters p t = xs
  induction xs generalizing e with
  | nil => exact he
  | cons x xs ih =>
    have hfirst : P (x.judge a e).value.env := by
      cases hvar : x.pattern.var? with
      | none =>
        rw [judge_of_var?_eq_none hvar]
        exact he
      | some v =>
        rw [Encounter.judge, Term.var?_eq_some_iff.1 hvar]
        exact env_meet hpush v x.target he
    rw [judgeAll, Traced.value_bind]
    split
    · exact ih hfirst
    · exact hfirst

end Matching

namespace Environment

/-! ## Single environments -/

/-- No two entries are for one identity. -/
def Single (e : Environment) : Prop := e.entries.Pairwise fun x y => x.1.id ≠ y.1.id

instance (e : Environment) : Decidable e.Single :=
  inferInstanceAs (Decidable (List.Pairwise _ _))

theorem single_empty : Single .empty := List.Pairwise.nil

theorem Single.push {e : Environment} (he : e.Single) {v : Variable} (hv : e.get? v = none)
    (t : Term) : (e.push v t).Single := by
  have hunbound : ∀ x ∈ e.entries, x.1.id ≠ v.id := by
    simpa [get?, List.find?_eq_none] using hv
  refine List.pairwise_append.2 ⟨he, List.pairwise_singleton _ _, ?_⟩
  intro x hx y hy
  rw [List.mem_singleton] at hy
  rw [hy]
  exact hunbound x hx

theorem Single.bind [OwnEquality] {e : Environment} (he : e.Single) (v : Variable) (t : Term) :
    (e.bind v t).env.Single := by
  unfold Environment.bind
  split
  · exact he
  · rename_i hv
    exact he.push hv t

theorem Single.into [OwnEquality] {e : Environment} (he : e.Single) (a : Acceptance) (p t : Term) :
    (into a p t e).value.env.Single :=
  env_visit (fun _ _ u hv _ h => h.push hv u) p t he

theorem Single.restore {live captured : Environment} (hlive : live.Single)
    (hcaptured : captured.Single) : (live.restore captured.snapshot).Single := by
  rcases restore_cases live captured with ⟨kept, hkept, hrestore⟩ | ⟨-, hrestore⟩
  · rw [hrestore, ← hkept.take_eq]
    exact hlive.sublist (List.take_sublist _ _)
  · rw [hrestore]
    exact hcaptured

/-- Whatever is made out of a single environment is single. -/
theorem single_of_derives {e f : Environment} (he : e.Single) (hf : e.Derives f) : f.Single := by
  induction hf with
  | given => exact he
  | empty => exact single_empty
  | bind _ v t ih => exact ih.bind v t
  | into _ a p t ih => exact ih.into a p t
  | restore _ _ ihlive ihcaptured => exact ihlive.restore ihcaptured

/-- A name is looked up like the variable that has it and no filter. -/
theorem getNamed?_eq_get? (e : Environment) (name : String) :
    e.getNamed? name = e.get? (.named name) := by
  have hentry : ∀ v : Variable, decide (v.name? = some name) = (v == .named name) := by
    intro v
    rw [Bool.eq_iff_iff, decide_eq_true_iff, Variable.beq_iff]
    obtain ⟨id, filter⟩ := v
    cases id with
    | named s =>
      obtain ⟨other⟩ := s
      simp [Variable.name?, Variable.named]
    | fresh scope index => simp [Variable.name?, Variable.named]
  simp only [getNamed?, get?, hentry]

end Environment

/-! ## Whole runs -/

namespace Session

/-- The environment and all snapshots are single. -/
structure AllSingle (s : Session) : Prop where
  env : s.env.Single
  snapshots : ∀ c ∈ s.snapshots, Environment.Single ⟨c.entries⟩

theorem allSingle_start : (start .empty).AllSingle := ⟨Environment.single_empty, by simp [start]⟩

theorem AllSingle.step {s : Session} (h : s.AllSingle) (op : Operation) : (s.step op).AllSingle := by
  have heverywhere : (s.step op).Everywhere Environment.Single := by
    refine Everywhere.step .restore ⟨h.env, h.snapshots⟩ fun e he => ?_
    cases op with
    | bind v t => exact he.bind v t
    | into a p t => exact he.into a p t
    | asserted a p t => exact he.into a p t
    | snapshot => exact he
    | restore i => exact he
    | dispatch rules hs o t =>
      exact Environment.single_of_derives he (RuleSet.derives_applyIn hs o t e)
  exact ⟨heverywhere.env, heverywhere.snapshots⟩

theorem AllSingle.run {s : Session} (h : s.AllSingle) (ops : List Operation) :
    (s.run ops).AllSingle := by
  induction ops generalizing s with
  | nil => exact h
  | cons op ops ih => exact ih (h.step op)

/-- **A variable is bound once.** In the environment of every session that began
with an empty one, no two entries are for one identity, and a name is looked up
like its variable. From there on every entry keeps its place, its variable and its
term, and every variable its value, until the session goes back to an older
snapshot. -/
theorem run_single (ops : List Operation) :
    ((start .empty).run ops).env.Single ∧
    (∀ name, ((start .empty).run ops).env.getNamed? name =
      ((start .empty).run ops).env.get? (.named name)) ∧
    ∀ more, (∀ op ∈ more, op.staysAbove ((start .empty).run ops).snapshots.length = true) →
      (∀ (i : Nat) (entry : Variable × Term),
        ((start .empty).run ops).env.entries[i]? = some entry →
          (((start .empty).run ops).run more).env.entries[i]? = some entry) ∧
      ∀ v t, ((start .empty).run ops).env.get? v = some t →
        (((start .empty).run ops).run more).env.get? v = some t := by
  refine ⟨(allSingle_start.run ops).env, Environment.getNamed?_eq_get? _, fun more hmore => ?_⟩
  have hbegins := begins_run _ hmore
  refine ⟨fun i entry hentry => ?_, hbegins.restricts⟩
  obtain ⟨later, hlater⟩ := hbegins
  have hi := (List.getElem?_eq_some_iff.1 hentry).1
  rw [hlater, List.getElem?_append_left hi, hentry]

/-- A rule set that wipes the environment before it fails. -/
def wiping : RuleSet Term := ⟨none, [.composite (.not (.replaces [])) .input]⟩

theorem encapsulated_wiping : wiping.Encapsulated := by
  intro l hl
  have hleaf : l = ⟨.not (.replaces []), .input⟩ := List.mem_singleton.1 hl
  rw [hleaf]
  exact Predicate.encapsulated_not (Predicate.encapsulated_replaces [])

/-- A match that fails with a binding, and a set that wipes it before failing. -/
def partlyBinding : List Operation :=
  [.into default (.seq default [.var (.named "x"), .nil]) (.seq default [.long 1, .long 2]),
    .dispatch wiping encapsulated_wiping default .nil]

/-- Binding the variable once more, and another one under a filter. -/
def rebinding : List Operation :=
  [.bind (.named "x") (.long 2), .bind ((Variable.named "y").withFilter .number) (.long 3)]

/-- What the failed match bound outlives the wipe and cannot be bound anew. -/
theorem run_single_partlyBinding :
    ((start .empty).run partlyBinding).env.Single ∧
    ((start .empty).run partlyBinding).env.entries[0]? = some (.named "x", .long 1) ∧
    (((start .empty).run partlyBinding).run rebinding).env.entries[0]? = some (.named "x", .long 1) ∧
    (((start .empty).run partlyBinding).run rebinding).env.get? (.named "x") = some (.long 1) := by
  obtain ⟨hsingle, -, hmore⟩ := run_single partlyBinding
  have hentry : ((start .empty).run partlyBinding).env.entries[0]? = some (.named "x", .long 1) := rfl
  have habove : ∀ op ∈ rebinding,
      op.staysAbove ((start .empty).run partlyBinding).snapshots.length = true := by
    intro op hop
    simp only [rebinding, List.mem_cons, List.not_mem_nil, or_false] at hop
    rcases hop with rfl | rfl
    · rfl
    · rfl
  obtain ⟨hplace, hvalue⟩ := hmore rebinding habove
  exact ⟨hsingle, hentry, hplace 0 _ hentry, hvalue (.named "x") (.long 1) rfl⟩

end Session

end TermRules

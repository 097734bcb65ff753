/-
TermRules.Proofs.Session — whole runs of operations on one environment.

A session is an environment together with the snapshots taken of it. It is
driven by operations in any order: binding, matching, taking a snapshot, rolling
back to any earlier one, and dispatching a set of rules. Predicates reach into an
environment through its operations only; `Derives` says what can be made out of
an environment that way, and a predicate is `Encapsulated` if it makes no more.

As long as a run rolls back to nothing older than its start, all entries that
were there stay where they are (`begins_run`). `restore_run` says what a rollback
gives back: exactly the captured entries if nothing older was restored since they
were captured, and otherwise entries that stand for them. They may really be
others (`restore_misses_captured`), namely when the live environment begins with
entries that look like them.
-/
import TermRules.Proofs.Rollback

namespace TermRules

open Matching

/-! ## What predicates can do to an environment -/

namespace Environment

/-- What can be made out of an environment through its operations. -/
inductive Derives (e : Environment) : Environment → Prop
  /-- The environment that was given. -/
  | given : Derives e e
  /-- A new one. -/
  | empty : Derives e .empty
  | bind {f : Environment} (hf : Derives e f) (v : Variable) (t : Term) : Derives e (f.bind v t).env
  | into {f : Environment} (hf : Derives e f) (a : Acceptance) (p t : Term) :
    Derives e (into a p t f).value.env
  | restore {live captured : Environment} (hlive : Derives e live)
    (hcaptured : Derives e captured) : Derives e (live.restore captured.snapshot)

theorem Derives.trans {e f g : Environment} (hef : e.Derives f) (hfg : f.Derives g) :
    e.Derives g := by
  induction hfg with
  | given => exact hef
  | empty => exact .empty
  | bind _ v t ih => exact ih.bind v t
  | into _ a p t ih => exact ih.into a p t
  | restore _ _ ihlive ihcaptured => exact ihlive.restore ihcaptured

theorem derives_bindAll (entries : List (Variable × Term)) (e : Environment) :
    e.Derives (e.bindAll entries).env :=
  rel_bindAll (r := Derives) (fun _ => .given) .trans (fun _ v t => Derives.given.bind v t)
    entries e

end Environment

/-- The predicate has no other access to environments than their operations. -/
def Predicate.Encapsulated (p : Predicate) : Prop :=
  ∀ (t : Term) (e : Environment), e.Derives (p.test t e).value.env

variable {R : Type}

/-- All predicates of the set are encapsulated. -/
def RuleSet.Encapsulated (s : RuleSet R) : Prop := ∀ l ∈ s.leaves, l.predicate.Encapsulated

namespace Rule

section Invariant

variable {P : Environment → Prop}

mutual
/-- What the predicates of all leaves keep, and rolling back as well, a rule keeps
at every level. -/
theorem env_apply
    (hrestore : ∀ {live captured}, P live → P captured → P (live.restore captured.snapshot)) :
    ∀ (rule : Rule R), (∀ l ∈ rule.leaves, ∀ t e, P e → P (l.predicate.test t e).value.env) →
    ∀ (o : Origin) (t : Term) {e : Environment}, P e → P (rule.apply o t e).value.env
  | .composite p c, hl, o, t, e, he => by
    have henv := Leaf.env_outcome ⟨p, c⟩ o t e
    unfold Leaf.outcome Leaf.toRule at henv
    rw [henv]
    exact hl ⟨p, c⟩ List.mem_cons_self t e he
  | .nested name rules, hl, o, t, e, he => env_attemptAll hrestore rules hl name 0 o t he he

/-- A set leaves what comes of what it captured and what it finds. -/
theorem env_attemptAll
    (hrestore : ∀ {live captured}, P live → P captured → P (live.restore captured.snapshot)) :
    ∀ (rules : List (Rule R)),
    (∀ l ∈ allLeaves rules, ∀ t e, P e → P (l.predicate.test t e).value.env) →
    ∀ (name : Option String) (i : Nat) (o : Origin) (t : Term) {captured live : Environment},
      P captured → P live → P (attemptAll name captured.snapshot i rules o t live).value.env
  | [], _, _, _, _, _, _, _, hcaptured, hlive => hrestore hlive hcaptured
  | rule :: rules, hl, name, i, o, t, captured, live, hcaptured, hlive => by
    -- what the rule leaves is live when the next one starts
    have hleft := env_apply hrestore rule (fun l hmem => hl l (List.mem_append_left _ hmem)) o t
      (hrestore hlive hcaptured)
    rw [attemptAll]
    simp only [Traced.value_bind]
    cases hresult : (rule.apply o t (live.restore captured.snapshot)).value.result with
    | some r => exact hleft
    | none =>
      exact env_attemptAll hrestore rules (fun l hmem => hl l (List.mem_append_right _ hmem)) name
        (i + 1) o t hcaptured hleft
end

end Invariant

end Rule

/-- Dispatching a set makes no more of an environment than its predicates do. -/
theorem RuleSet.derives_applyIn {s : RuleSet R} (hs : s.Encapsulated) (o : Origin) (t : Term)
    (e : Environment) : e.Derives (s.applyIn o t e).value.env :=
  Rule.env_apply .restore s.toRule (fun l hl t _ hf => hf.trans (hs l hl t _)) o t .given

namespace Predicate

/-! The predicates that rules are built from are encapsulated. -/

theorem encapsulated_of_keeps {p : Predicate} (hp : ∀ t e, (p.test t e).value.env = e) :
    p.Encapsulated := by
  intro t e
  rw [hp]
  exact .given

theorem encapsulated_ofTerm (f : Term → Bool) : (ofTerm f).Encapsulated :=
  encapsulated_of_keeps fun _ _ => rfl

theorem encapsulated_acceptedBy (a : Acceptance) (v : Variable) : (acceptedBy a v).Encapsulated :=
  encapsulated_of_keeps fun _ _ => rfl

theorem encapsulated_isBound (v : Variable) : (isBound v).Encapsulated :=
  encapsulated_of_keeps fun _ _ => rfl

theorem encapsulated_hasLength (n : Nat) : (hasLength n).Encapsulated :=
  encapsulated_of_keeps fun _ _ => rfl

theorem encapsulated_binds (entries : List (Variable × Term)) : (binds entries).Encapsulated :=
  fun _ e => Environment.derives_bindAll entries e

theorem encapsulated_bindsSelf (v : Variable) : (bindsSelf v).Encapsulated :=
  fun t _ => Environment.Derives.given.bind v t

theorem encapsulated_replaces (entries : List (Variable × Term)) :
    (replaces entries).Encapsulated :=
  fun _ _ => Environment.Derives.empty.trans (Environment.derives_bindAll entries .empty)

theorem encapsulated_matching (a : Acceptance) (p : Term) : (matching a p).Encapsulated :=
  fun t _ => Environment.Derives.given.into a p t

theorem encapsulated_pattern (a : Acceptance) (p : Term) : (pattern a p).Encapsulated :=
  encapsulated_matching a p

theorem encapsulated_matchedBy {s : RuleSet R} (hs : s.Encapsulated) :
    (matchedBy s).Encapsulated :=
  fun t e => RuleSet.derives_applyIn hs default t e

theorem encapsulated_not {p : Predicate} (hp : p.Encapsulated) : (not p).Encapsulated := hp

theorem encapsulated_observed {p : Predicate} (hp : p.Encapsulated) (label : String) :
    (observed label p).Encapsulated := hp

theorem encapsulated_all {ps : List Predicate} (hps : ∀ p ∈ ps, p.Encapsulated) :
    (all ps).Encapsulated :=
  rel_all (fun _ => .given) .trans hps

theorem encapsulated_any {ps : List Predicate} (hps : ∀ p ∈ ps, p.Encapsulated) :
    (any ps).Encapsulated :=
  rel_any (fun _ => .given) .trans hps

end Predicate

/-! ## Sessions -/

/-- An operation on an environment that is under way. -/
inductive Operation : Type 1 where
  | bind (v : Variable) (t : Term)
  | into (a : Acceptance) (p t : Term)
  | asserted (a : Acceptance) (p t : Term)
  | snapshot
  /-- Rolls back to the snapshot of that index, counted from the oldest. -/
  | restore (i : Nat)
  | dispatch {R : Type} (s : RuleSet R) (hs : s.Encapsulated) (o : Origin) (t : Term)

/-- Whether an operation goes back to no snapshot older than the `n`-th. -/
def Operation.staysAbove (n : Nat) : Operation → Bool
  | .restore i => n ≤ i
  | .dispatch _ _ _ _ => false
  | _ => true

/-- An environment, and the snapshots that were taken of it, oldest first. -/
structure Session where
  env : Environment
  snapshots : List Snapshot

namespace Session

/-- A session before its first operation. -/
def start (e : Environment) : Session := ⟨e, []⟩

def step (s : Session) : Operation → Session
  | .bind v t => { s with env := (s.env.bind v t).env }
  | .into a p t => { s with env := (into a p t s.env).value.env }
  | .asserted a p t => { s with env := (asserted a p t s.env).value.2 }
  | .snapshot => { s with snapshots := s.snapshots ++ [s.env.snapshot] }
  | .restore i =>
    match s.snapshots[i]? with
    | some c => { s with env := s.env.restore c }
    | none => s
  | .dispatch rules _ o t => { s with env := (rules.applyIn o t s.env).value.env }

def run (s : Session) (ops : List Operation) : Session := ops.foldl step s

theorem step_restore {s : Session} {i : Nat} {c : Snapshot} (h : s.snapshots[i]? = some c) :
    s.step (.restore i) = { s with env := s.env.restore c } := by
  simp only [step, h]

/-! ## What all operations keep -/

/-- The environment and all snapshots have a property. -/
structure Everywhere (P : Environment → Prop) (s : Session) : Prop where
  env : P s.env
  snapshots : ∀ c ∈ s.snapshots, P ⟨c.entries⟩

section Everywhere

variable {P : Environment → Prop} {s : Session}

theorem everywhere_start {e : Environment} (he : P e) : (start e).Everywhere P :=
  ⟨he, fun _ hc => nomatch hc⟩

/-- A property that rolling back keeps survives every operation that keeps it in a
session without snapshots. -/
theorem Everywhere.step
    (hrestore : ∀ {live captured}, P live → P captured → P (live.restore captured.snapshot))
    (h : s.Everywhere P) {op : Operation} (hop : ∀ e, P e → P ((start e).step op).env) :
    (s.step op).Everywhere P := by
  cases op with
  | snapshot =>
    refine ⟨h.env, fun c hc => ?_⟩
    rcases List.mem_append.1 hc with hc | hc
    · exact h.snapshots c hc
    · rw [List.mem_singleton.1 hc]
      exact h.env
  | restore i =>
    cases hc : s.snapshots[i]? with
    | none => simpa only [Session.step, hc] using h
    | some c =>
      rw [step_restore hc]
      exact ⟨hrestore h.env (h.snapshots c (List.mem_of_getElem? hc)), h.snapshots⟩
  | _ => exact ⟨hop s.env h.env, h.snapshots⟩

theorem Everywhere.run
    (hrestore : ∀ {live captured}, P live → P captured → P (live.restore captured.snapshot))
    (h : s.Everywhere P) {ops : List Operation}
    (hops : ∀ op ∈ ops, ∀ e, P e → P ((start e).step op).env) : (s.run ops).Everywhere P := by
  induction ops generalizing s with
  | nil => exact h
  | cons op ops ih =>
    have hfirst := h.step hrestore (hops op List.mem_cons_self)
    exact ih hfirst fun other hmem => hops other (List.mem_cons_of_mem op hmem)

end Everywhere

/-! ## Runs that do not go back -/

/-- The environment and all snapshots from the `n`-th on begin with `e`. -/
structure Keeps (e : Environment) (n : Nat) (s : Session) : Prop where
  env : e.Begins s.env
  snapshots : ∀ i c, n ≤ i → s.snapshots[i]? = some c → e.Begins ⟨c.entries⟩

variable {e : Environment} {n : Nat} {s : Session}

theorem Keeps.step (h : s.Keeps e n) {op : Operation} (hop : op.staysAbove n = true) :
    (s.step op).Keeps e n := by
  cases op with
  | bind v t => exact ⟨h.env.trans (Environment.begins_bind s.env v t), h.snapshots⟩
  | into a p t => exact ⟨h.env.trans (entries_visit a p t s.env), h.snapshots⟩
  | asserted a p t => exact ⟨h.env.trans (entries_visit a p t s.env), h.snapshots⟩
  | snapshot =>
    refine ⟨h.env, fun i c hi hc => ?_⟩
    change (s.snapshots ++ [s.env.snapshot])[i]? = some c at hc
    rw [List.getElem?_append] at hc
    split at hc
    · exact h.snapshots i c hi hc
    · have hnew : c = s.env.snapshot := List.mem_singleton.1 (List.mem_of_getElem? hc)
      rw [hnew]
      exact h.env
  | restore i =>
    -- a snapshot from the `n`-th on was taken when `e` was there
    have hi : n ≤ i := by simpa [Operation.staysAbove] using hop
    cases hc : s.snapshots[i]? with
    | none => simpa only [Session.step, hc] using h
    | some c =>
      rw [step_restore hc]
      exact ⟨Environment.begins_restore h.env (h.snapshots i c hi hc), h.snapshots⟩
  | dispatch rules hs o t => cases hop

theorem Keeps.run (h : s.Keeps e n) {ops : List Operation}
    (hops : ∀ op ∈ ops, op.staysAbove n = true) : (s.run ops).Keeps e n := by
  induction ops generalizing s with
  | nil => exact h
  | cons op ops ih =>
    have hfirst := h.step (hops op List.mem_cons_self)
    exact ih hfirst fun other hmem => hops other (List.mem_cons_of_mem op hmem)

theorem keeps_self (s : Session) : s.Keeps s.env s.snapshots.length := by
  refine ⟨.refl s.env, fun i c hi hc => ?_⟩
  rw [List.getElem?_eq_none hi] at hc
  cases hc

/-- What is there when a run starts stays where it is, as long as the run goes
back to no snapshot that is older. -/
theorem begins_run (s : Session) {ops : List Operation}
    (hops : ∀ op ∈ ops, op.staysAbove s.snapshots.length = true) :
    s.env.Begins (s.run ops).env :=
  ((keeps_self s).run hops).env

/-! ## What a rollback gives back -/

/-- Snapshots are never dropped. -/
theorem snapshots_run (s : Session) (ops : List Operation) {i : Nat} {c : Snapshot}
    (h : s.snapshots[i]? = some c) : (s.run ops).snapshots[i]? = some c := by
  induction ops generalizing s with
  | nil => exact h
  | cons op ops ih =>
    refine ih (s.step op) ?_
    cases op with
    | snapshot =>
      have hi : i < s.snapshots.length := (List.getElem?_eq_some_iff.1 h).1
      exact (List.getElem?_append_left hi).trans h
    | restore j =>
      cases hj : s.snapshots[j]? with
      | none => simpa only [step, hj] using h
      | some d => rwa [step_restore hj]
    | _ => exact h

/-- A snapshot is given back exactly by a run that goes back to none that is
older, however often it goes back to this one and to later ones. -/
theorem restore_own (s : Session) {more : List Operation}
    (hmore : ∀ op ∈ more, op.staysAbove s.snapshots.length = true) :
    (((s.step .snapshot).run more).step (.restore s.snapshots.length)).env = s.env := by
  have hcaptured : (s.step .snapshot).snapshots[s.snapshots.length]? = some s.env.snapshot :=
    List.getElem?_concat_length
  have hkeeps : ((s.step .snapshot).run more).Keeps s.env s.snapshots.length :=
    ((keeps_self s).step rfl).run hmore
  rw [step_restore (snapshots_run _ more hcaptured)]
  exact Environment.restore_of_begins hkeeps.env

/-- **What a rollback gives back.** After any run, going back to any snapshot
gives its variables in their order, bound to its terms or to ones that cannot be
told from them; these are others than the captured entries exactly when others
that look like them are live. And they are the captured entries themselves if the
run went back to nothing older since they were captured. -/
theorem restore_run (e : Environment) (ops : List Operation) :
    (∀ i c, ((start e).run ops).snapshots[i]? = some c →
      (((start e).run ops).step (.restore i)).env.Aligned Term.Indistinct ⟨c.entries⟩ ∧
      ((((start e).run ops).step (.restore i)).env.entries ≠ c.entries ↔
        ∃ kept, ((start e).run ops).env.Shows ⟨c.entries⟩ kept ∧ kept ≠ c.entries)) ∧
    ∀ more, (∀ op ∈ more, op.staysAbove ((start e).run ops).snapshots.length = true) →
      (((((start e).run ops).step .snapshot).run more).step
        (.restore ((start e).run ops).snapshots.length)).env = ((start e).run ops).env := by
  generalize (start e).run ops = s
  refine ⟨fun i c hc => ?_, fun more hmore => s.restore_own hmore⟩
  rw [step_restore hc]
  refine ⟨?_, ?_⟩
  · exact (Environment.aligned_restore s.env ⟨c.entries⟩).mono Term.standsFor_iff.1
  · exact Environment.restore_ne_iff s.env ⟨c.entries⟩

/-- The same variable bound to one zero, and after a rollback to the other. -/
def bothZeros : List Operation :=
  [.snapshot, .bind (.named "x") Term.plusZero, .snapshot, .restore 0,
    .bind (.named "x") Term.minusZero]

/-- Going back to the first zero keeps the second, which looks like it. -/
theorem restore_run_bothZeros :
    ((start .empty).run bothZeros).snapshots[1]? = some ⟨[(.named "x", Term.plusZero)]⟩ ∧
    (((start .empty).run bothZeros).step (.restore 1)).env.Aligned Term.Indistinct
      ⟨[(.named "x", Term.plusZero)]⟩ ∧
    (((start .empty).run bothZeros).step (.restore 1)).env.entries ≠
      [(.named "x", Term.plusZero)] := by
  obtain ⟨hback, -⟩ := restore_run .empty bothZeros
  have hcaptured : ((start .empty).run bothZeros).snapshots[1]? =
      some ⟨[(.named "x", Term.plusZero)]⟩ := rfl
  obtain ⟨haligned, hne⟩ := hback 1 _ hcaptured
  refine ⟨hcaptured, haligned, hne.2 ⟨[(.named "x", Term.minusZero)], ⟨⟨[], rfl⟩, ?_⟩, by decide⟩⟩
  exact .cons ⟨rfl, by decide⟩ .nil

/-- A rollback does not always give back what was captured: here the sign of a
zero is lost. -/
theorem restore_misses_captured :
    ¬ ∀ (e : Environment) (ops : List Operation) (i : Nat) (c : Snapshot),
      ((start e).run ops).snapshots[i]? = some c →
        (((start e).run ops).step (.restore i)).env.entries = c.entries := by
  intro h
  have hback := h .empty bothZeros 1 ⟨[(.named "x", Term.plusZero)]⟩ rfl
  revert hback
  decide

end Session

end TermRules

/-
TermRules.Proofs.Settling — when repeated substitution notices that it has ended.

A round leaves a term as it is, up to places, if every bound variable in it is bound to
itself (`unplaced_substitute_eq_self_iff`). The rounds stop early, and say so, if there is
no bound variable in it at all (`fixpoint_of_spent`, `fixpoint_of_busy`). Both come to the
same unless a variable is bound to itself, as matching it against itself does. Then the
rounds go on to their limit without changing anything but the places of what they build
(`fixpoint_misses_settled`). `fixpoint_stops` tells the two cases apart.
-/
import Mathlib.Data.Nat.Find
import TermRules.Proofs.Resolution
import TermRules.Proofs.Wording

namespace TermRules.Term

variable {e : Environment} {o : Origin} {t : Term}

/-! ## Rounds that change nothing -/

mutual
/-- A round leaves a term as it is exactly if all of its bound variables are bound to
themselves. -/
theorem unplaced_substitute_eq_self_iff : ∀ (t : Term) (o : Origin),
    (t.substitute e o).unplaced = t.unplaced ↔
      ∀ v ∈ t.vars, ∀ b, e.get? v = some b → b = .var v
  | .var v, o => by
    rw [substitute_var, vars, List.forall_mem_singleton]
    cases e.get? v with
    | none => exact iff_of_true rfl nofun
    | some b =>
      refine ⟨fun h c hc => ?_, fun h => congrArg unplaced (h b rfl)⟩
      cases hc
      exact eq_of_unplaced rfl h.symm
  | .seq p ts, o => by
    obtain ⟨q, hq⟩ := substitute_seq e o p ts
    rw [hq, unplaced, unplaced, vars, ← allUnplaced_substituteAll_eq_self_iff ts o 0]
    exact ⟨fun h => (Term.seq.inj h).2, congrArg (Term.seq default)⟩
  | .literal _, _ | .grounded _ _, _ | .boxed _ _, _ => by simp [vars]

theorem allUnplaced_substituteAll_eq_self_iff : ∀ (ts : List Term) (o : Origin) (i : Nat),
    allUnplaced (substituteAll e o i ts) = allUnplaced ts ↔
      ∀ v ∈ allVars ts, ∀ b, e.get? v = some b → b = .var v
  | [], _, _ => iff_of_true rfl nofun
  | t :: ts, o, i => by
    rw [substituteAll_cons, allUnplaced, allUnplaced, List.cons.injEq, allVars,
      List.forall_mem_append, unplaced_substitute_eq_self_iff t (o.sub i),
      allUnplaced_substituteAll_eq_self_iff ts o (i + 1)]
end

mutual
theorem vars_unplaced : ∀ t : Term, t.unplaced.vars = t.vars
  | .seq _ ts => allVars_unplaced ts
  | .literal _ | .grounded _ _ | .boxed _ _ | .var _ => rfl

theorem allVars_unplaced : ∀ ts : List Term, allVars (allUnplaced ts) = allVars ts
  | [] => rfl
  | t :: ts => by rw [allUnplaced, allVars, allVars, vars_unplaced t, allVars_unplaced ts]
end

/-- The `k`-th round is the first after which one more leaves the term as it is. -/
def SettlesAt (e : Environment) (o : Origin) (t : Term) (k : Nat) : Prop :=
  (t.rounds e o (k + 1)).unplaced = (t.rounds e o k).unplaced ∧
    ∀ j < k, (t.rounds e o (j + 1)).unplaced ≠ (t.rounds e o j).unplaced

instance (e : Environment) (o : Origin) (t : Term) (k : Nat) : Decidable (t.SettlesAt e o k) :=
  inferInstanceAs (Decidable (_ ∧ ∀ j < k, _))

/-- A term that one round leaves as it is is left as it is by all that follow. -/
theorem unplaced_rounds_of_fixed {k : Nat}
    (h : (t.rounds e o (k + 1)).unplaced = (t.rounds e o k).unplaced) (m : Nat) :
    (t.rounds e o (k + m)).unplaced = (t.rounds e o k).unplaced := by
  induction m with
  | zero => rfl
  | succ m ih =>
    rw [← Nat.add_assoc, rounds, unplaced_substitute_eq, ih, ← unplaced_substitute_eq]
    exact h

/-- If some round leaves the term as it is there is a first one. -/
theorem exists_settlesAt {j : Nat}
    (h : (t.rounds e o (j + 1)).unplaced = (t.rounds e o j).unplaced) :
    ∃ k ≤ j, t.SettlesAt e o k := by
  have hex : ∃ k, (t.rounds e o (k + 1)).unplaced = (t.rounds e o k).unplaced := ⟨j, h⟩
  exact ⟨Nat.find hex, Nat.find_min' hex h, Nat.find_spec hex, fun _ hlt => Nat.find_min hex hlt⟩

/-! ## Rounds that stop early -/

/-- Some variable of the term is bound, so a round has something to replace. -/
def Busy (e : Environment) (t : Term) : Prop := ∃ v ∈ t.vars, ∃ b, e.get? v = some b

theorem not_busy_iff : ¬ t.Busy e ↔ ∀ v ∈ t.vars, e.get? v = none := by
  simp only [Busy, not_exists, not_and, Option.eq_none_iff_forall_ne_some, ne_eq]

theorem fixpointFrom_of_busy {round left : Nat} (h : (t.rounds e o round).Busy e) :
    fixpointFrom e o round (left + 1) (t.rounds e o round) =
      fixpointFrom e o (round + 1) left (t.rounds e o (round + 1)) := by
  rw [fixpointFrom, rounds, substitute]
  cases hsub : substitute? e (o.sub round) (t.rounds e o round) with
  | none => exact absurd h (not_busy_iff.2 ((substitute?_eq_none_iff _ _).1 hsub))
  | some t' => rfl

theorem fixpointFrom_of_spent {round left : Nat} (h : ¬ (t.rounds e o round).Busy e) :
    fixpointFrom e o round (left + 1) (t.rounds e o round) = (do
      .emit (.fixpointReached round)
      return t.rounds e o round) := by
  rw [fixpointFrom, (substitute?_eq_none_iff _ _).2 (not_busy_iff.1 h)]

/-- As long as there is something to replace, the rounds go on. -/
theorem fixpoint_eq_of_busy {k : Nat} (left : Nat) (h : ∀ j < k, (t.rounds e o j).Busy e) :
    fixpoint e o (k + left) t = fixpointFrom e o k left (t.rounds e o k) := by
  induction k generalizing left with
  | zero => rw [Nat.zero_add]; rfl
  | succ k ih =>
    rw [Nat.succ_add_eq_add_succ, ih (left + 1) fun j hj => h j (Nat.lt_succ_of_lt hj),
      fixpointFrom_of_busy (h k (Nat.lt_succ_self k))]

/-- If there is something to replace in every round, all rounds are carried out in
silence. -/
theorem fixpoint_of_busy {n : Nat} (h : ∀ j < n, (t.rounds e o j).Busy e) :
    fixpoint e o n t = pure (t.rounds e o n) :=
  fixpoint_eq_of_busy 0 h

/-- The first round that finds nothing to replace is reported and is the last. -/
theorem fixpoint_of_spent {k n : Nat} (hk : k < n) (hbusy : ∀ j < k, (t.rounds e o j).Busy e)
    (hspent : ¬ (t.rounds e o k).Busy e) :
    fixpoint e o n t = (do
      .emit (.fixpointReached k)
      return t.rounds e o k) := by
  obtain ⟨left, rfl⟩ := Nat.exists_eq_add_of_lt hk
  rw [Nat.add_assoc, fixpoint_eq_of_busy (left + 1) hbusy, fixpointFrom_of_spent hspent]

/-! ## Main statement -/

/-- A round that changes the term has something to replace. -/
theorem busy_of_changed {j : Nat}
    (h : (t.rounds e o (j + 1)).unplaced ≠ (t.rounds e o j).unplaced) :
    (t.rounds e o j).Busy e := by
  by_contra hspent
  refine h ((unplaced_substitute_eq_self_iff _ _).2 fun v hv b hb => ?_)
  rw [not_busy_iff.1 hspent v hv] at hb
  cases hb

/-- A variable that is bound to itself is there for good once it is left in a term that a
round leaves as it is. -/
theorem SettlesAt.busy {k : Nat} (h : t.SettlesAt e o k) {v : Variable}
    (hv : v ∈ (t.rounds e o k).vars) (hself : e.get? v = some (.var v)) (j : Nat) :
    (t.rounds e o j).Busy e := by
  rcases Nat.lt_or_ge j k with hlt | hge
  · exact busy_of_changed (h.2 j hlt)
  · obtain ⟨m, rfl⟩ := Nat.exists_eq_add_of_le hge
    refine ⟨v, ?_, _, hself⟩
    rw [← vars_unplaced, unplaced_rounds_of_fixed h.1 m, vars_unplaced]
    exact hv

/-- **Where repeated substitution stops.** Let the term be, after `k` rounds and not before,
one that a further round leaves as it is. If no variable of it is bound to itself, then
under any larger limit the rounds stop there: that very term comes back, which for no round
at all is the given one, and one report says after how many rounds. If a variable of it is
bound to itself, all rounds are carried out and nothing is reported; what comes back agrees
with that term up to places. If there is no such term within the limit, all rounds are carried
out in silence as well. -/
theorem fixpoint_stops (e : Environment) (o : Origin) (t : Term) (n : Nat) :
    (∀ k < n, t.SettlesAt e o k →
      ((∀ v ∈ (t.rounds e o k).vars, e.get? v ≠ some (.var v)) →
        fixpoint e o n t = (do
          .emit (.fixpointReached k)
          return t.rounds e o k) ∧
        (fixpoint e o n t).reports = [.fixpointReached k]) ∧
      ((∃ v ∈ (t.rounds e o k).vars, e.get? v = some (.var v)) →
        fixpoint e o n t = pure (t.rounds e o n) ∧ (fixpoint e o n t).reports = [] ∧
          (t.rounds e o n).unplaced = (t.rounds e o k).unplaced)) ∧
    ((∀ k < n, ¬ t.SettlesAt e o k) →
      fixpoint e o n t = pure (t.rounds e o n) ∧ (fixpoint e o n t).reports = []) := by
  refine ⟨fun k hk hsettles => ⟨fun hfree => ?_, ?_⟩, fun hnever => ?_⟩
  · have hstop := fixpoint_of_spent hk (fun j hj => busy_of_changed (hsettles.2 j hj)) <| by
      rintro ⟨v, hv, b, hb⟩
      -- what is bound in a term that a round leaves as it is is bound to itself
      obtain rfl := (unplaced_substitute_eq_self_iff _ _).1 hsettles.1 v hv b hb
      exact hfree v hv hb
    exact ⟨hstop, by simp [hstop]⟩
  · rintro ⟨v, hv, hself⟩
    have hon := fixpoint_of_busy fun j (_ : j < n) => hsettles.busy hv hself j
    obtain ⟨m, rfl⟩ := Nat.exists_eq_add_of_le hk.le
    exact ⟨hon, by simp [hon], unplaced_rounds_of_fixed hsettles.1 m⟩
  · have hon : fixpoint e o n t = pure (t.rounds e o n) := by
      refine fixpoint_of_busy fun j hj => busy_of_changed fun hfixed => ?_
      obtain ⟨k, hk, hsettles⟩ := exists_settlesAt hfixed
      exact hnever k (Nat.lt_of_le_of_lt hk hj) hsettles
    exact ⟨hon, by simp [hon]⟩

/-- A variable bound by way of another one, and a third one bound to itself. -/
def chainAndLoop : Environment :=
  ⟨[(.named "x", .seq ⟨[1]⟩ [.symbol "g", .var (.named "y")]), (.named "y", .long 1),
    (.named "z", .var (.named "z"))]⟩

/-- With the chain alone the second round is the last that changes anything, and the rounds
stop. With the loop beside it they do not. -/
theorem fixpoint_stops_chainAndLoop :
    SettlesAt chainAndLoop ⟨[7]⟩ (.seq ⟨[0]⟩ [.var (.named "x"), .var (.named "w")]) 2 ∧
    (fixpoint chainAndLoop ⟨[7]⟩ 9 (.seq ⟨[0]⟩ [.var (.named "x"), .var (.named "w")])).reports =
      [⟨.trace, "eval::rewrite", [("message", "Fixpoint reached"), ("round", "2")]⟩] ∧
    SettlesAt chainAndLoop ⟨[7]⟩ (.seq ⟨[0]⟩ [.var (.named "x"), .var (.named "z")]) 2 ∧
    (fixpoint chainAndLoop ⟨[7]⟩ 9 (.seq ⟨[0]⟩ [.var (.named "x"), .var (.named "z")])).reports =
      [] := by
  obtain ⟨hchain, -⟩ :=
    fixpoint_stops chainAndLoop ⟨[7]⟩ (.seq ⟨[0]⟩ [.var (.named "x"), .var (.named "w")]) 9
  obtain ⟨hloop, -⟩ :=
    fixpoint_stops chainAndLoop ⟨[7]⟩ (.seq ⟨[0]⟩ [.var (.named "x"), .var (.named "z")]) 9
  have hsettles : SettlesAt chainAndLoop ⟨[7]⟩
      (.seq ⟨[0]⟩ [.var (.named "x"), .var (.named "w")]) 2 := by decide
  have hsettles' : SettlesAt chainAndLoop ⟨[7]⟩
      (.seq ⟨[0]⟩ [.var (.named "x"), .var (.named "z")]) 2 := by decide
  have hstop := ((hchain 2 (by decide) hsettles).1 (by decide)).2
  have hon := ((hloop 2 (by decide) hsettles').2 ⟨.named "z", .head _, rfl⟩).2.1
  exact ⟨hsettles, hstop, hsettles', hon⟩

/-- What matching a variable against itself binds. -/
def selfBound : Environment :=
  (Matching.into default (.var (.named "x")) (.var (.named "x")) .empty).value.env

/-- A call on that variable. -/
def selfCall : Term := .seq ⟨[0]⟩ [.symbol "f", .var (.named "x")]

/-- Repeated substitution does not always stop as soon as the term stops changing: here no
round changes it, and yet all rounds are carried out, nothing is reported, and a new node
comes back. -/
theorem fixpoint_misses_settled :
    SettlesAt selfBound ⟨[7]⟩ selfCall 0 ∧ (0 < 3) ∧
    (fixpoint selfBound ⟨[7]⟩ 3 selfCall).value ≠ selfCall.rounds selfBound ⟨[7]⟩ 0 ∧
    (fixpoint selfBound ⟨[7]⟩ 3 selfCall).value.sharedWith selfCall = false ∧
    Event.fixpointReached 0 ∉ (fixpoint selfBound ⟨[7]⟩ 3 selfCall).events ∧
    (fixpoint selfBound ⟨[7]⟩ 3 selfCall).reports = [] := by
  refine ⟨by decide, by decide, by decide, by decide, ?_, rfl⟩
  exact List.not_mem_nil

end TermRules.Term

/-
TermRules.Proofs.Normalization — what normalization returns, and what it costs.

`steps?` takes a given number of steps in a row, the k-th of them at the k-th
of given places; normalization takes its own at the places `Origin.turn`.
`run_eq_ok_iff` and `run_eq_error_iff` tell the two ends of the loop apart by
that: a term that cannot be reduced, reached within the limit, or one that
still can, reached by exactly as many steps as the limit allows. The last look
for a step comes before the limit is asked, so the boundary is sharp on both
sides, and a step that changes nothing counts like any other.

A run that ends at its limit can be taken up again. `Origin.rest` is where the
rest of it would have built its nodes; resumed there it ends with the very same
term, and resumed anywhere else with the same term up to places, if the rules
do not see these.

Results are counted with a set under watch: it answers as before and reports
each result once. `run_watched`: one for each step, and one more for the step
that is found but not taken.
-/
import TermRules.Proofs.Placement

namespace TermRules

/-! ## Places of a run -/

namespace Origin

/-- Where a run at a place builds what is left after `k` steps. -/
def rest (o : Origin) : (k : Nat) → Origin
  | 0 => o
  | k + 1 => (o.sub 1).rest k

/-- Where a run at a place takes its step number `k`, counting from zero. -/
def turn (o : Origin) (k : Nat) : Origin := (o.rest k).sub 0

theorem rest_add (o : Origin) (j k : Nat) : o.rest (j + k) = (o.rest j).rest k := by
  induction j generalizing o with
  | zero => rw [Nat.zero_add, rest]
  | succ j ih => rw [Nat.succ_add, rest, rest, ih]

theorem turn_rest (o : Origin) (j k : Nat) : (o.rest j).turn k = o.turn (j + k) := by
  unfold turn
  rw [rest_add]

theorem turn_succ (o : Origin) (k : Nat) : (o.sub 1).turn k = o.turn (k + 1) := by
  unfold turn
  rw [rest]

end Origin

/-! ## Steps in a row -/

namespace Normalizer

/-- The term after `k` steps in a row, if there are so many, each taken at the
place with its number. -/
def steps? (n : Normalizer) (places : Nat → Origin) : (k : Nat) → Term → Option Term
  | 0, t => some t
  | k + 1, t => (n.step? (places 0) t).value >>= n.steps? (fun i => places (i + 1)) k

/-- Some steps and then some more. -/
theorem steps?_add (n : Normalizer) (j k : Nat) (places : Nat → Origin) (t : Term) :
    n.steps? places (j + k) t =
      n.steps? places j t >>= n.steps? (fun i => places (j + i)) k := by
  induction j generalizing places t with
  | zero => simp [steps?]
  | succ j ih =>
    rw [Nat.succ_add, steps?, steps?]
    cases (n.step? (places 0) t).value with
    | none => rfl
    | some t' =>
      have hplaces : (fun i => places (j + 1 + i)) = fun i => places (j + i + 1) := by
        funext i
        rw [Nat.add_right_comm]
      rw [hplaces]
      exact ih _ t'

/-- A step is missing exactly where nothing can be reduced. -/
theorem step?_eq_none_iff (n : Normalizer) (o : Origin) (t : Term) :
    (n.step? o t).value = none ↔ ¬ n.rules.Reducible t := by
  rw [← n.isSome_step? o t, Bool.not_eq_true, Option.isSome_eq_false_iff, Option.isNone_iff_eq_none]

theorem reducible_of_step? {n : Normalizer} {o : Origin} {t t' : Term}
    (h : (n.step? o t).value = some t') : n.rules.Reducible t := by
  rw [← n.isSome_step? o t, h]
  rfl

/-! ## The two ends of a run -/

theorem value_run_of_none {n : Normalizer} {o : Origin} {t : Term}
    (h : (n.step? (o.sub 0) t).value = none) (left taken : Nat) :
    (n.run o left taken t).value = .ok ⟨t, taken⟩ := by
  rw [run.eq_def, Traced.value_bind, h]
  rfl

theorem value_run_zero {n : Normalizer} {o : Origin} {t t' : Term}
    (h : (n.step? (o.sub 0) t).value = some t') (taken : Nat) :
    (n.run o 0 taken t).value = .error ⟨n.settings.maxSteps, t⟩ := by
  rw [run, Traced.value_bind, h]
  rfl

theorem value_run_succ {n : Normalizer} {o : Origin} {t t' : Term}
    (h : (n.step? (o.sub 0) t).value = some t') (left taken : Nat) :
    (n.run o (left + 1) taken t).value = (n.run (o.sub 1) left (taken + 1) t').value := by
  rw [run, Traced.value_bind, h]
  rfl

/-- After a first step, the steps of a run are those of its rest. -/
theorem steps?_succ_of_some {n : Normalizer} {o : Origin} {t t' : Term}
    (h : (n.step? (o.sub 0) t).value = some t') (k : Nat) :
    n.steps? o.turn (k + 1) t = n.steps? (o.sub 1).turn k t' := by
  have hplaces : (fun i => o.turn (i + 1)) = (o.sub 1).turn := by
    funext i
    rw [Origin.turn_succ]
  have hfirst : (n.step? (o.turn 0) t).value = some t' := h
  rw [steps?, hfirst, hplaces]
  rfl

theorem steps?_succ_of_none {n : Normalizer} {o : Origin} {t : Term}
    (h : (n.step? (o.sub 0) t).value = none) (k : Nat) : n.steps? o.turn (k + 1) t = none := by
  have hfirst : (n.step? (o.turn 0) t).value = none := h
  rw [steps?, hfirst]
  rfl

/-- Where no step can be taken a run succeeds with the term itself, and no other
number of steps leads anywhere. -/
theorem run_eq_ok_iff_of_none {n : Normalizer} {o : Origin} {t : Term}
    (h : (n.step? (o.sub 0) t).value = none) (left taken : Nat) (u : Term) (s : Nat) :
    (n.run o left taken t).value = .ok ⟨u, s⟩ ↔
      ∃ k ≤ left, s = taken + k ∧ n.steps? o.turn k t = some u ∧ ¬ n.rules.Reducible u := by
  have hnone := (n.step?_eq_none_iff _ _).1 h
  rw [value_run_of_none h]
  refine ⟨?_, ?_⟩
  · intro hend
    cases hend
    exact ⟨0, Nat.zero_le left, rfl, rfl, hnone⟩
  · intro hsteps
    obtain ⟨k, -, rfl, hu, -⟩ := hsteps
    cases k with
    | zero =>
      cases hu
      rfl
    | succ k =>
      rw [steps?_succ_of_none h] at hu
      cases hu

/-- A run succeeds exactly with the first term of its steps that cannot be
reduced, if that comes within what is left. -/
theorem run_eq_ok_iff (n : Normalizer) (left : Nat) (o : Origin) (taken : Nat) (t u : Term)
    (s : Nat) :
    (n.run o left taken t).value = .ok ⟨u, s⟩ ↔
      ∃ k ≤ left, s = taken + k ∧ n.steps? o.turn k t = some u ∧ ¬ n.rules.Reducible u := by
  induction left generalizing o taken t with
  | zero =>
    cases h : (n.step? (o.sub 0) t).value with
    | none => exact run_eq_ok_iff_of_none h 0 taken u s
    | some t' =>
      rw [value_run_zero h]
      refine ⟨nofun, ?_⟩
      intro hsteps
      obtain ⟨k, hk, -, hu, hnone⟩ := hsteps
      obtain rfl := Nat.le_zero.1 hk
      cases hu
      exact absurd (reducible_of_step? h) hnone
  | succ left ih =>
    cases h : (n.step? (o.sub 0) t).value with
    | none => exact run_eq_ok_iff_of_none h (left + 1) taken u s
    | some t' =>
      rw [value_run_succ h, ih]
      refine ⟨?_, ?_⟩
      · intro hrest
        obtain ⟨k, hk, rfl, hu, hnone⟩ := hrest
        refine ⟨k + 1, Nat.succ_le_succ hk, by omega, ?_, hnone⟩
        rw [steps?_succ_of_some h, hu]
      · intro hsteps
        obtain ⟨k, hk, rfl, hu, hnone⟩ := hsteps
        cases k with
        | zero =>
          cases hu
          exact absurd (reducible_of_step? h) hnone
        | succ k =>
          rw [steps?_succ_of_some h] at hu
          exact ⟨k, Nat.le_of_succ_le_succ hk, by omega, hu, hnone⟩

/-- A run fails exactly when it can take all steps that are left and one more. -/
theorem run_eq_error_iff (n : Normalizer) (left : Nat) (o : Origin) (taken : Nat) (t u : Term)
    (limit : Nat) :
    (n.run o left taken t).value = .error ⟨limit, u⟩ ↔
      limit = n.settings.maxSteps ∧ n.steps? o.turn left t = some u ∧ n.rules.Reducible u := by
  induction left generalizing o taken t with
  | zero =>
    cases h : (n.step? (o.sub 0) t).value with
    | none =>
      rw [value_run_of_none h]
      refine ⟨nofun, ?_⟩
      intro hsteps
      obtain ⟨-, hu, hsome⟩ := hsteps
      cases hu
      exact absurd hsome ((n.step?_eq_none_iff _ _).1 h)
    | some t' =>
      rw [value_run_zero h]
      refine ⟨?_, ?_⟩
      · intro hend
        cases hend
        exact ⟨rfl, rfl, reducible_of_step? h⟩
      · intro hsteps
        obtain ⟨rfl, hu, -⟩ := hsteps
        cases hu
        rfl
  | succ left ih =>
    cases h : (n.step? (o.sub 0) t).value with
    | none =>
      rw [value_run_of_none h, steps?_succ_of_none h]
      exact ⟨nofun, fun ⟨_, hu, _⟩ => nomatch hu⟩
    | some t' => rw [value_run_succ h, ih, steps?_succ_of_some h]

theorem normalize_eq_ok_iff (n : Normalizer) (o : Origin) (t u : Term) (s : Nat) :
    (n.normalize o t).value = .ok ⟨u, s⟩ ↔
      s ≤ n.settings.maxSteps ∧ n.steps? o.turn s t = some u ∧ ¬ n.rules.Reducible u := by
  unfold normalize
  rw [run_eq_ok_iff]
  refine ⟨?_, ?_⟩
  · intro hsteps
    obtain ⟨k, hk, rfl, hu, hnone⟩ := hsteps
    rw [Nat.zero_add]
    exact ⟨hk, hu, hnone⟩
  · intro hsteps
    obtain ⟨hs, hu, hnone⟩ := hsteps
    exact ⟨s, hs, (Nat.zero_add s).symm, hu, hnone⟩

theorem normalize_eq_error_iff (n : Normalizer) (o : Origin) (t u : Term) (limit : Nat) :
    (n.normalize o t).value = .error ⟨limit, u⟩ ↔
      limit = n.settings.maxSteps ∧ n.steps? o.turn limit t = some u ∧ n.rules.Reducible u := by
  unfold normalize
  rw [run_eq_error_iff]
  refine ⟨?_, ?_⟩
  · intro hsteps
    obtain ⟨rfl, h⟩ := hsteps
    exact ⟨rfl, h⟩
  · intro hsteps
    obtain ⟨rfl, h⟩ := hsteps
    exact ⟨rfl, h⟩

/-! ## What steps keep -/

/-- The term that a normalization ends with, in normal form or not. -/
def ending : Except StepLimitExceeded NormalForm → Term
  | .ok r => r.term
  | .error x => x.term

section Keeps

variable {n : Normalizer} {P : Term → Prop}

/-- What each step keeps, steps in a row keep. -/
theorem steps?_keeps (hstep : ∀ {o t u}, P t → (n.step? o t).value = some u → P u) (k : Nat)
    (places : Nat → Origin) {t u : Term} (ht : P t) (hu : n.steps? places k t = some u) :
    P u := by
  induction k generalizing places t with
  | zero =>
    cases hu
    exact ht
  | succ k ih =>
    obtain ⟨t', hfirst, hrest⟩ := Option.bind_eq_some_iff.1 hu
    exact ih _ (hstep ht hfirst) hrest

/-- And so does a normalization, wherever it ends. -/
theorem ending_keeps (hstep : ∀ {o t u}, P t → (n.step? o t).value = some u → P u) (o : Origin)
    {t : Term} (ht : P t) : P (ending (n.normalize o t).value) := by
  cases hend : (n.normalize o t).value with
  | ok r =>
    obtain ⟨u, s⟩ := r
    obtain ⟨-, hu, -⟩ := (n.normalize_eq_ok_iff o t u s).1 hend
    exact steps?_keeps hstep s o.turn ht hu
  | error x =>
    obtain ⟨limit, u⟩ := x
    obtain ⟨-, hu, -⟩ := (n.normalize_eq_error_iff o t u limit).1 hend
    exact steps?_keeps hstep limit o.turn ht hu

end Keeps

/-- Runs whose steps are the same end in the same way. -/
theorem normalize_congr (n n' : Normalizer)
    (hlimit : n.settings.maxSteps = n'.settings.maxSteps)
    (hstep : ∀ o t, (n.step? o t).value = (n'.step? o t).value) (o : Origin) (t : Term) :
    (n.normalize o t).value = (n'.normalize o t).value := by
  have hrun : ∀ (left : Nat) (o : Origin) (taken : Nat) (t : Term),
      (n.run o left taken t).value = (n'.run o left taken t).value := by
    intro left
    induction left with
    | zero =>
      intro o taken t
      have hsame := hstep (o.sub 0) t
      cases h : (n.step? (o.sub 0) t).value with
      | none => rw [value_run_of_none h, value_run_of_none (hsame.symm.trans h)]
      | some t' => rw [value_run_zero h, value_run_zero (hsame.symm.trans h), hlimit]
    | succ left ih =>
      intro o taken t
      have hsame := hstep (o.sub 0) t
      cases h : (n.step? (o.sub 0) t).value with
      | none => rw [value_run_of_none h, value_run_of_none (hsame.symm.trans h)]
      | some t' => rw [value_run_succ h, value_run_succ (hsame.symm.trans h), ih]
  rw [normalize, normalize, hlimit, hrun]

/-! ## Taking a run up again -/

/-- The normalizer with another limit on steps. -/
def withBudget (n : Normalizer) (m : Nat) : Normalizer :=
  { n with settings := { n.settings with maxSteps := m } }

theorem steps?_withBudget (n : Normalizer) (m k : Nat) (places : Nat → Origin) (t : Term) :
    (n.withBudget m).steps? places k t = n.steps? places k t := by
  induction k generalizing places t with
  | zero => rfl
  | succ k ih =>
    rw [steps?, steps?, funext (ih _)]
    rfl

/-- The end of a run, told by one that had taken `k` steps before. -/
def resumed (k : Nat) :
    Except StepLimitExceeded NormalForm → Except StepLimitExceeded NormalForm
  | .ok r => .ok ⟨r.term, k + r.steps⟩
  | .error x => .error ⟨k + x.limit, x.term⟩

/-- A run with more steps to take ends as the shorter one if that succeeds, and
otherwise as the rest of it, started from where the shorter one stopped. -/
theorem normalize_add (n : Normalizer) (m : Nat) (o : Origin) (t : Term) :
    ((n.withBudget (n.settings.maxSteps + m)).normalize o t).value =
      match (n.normalize o t).value with
      | .ok r => .ok r
      | .error x => resumed x.limit ((n.withBudget m).normalize (o.rest x.limit) x.term).value := by
  cases h : (n.normalize o t).value with
  | ok r =>
    obtain ⟨u, s⟩ := r
    obtain ⟨hs, hu, hnone⟩ := (n.normalize_eq_ok_iff o t u s).1 h
    rw [normalize_eq_ok_iff, steps?_withBudget]
    exact ⟨Nat.le_trans hs (Nat.le_add_right _ m), hu, hnone⟩
  | error x =>
    obtain ⟨limit, u⟩ := x
    obtain ⟨rfl, hu, -⟩ := (n.normalize_eq_error_iff o t u limit).1 h
    have hsteps : ∀ k, n.steps? o.turn (n.settings.maxSteps + k) t =
        n.steps? (o.rest n.settings.maxSteps).turn k u := by
      intro k
      have hplaces : (fun i => o.turn (n.settings.maxSteps + i)) =
          (o.rest n.settings.maxSteps).turn := by
        funext i
        rw [Origin.turn_rest]
      rw [steps?_add, hu, hplaces]
      rfl
    show _ = resumed n.settings.maxSteps
      ((n.withBudget m).normalize (o.rest n.settings.maxSteps) u).value
    cases h' : ((n.withBudget m).normalize (o.rest n.settings.maxSteps) u).value with
    | ok r =>
      obtain ⟨w, k⟩ := r
      obtain ⟨hk, hw, hnone⟩ := (normalize_eq_ok_iff _ _ _ _ _).1 h'
      rw [steps?_withBudget] at hw
      refine (normalize_eq_ok_iff _ o t _ _).2 ⟨Nat.add_le_add_left hk _, ?_, hnone⟩
      rw [steps?_withBudget, hsteps, hw]
    | error y =>
      obtain ⟨limit, w⟩ := y
      obtain ⟨rfl, hw, hsome⟩ := (normalize_eq_error_iff _ _ _ _ _).1 h'
      rw [steps?_withBudget] at hw
      refine (normalize_eq_error_iff _ o t _ _).2 ⟨rfl, ?_, hsome⟩
      rw [steps?_withBudget, hsteps]
      exact hw

/-! ## Runs at other places -/

/-- The end of a run with the places of its term forgotten. -/
def placeless : Except StepLimitExceeded NormalForm → Except StepLimitExceeded NormalForm
  | .ok r => .ok ⟨r.term.unplaced, r.steps⟩
  | .error x => .error ⟨x.limit, x.term.unplaced⟩

theorem placeless_resumed (k : Nat) (r : Except StepLimitExceeded NormalForm) :
    placeless (resumed k r) = resumed k (placeless r) := by
  cases r <;> rfl

variable {n : Normalizer}

theorem step?_unplaced (hn : n.rules.PlaceBlind) (o o' : Origin) {t t' : Term}
    (h : t.unplaced = t'.unplaced) :
    (n.step? o t).value.map Term.unplaced = (n.step? o' t').value.map Term.unplaced :=
  n.settings.strategy.reduceFirst_unplaced hn t t' o o' h

theorem reducible_unplaced (hn : n.rules.PlaceBlind) {t t' : Term}
    (h : t.unplaced = t'.unplaced) : n.rules.Reducible t ↔ n.rules.Reducible t' := by
  have hstep := congrArg Option.isSome (step?_unplaced hn default default h)
  rw [Option.isSome_map, Option.isSome_map] at hstep
  rw [← n.isSome_step? default t, ← n.isSome_step? default t', hstep]

/-- Steps taken at other places lead to the same terms up to places. -/
theorem steps?_unplaced (hn : n.rules.PlaceBlind) (k : Nat) (places places' : Nat → Origin)
    {t t' : Term} (h : t.unplaced = t'.unplaced) :
    (n.steps? places k t).map Term.unplaced = (n.steps? places' k t').map Term.unplaced := by
  induction k generalizing places places' t t' with
  | zero => exact congrArg some h
  | succ k ih =>
    have hstep := step?_unplaced hn (places 0) (places' 0) h
    rw [steps?, steps?]
    cases hu : (n.step? (places 0) t).value with
    | none =>
      rw [hu] at hstep
      rw [Option.map_eq_none_iff.1 hstep.symm]
      rfl
    | some u =>
      rw [hu] at hstep
      obtain ⟨u', hu', hsame⟩ := Option.map_eq_some_iff.1 hstep.symm
      rw [hu']
      exact ih _ _ hsame.symm

theorem normalize_unplaced (hn : n.rules.PlaceBlind) (o o' : Origin) {t t' : Term}
    (h : t.unplaced = t'.unplaced) :
    placeless (n.normalize o t).value = placeless (n.normalize o' t').value := by
  have hsteps : ∀ {k u}, n.steps? o.turn k t = some u →
      ∃ u', n.steps? o'.turn k t' = some u' ∧ u'.unplaced = u.unplaced := by
    intro k u hu
    have hsame := steps?_unplaced hn k o.turn o'.turn h
    rw [hu] at hsame
    exact Option.map_eq_some_iff.1 hsame.symm
  cases hend : (n.normalize o t).value with
  | ok r =>
    obtain ⟨u, s⟩ := r
    obtain ⟨hs, hu, hnone⟩ := (n.normalize_eq_ok_iff o t u s).1 hend
    obtain ⟨u', hu', hsame⟩ := hsteps hu
    rw [← reducible_unplaced hn hsame] at hnone
    rw [(n.normalize_eq_ok_iff o' t' u' s).2 ⟨hs, hu', hnone⟩, placeless, placeless, hsame]
  | error x =>
    obtain ⟨limit, u⟩ := x
    obtain ⟨hlimit, hu, hsome⟩ := (n.normalize_eq_error_iff o t u limit).1 hend
    obtain ⟨u', hu', hsame⟩ := hsteps hu
    rw [← reducible_unplaced hn hsame] at hsome
    rw [(n.normalize_eq_error_iff o' t' u' limit).2 ⟨hlimit, hu', hsome⟩, placeless, placeless,
      hsame]

end Normalizer

/-! ## Counting the results -/

/-- The set under watch: it answers as the set does, and each of its results
makes one remark, about the term that gave it. -/
def RuleSet.watched (s : RuleSet Term) : RuleSet Term where
  name := s.name
  rules := [.composite
    ⟨fun t e => pure ⟨(s.result? default t).value.isSome, e⟩⟩
    ⟨fun o t e => ⟨(s.result? o t).value.getD t, .single (.applicationRan "" t e)⟩⟩]

/-- Whether the event is a remark. -/
def Event.isRemark (event : Event) : Bool := event.remark?.isSome

namespace RuleSet

theorem isSome_result?_default (s : RuleSet Term) (o : Origin) (t : Term) :
    (s.result? default t).value.isSome = (s.result? o t).value.isSome := by
  rw [Bool.eq_iff_iff, s.isSome_result?, s.isSome_result?]

theorem value_result?_watched (s : RuleSet Term) (o : Origin) (t : Term) :
    (s.watched.result? o t).value = (s.result? o t).value := by
  have hplace := s.isSome_result?_default o t
  rw [watched, result?, Traced.value_map, applyIn, toRule, Rule.apply, Rule.attemptAll]
  simp only [Traced.value_bind, Environment.restore_empty, Rule.apply, Traced.value_pure, hplace]
  cases (s.result? o t).value <;> rfl

/-- The set under watch makes a remark exactly when it gives a result. -/
theorem countP_result?_watched (s : RuleSet Term) (o : Origin) (t : Term) :
    (s.watched.result? o t).events.countP Event.isRemark =
      (s.watched.result? o t).value.isSome.toNat := by
  have hplace := s.isSome_result?_default o t
  rw [value_result?_watched, watched, result?, Traced.events_map, applyIn, toRule, Rule.apply,
    Rule.attemptAll]
  simp only [Traced.events_bind, Traced.value_bind, Environment.restore_empty, Rule.apply,
    Traced.value_pure, hplace]
  cases (s.result? o t).value <;> rfl

end RuleSet

namespace Normalizer

/-- The normalizer with its rules under watch. -/
def watched (n : Normalizer) : Normalizer := { n with rules := n.rules.watched }

theorem value_step?_watched (n : Normalizer) (o : Origin) (t : Term) :
    (n.watched.step? o t).value = (n.step? o t).value :=
  n.settings.strategy.reduceFirst_congr n.rules.value_result?_watched t o

theorem countP_step?_watched (n : Normalizer) (o : Origin) (t : Term) :
    (n.watched.step? o t).events.countP Event.isRemark = (n.step? o t).value.isSome.toNat := by
  rw [← value_step?_watched]
  exact n.settings.strategy.countP_reduceFirst n.rules.countP_result?_watched t o

/-- A run under watch ends as without, and makes one remark for each step that
it finds, the one past the limit included. -/
theorem run_watched (n : Normalizer) (left : Nat) (o : Origin) (taken : Nat) (t : Term) :
    (n.watched.run o left taken t).value = (n.run o left taken t).value ∧
    taken + (n.watched.run o left taken t).events.countP Event.isRemark =
      match (n.run o left taken t).value with
      | .ok r => r.steps
      | .error _ => taken + left + 1 := by
  induction left generalizing o taken t with
  | zero =>
    have hstep := n.value_step?_watched (o.sub 0) t
    have hcount := n.countP_step?_watched (o.sub 0) t
    rw [run, run]
    simp only [Traced.value_bind, Traced.events_bind, List.countP_append, hstep, hcount]
    cases (n.step? (o.sub 0) t).value with
    | none => exact ⟨rfl, rfl⟩
    | some t' => exact ⟨rfl, rfl⟩
  | succ left ih =>
    have hstep := n.value_step?_watched (o.sub 0) t
    have hcount := n.countP_step?_watched (o.sub 0) t
    rw [run, run]
    simp only [Traced.value_bind, Traced.events_bind, List.countP_append, hstep, hcount]
    cases (n.step? (o.sub 0) t).value with
    | none => exact ⟨rfl, rfl⟩
    | some t' =>
      obtain ⟨hvalue, hremarks⟩ := ih (o.sub 1) (taken + 1) t'
      have hemit : [Event.stepTaken taken t t'].countP Event.isRemark = 0 := rfl
      refine ⟨hvalue, ?_⟩
      simp only [Option.isSome_some, Bool.toNat_true, Traced.events_bind, Traced.events_emit,
        List.countP_append, hemit, Nat.zero_add, Traced.value_bind]
      rw [← Nat.add_assoc, hremarks, Nat.add_right_comm taken 1 left]
      rfl

/-- Normalizing under watch makes one remark for each step that is found. -/
theorem normalize_watched (n : Normalizer) (o : Origin) (t : Term) :
    (n.watched.normalize o t).value = (n.normalize o t).value ∧
    (n.watched.normalize o t).remarks.length =
      match (n.normalize o t).value with
      | .ok r => r.steps
      | .error x => x.limit + 1 := by
  obtain ⟨hvalue, hcount⟩ := n.run_watched n.settings.maxSteps o 0 t
  refine ⟨hvalue, ?_⟩
  have hremarks : (n.watched.normalize o t).remarks.length =
      (n.watched.normalize o t).events.countP Event.isRemark :=
    List.countP_eq_length_filter.symm
  have hbudget : n.watched.normalize o t = n.watched.run o n.settings.maxSteps 0 t := rfl
  rw [Nat.zero_add, Nat.zero_add] at hcount
  rw [hremarks, hbudget, hcount, normalize]
  cases h : (n.run o n.settings.maxSteps 0 t).value with
  | ok r => rfl
  | error x =>
    obtain ⟨limit, u⟩ := x
    obtain ⟨rfl, -⟩ := (run_eq_error_iff _ _ _ _ _ _ _).1 h
    rfl

/-- **What normalization returns and what it costs.** It succeeds exactly with
the first term of its steps in which the rules match nothing, if there are no
more of them than the limit allows, and fails exactly with the term after as
many steps as the limit, if the rules still match something in it. The rules
give one result for each step, and one more on failure. Resuming a failed run
is the same as having had the larger limit. If the rules do not see places, all
of this holds up to places wherever the steps are taken. -/
theorem normalize_iff_steps (n : Normalizer) (o : Origin) (t : Term) :
    (∀ u s, (n.normalize o t).value = .ok ⟨u, s⟩ ↔
      s ≤ n.settings.maxSteps ∧ n.steps? o.turn s t = some u ∧ ¬ n.rules.Reducible u) ∧
    (∀ u limit, (n.normalize o t).value = .error ⟨limit, u⟩ ↔
      limit = n.settings.maxSteps ∧ n.steps? o.turn limit t = some u ∧ n.rules.Reducible u) ∧
    ((n.watched.normalize o t).value = (n.normalize o t).value ∧
      (n.watched.normalize o t).remarks.length =
        match (n.normalize o t).value with
        | .ok r => r.steps
        | .error x => x.limit + 1) ∧
    (∀ m, ((n.withBudget (n.settings.maxSteps + m)).normalize o t).value =
      match (n.normalize o t).value with
      | .ok r => .ok r
      | .error x =>
        resumed x.limit ((n.withBudget m).normalize (o.rest x.limit) x.term).value) ∧
    (n.rules.PlaceBlind →
      (∀ places k, (n.steps? places k t).map Term.unplaced =
        (n.steps? o.turn k t).map Term.unplaced) ∧
      ∀ m o', placeless ((n.withBudget (n.settings.maxSteps + m)).normalize o t).value =
        match (n.normalize o t).value with
        | .ok r => placeless (.ok r)
        | .error x => placeless (resumed x.limit ((n.withBudget m).normalize o' x.term).value)) := by
  refine ⟨n.normalize_eq_ok_iff o t, n.normalize_eq_error_iff o t, n.normalize_watched o t,
    fun m => n.normalize_add m o t, fun hn => ⟨fun places k => ?_, fun m o' => ?_⟩⟩
  · exact steps?_unplaced hn k places o.turn rfl
  · have hm : (n.withBudget m).rules.PlaceBlind := hn
    rw [n.normalize_add m o t]
    cases (n.normalize o t).value with
    | ok r => rfl
    | error x =>
      have hsame := normalize_unplaced hm (o.rest x.limit) o' (t := x.term) rfl
      show placeless (resumed _ _) = placeless (resumed _ _)
      rw [placeless_resumed, placeless_resumed, hsame]

/-- Takes a successor off, one step at most. -/
def peeling : Normalizer where
  rules := ⟨none, [TemplateRule.toRule default
    ⟨.seq default [.symbol "succ", .var (.named "x")], .var (.named "x")⟩]⟩
  settings := { maxSteps := 1 }

/-- Two successors around zero. -/
def two : Term := .seq default [.symbol "succ", .seq default [.symbol "succ", .symbol "zero"]]

/-- One step is not enough for two successors, and resuming for another one is,
wherever that step is taken. -/
theorem normalize_two :
    peeling.rules.PlaceBlind ∧
    (peeling.normalize default two).value =
      .error ⟨1, .seq default [.symbol "succ", .symbol "zero"]⟩ ∧
    placeless ((peeling.withBudget 2).normalize default two).value = .ok ⟨.symbol "zero", 2⟩ := by
  have hblind : peeling.rules.PlaceBlind := by
    refine RuleSet.template_placeBlind (a := default) (fun _ _ _ _ => rfl) fun l hl => ?_
    exact ⟨_, List.mem_singleton.1 hl⟩
  obtain ⟨-, herror, -, -, hplaces⟩ := normalize_iff_steps peeling default two
  have hend : (peeling.normalize default two).value =
      .error ⟨1, .seq default [.symbol "succ", .symbol "zero"]⟩ :=
    (herror _ _).2 ⟨rfl, rfl, (peeling.isSome_step? default _).1 rfl⟩
  have hrest : ((peeling.withBudget 1).normalize default
      (.seq default [.symbol "succ", .symbol "zero"])).value = .ok ⟨.symbol "zero", 1⟩ :=
    (normalize_eq_ok_iff _ _ _ _ _).2
      ⟨Nat.le_refl 1, rfl, (peeling.step?_eq_none_iff default _).1 rfl⟩
  refine ⟨hblind, hend, ((hplaces hblind).2 1 default).trans ?_⟩
  rw [hend]
  show placeless (resumed 1 _) = _
  rw [hrest]
  rfl

end Normalizer

end TermRules

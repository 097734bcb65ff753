/-
TermRules.Proofs.MatchingWalk — a match as one walk over a list of encounters.

Matching is a recursion that hands an environment from element to element and
from level to level. `encounters` flattens it: the positions at which pattern
and target are met together, in the order of the walk. `visit_eq_judgeAll`:
matching judges these encounters one after the other and stops at the first
that fails. Where all encounters fit, they are the positions of the pattern
(`encounters_eq_positions`), and only those of variables touch the environment:
`visit_ok_iff` leaves a list of meetings, each of a variable and a term.
-/
import TermRules.Matching
import TermRules.Proofs.Positions

namespace TermRules

/-- Whether a pattern and a target agree as far as can be seen without looking
into elements or at the environment: a sequence asks for a sequence of the same
length, an atom for an equal one, and a variable for nothing. -/
def Term.fits [OwnEquality] : Term → Term → Bool
  | .var _, _ => true
  | .seq _ ps, .seq _ ts => ps.length = ts.length
  | .seq _ _, _ => false
  | p, t => p == t

namespace Matching

/-! ## Encounters -/

/-- A position of the walk, with the pattern and the target that are met there. -/
structure Encounter where
  path : List Nat
  pattern : Term
  target : Term

/-- The encounter seen from a sequence that has it in its `i`-th element. -/
def Encounter.below (i : Nat) (x : Encounter) : Encounter := { x with path := i :: x.path }

mutual
/-- The positions of the walk of a pattern and a target, in its order. Elements
of sequences are met only when there are equally many. -/
def encounters : Term → Term → List Encounter
  | .seq o ps, .seq o' ts =>
    ⟨[], .seq o ps, .seq o' ts⟩ :: if ps.length = ts.length then encountersFrom 0 ps ts else []
  | p, t => [⟨[], p, t⟩]

/-- The positions below the elements of two sequences, from the `i`-th on. -/
def encountersFrom (i : Nat) : List Term → List Term → List Encounter
  | p :: ps, t :: ts => (encounters p t).map (Encounter.below i) ++ encountersFrom (i + 1) ps ts
  | _, _ => []
end

section Judgement

variable [OwnEquality]

/-- A variable meets a term: it asks for a term equal to its own if it is bound,
and else its filter for leave to be bound. -/
def meet (a : Acceptance) (v : Variable) (t : Term) (e : Environment) : Traced Attempt :=
  match e.get? v with
  | some bound => pure ⟨bound == t, e⟩
  | none => do
    if ← v.accepts a t then return ⟨true, e.push v t⟩ else return ⟨false, e⟩

theorem value_meet_of_bound {a : Acceptance} {v : Variable} {t b : Term} {e : Environment}
    (h : e.get? v = some b) : (meet a v t e).value = ⟨b == t, e⟩ := by
  rw [meet, h]
  rfl

theorem value_meet_of_unbound {a : Acceptance} {v : Variable} {t : Term} {e : Environment}
    (h : e.get? v = none) : (meet a v t e).value =
      if (v.accepts a t).value then ⟨true, e.push v t⟩ else ⟨false, e⟩ := by
  rw [meet, h]
  simp only [Traced.value_bind]
  split <;> rfl

/-- Judges one encounter. -/
def Encounter.judge (a : Acceptance) (x : Encounter) (e : Environment) : Traced Attempt :=
  match x.pattern with
  | .var v => meet a v x.target e
  | p => pure ⟨p.fits x.target, e⟩

/-- Judges encounters in order and stops at the first that fails. -/
def judgeAll (a : Acceptance) : List Encounter → Environment → Traced Attempt
  | [], e => pure ⟨true, e⟩
  | x :: xs, e => do
    let attempt ← x.judge a e
    if attempt.ok then judgeAll a xs attempt.env else return attempt

/-! ## Matching judges the encounters -/

theorem judgeAll_append (a : Acceptance) (xs ys : List Encounter) (e : Environment) :
    judgeAll a (xs ++ ys) e =
      (judgeAll a xs e >>= fun attempt =>
        if attempt.ok then judgeAll a ys attempt.env else pure attempt) := by
  induction xs generalizing e with
  | nil => simp [judgeAll]
  | cons x xs ih =>
    simp only [List.cons_append, judgeAll, bind_assoc]
    congr 1
    funext attempt
    split
    · exact ih attempt.env
    · simp [*]

/-- Where encounters are does not matter to how they are judged. -/
theorem judgeAll_below (a : Acceptance) (i : Nat) (xs : List Encounter) (e : Environment) :
    judgeAll a (xs.map (Encounter.below i)) e = judgeAll a xs e := by
  induction xs generalizing e with
  | nil => rfl
  | cons x xs ih =>
    rw [List.map_cons, judgeAll, judgeAll]
    congr 1
    funext attempt
    rw [ih]

theorem judgeAll_singleton (a : Acceptance) (x : Encounter) (e : Environment) :
    judgeAll a [x] e = x.judge a e := by
  have hend : ∀ attempt : Attempt,
      (if attempt.ok then judgeAll a [] attempt.env else pure attempt) =
        (pure attempt : Traced Attempt) := by
    intro attempt
    obtain ⟨ok, env⟩ := attempt
    cases ok <;> rfl
  simp only [judgeAll] at hend ⊢
  simp [hend]

mutual
/-- Matching is one walk over the encounters, with the same events. -/
theorem visit_eq_judgeAll (a : Acceptance) : ∀ (p t : Term) (e : Environment),
    visit a p t e = judgeAll a (encounters p t) e
  | .var v, t, e => by
    have hlist : encounters (.var v) t = [⟨[], .var v, t⟩] := by cases t <;> rfl
    rw [hlist, judgeAll_singleton, visit]
    rfl
  | .seq o ps, .seq o' ts, e => by
    rw [visit, encounters, judgeAll]
    simp only [Encounter.judge, Term.fits, pure_bind, decide_eq_true_eq]
    split
    · rename_i hlen
      exact visitAll_eq_judgeAll a ps ts hlen 0 e
    · rename_i hlen
      simp [hlen]
  | .seq _ _, .literal _, e | .seq _ _, .grounded _ _, e | .seq _ _, .boxed _ _, e
  | .seq _ _, .var _, e => by
    simp [encounters, judgeAll_singleton, visit, Encounter.judge, Term.fits]
  | .literal _, t, e | .grounded _ _, t, e | .boxed _ _, t, e => by
    simp [encounters, judgeAll_singleton, visit, Encounter.judge, Term.fits]

theorem visitAll_eq_judgeAll (a : Acceptance) : ∀ (ps ts : List Term), ps.length = ts.length →
    ∀ (i : Nat) (e : Environment), visitAll a ps ts e = judgeAll a (encountersFrom i ps ts) e
  | p :: ps, t :: ts, hlen, i, e => by
    have hlen' : ps.length = ts.length := by simpa using hlen
    rw [visitAll, encountersFrom, judgeAll_append, judgeAll_below, visit_eq_judgeAll a p t e]
    congr 1
    funext attempt
    rw [visitAll_eq_judgeAll a ps ts hlen' (i + 1) attempt.env]
  | [], [], _, _, _ => by simp [visitAll, encountersFrom, judgeAll]
  | [], _ :: _, hlen, _, _ | _ :: _, [], hlen, _, _ => by simp at hlen
end

end Judgement

/-! ## Encounters are positions of the pattern -/

mutual
/-- The walk meets positions of the pattern, in their order. -/
theorem encounters_sublist : ∀ p t : Term,
    ((encounters p t).map fun x => (x.path, x.pattern)).Sublist p.positions
  | .seq o ps, .seq o' ts => by
    rw [encounters, List.map_cons, Term.positions]
    refine List.Sublist.cons_cons _ ?_
    split
    · exact encountersFrom_sublist 0 ps ts
    · exact List.nil_sublist _
  | .seq _ _, .literal _ | .seq _ _, .grounded _ _ | .seq _ _, .boxed _ _ | .seq _ _, .var _ => by
    simp [encounters, Term.positions]
  | .literal _, t | .grounded _ _, t | .boxed _ _, t | .var _, t => by
    simp [encounters, Term.positions]

theorem encountersFrom_sublist : ∀ (i : Nat) (ps ts : List Term),
    ((encountersFrom i ps ts).map fun x => (x.path, x.pattern)).Sublist (Term.positionsFrom i ps)
  | i, p :: ps, t :: ts => by
    rw [encountersFrom, Term.positionsFrom, List.map_append, List.map_map]
    refine List.Sublist.append ?_ (encountersFrom_sublist (i + 1) ps ts)
    have hbelow := (encounters_sublist p t).map fun x => (i :: x.1, x.2)
    rwa [List.map_map] at hbelow
  | _, [], _ | _, _ :: _, [] => by simp [encountersFrom]
end

mutual
/-- What an encounter meets stands at its position of the target. -/
theorem at?_target : ∀ (p t : Term), ∀ x ∈ encounters p t, t.at? x.path = some x.target
  | .seq o ps, .seq o' ts, x, hx => by
    rw [encounters, List.mem_cons] at hx
    rcases hx with rfl | hx
    · rfl
    · split at hx
      · obtain ⟨j, rest, s, hpath, hitem, hat⟩ := at?_targetFrom 0 ps ts x hx
        rw [hpath, Nat.zero_add, Term.at?_seq_cons, hitem]
        exact hat
      · cases hx
  | .seq _ _, .literal _, x, hx | .seq _ _, .grounded _ _, x, hx | .seq _ _, .boxed _ _, x, hx
  | .seq _ _, .var _, x, hx => by
    rw [encounters, List.mem_singleton] at hx
    · subst hx
      simp
    · simp
  | .literal _, t, x, hx | .grounded _ _, t, x, hx | .boxed _ _, t, x, hx | .var _, t, x, hx => by
    rw [encounters, List.mem_singleton] at hx
    · subst hx
      simp
    · simp

theorem at?_targetFrom : ∀ (i : Nat) (ps ts : List Term), ∀ x ∈ encountersFrom i ps ts,
    ∃ j rest s, x.path = (i + j) :: rest ∧ ts[j]? = some s ∧ s.at? rest = some x.target
  | i, p :: ps, t :: ts, x, hx => by
    rw [encountersFrom, List.mem_append] at hx
    rcases hx with hx | hx
    · obtain ⟨y, hy, rfl⟩ := List.mem_map.1 hx
      exact ⟨0, y.path, t, rfl, rfl, at?_target p t y hy⟩
    · obtain ⟨j, rest, s, hpath, hitem, hat⟩ := at?_targetFrom (i + 1) ps ts x hx
      exact ⟨j + 1, rest, s, by rw [hpath]; congr 1; omega, hitem, hat⟩
  | _, [], _, x, hx | _, _ :: _, [], x, hx => by simp [encountersFrom] at hx
end

variable [OwnEquality]

/-- Whether the two sides of an encounter fit. -/
def Encounter.fits (x : Encounter) : Bool := x.pattern.fits x.target

mutual
/-- Where everything fits the walk leaves no position of the pattern out. -/
theorem encounters_eq_positions : ∀ p t : Term, (∀ x ∈ encounters p t, x.fits = true) →
    ((encounters p t).map fun x => (x.path, x.pattern)) = p.positions
  | .seq o ps, .seq o' ts, h => by
    have hlen : ps.length = ts.length := by
      simpa [Encounter.fits, Term.fits] using h ⟨[], .seq o ps, .seq o' ts⟩ (by simp [encounters])
    have hbelow : ∀ x ∈ encountersFrom 0 ps ts, x.fits = true :=
      fun x hx => h x (by simp [encounters, hlen, hx])
    rw [encounters, List.map_cons, Term.positions, if_pos hlen,
      encountersFrom_eq_positionsFrom 0 ps ts hlen hbelow]
  | .seq _ _, .literal _, h | .seq _ _, .grounded _ _, h | .seq _ _, .boxed _ _, h
  | .seq _ _, .var _, h => by
    simp [encounters, Encounter.fits, Term.fits] at h
  | .literal _, t, _ | .grounded _ _, t, _ | .boxed _ _, t, _ | .var _, t, _ => by
    simp [encounters, Term.positions]

theorem encountersFrom_eq_positionsFrom : ∀ (i : Nat) (ps ts : List Term),
    ps.length = ts.length → (∀ x ∈ encountersFrom i ps ts, x.fits = true) →
    ((encountersFrom i ps ts).map fun x => (x.path, x.pattern)) = Term.positionsFrom i ps
  | i, p :: ps, t :: ts, hlen, h => by
    have hhead : ∀ x ∈ encounters p t, x.fits = true := by
      intro x hx
      have hmem := List.mem_append_left (encountersFrom (i + 1) ps ts)
        (List.mem_map_of_mem (f := Encounter.below i) hx)
      exact h (x.below i) hmem
    have htail : ∀ x ∈ encountersFrom (i + 1) ps ts, x.fits = true :=
      fun x hx => h x (List.mem_append_right _ hx)
    rw [encountersFrom, Term.positionsFrom, List.map_append, List.map_map,
      encountersFrom_eq_positionsFrom (i + 1) ps ts (by simpa using hlen) htail,
      ← encounters_eq_positions p t hhead, List.map_map]
    rfl
  | _, [], [], _, _ => rfl
  | _, [], _ :: _, hlen, _ | _, _ :: _, [], hlen, _ => by simp at hlen
end

/-- Everything fits in the walk exactly when it does at every position of the
pattern. -/
theorem fits_iff (p t : Term) : (∀ x ∈ encounters p t, x.fits = true) ↔
    ∀ path q, p.at? path = some q → ∃ u, t.at? path = some u ∧ q.fits u = true := by
  refine ⟨?_, ?_⟩
  · intro h path q hq
    have hmem := (Term.mem_positions p).2 hq
    rw [← encounters_eq_positions p t h] at hmem
    obtain ⟨x, hx, heq⟩ := List.mem_map.1 hmem
    cases heq
    exact ⟨x.target, at?_target p t x hx, h x hx⟩
  · intro h x hx
    have hmem := (encounters_sublist p t).subset (List.mem_map_of_mem hx)
    obtain ⟨u, hu, hfits⟩ := h x.path x.pattern ((Term.mem_positions p).1 hmem)
    rw [at?_target p t x hx] at hu
    cases hu
    exact hfits

/-! ## Meetings -/

/-- A variable of the pattern, where it occurs, and the term that it meets. -/
structure Meeting where
  path : List Nat
  var : Variable
  target : Term
deriving DecidableEq

/-- The meetings among encounters. -/
def meetings (xs : List Encounter) : List Meeting :=
  xs.filterMap fun x => x.pattern.var?.map fun v => ⟨x.path, v, x.target⟩

/-- Variables meet their terms in order, until one of them refuses. -/
def meetAll (a : Acceptance) : List Meeting → Environment → Traced Attempt
  | [], e => pure ⟨true, e⟩
  | m :: ms, e => do
    let attempt ← meet a m.var m.target e
    if attempt.ok then meetAll a ms attempt.env else return attempt

/-- An encounter that is no meeting is judged by whether it fits. -/
theorem judge_of_var?_eq_none {x : Encounter} (h : x.pattern.var? = none) (a : Acceptance)
    (e : Environment) : x.judge a e = pure ⟨x.fits, e⟩ := by
  obtain ⟨path, p, t⟩ := x
  cases p with
  | var v => cases h
  | _ => rfl

/-- Where everything fits only the meetings are left to judge. -/
theorem judgeAll_eq_meetAll (a : Acceptance) {xs : List Encounter}
    (h : ∀ x ∈ xs, x.fits = true) (e : Environment) :
    judgeAll a xs e = meetAll a (meetings xs) e := by
  induction xs generalizing e with
  | nil => rfl
  | cons x xs ih =>
    have hxs : ∀ y ∈ xs, y.fits = true := fun y hy => h y (List.mem_cons_of_mem x hy)
    cases hvar : x.pattern.var? with
    | none =>
      have hlist : meetings (x :: xs) = meetings xs := by simp [meetings, hvar]
      rw [judgeAll, judge_of_var?_eq_none hvar, pure_bind, h x List.mem_cons_self, hlist]
      exact ih hxs e
    | some v =>
      have hlist : meetings (x :: xs) = ⟨x.path, v, x.target⟩ :: meetings xs := by
        simp [meetings, hvar]
      have hjudge : x.judge a e = meet a v x.target e := by
        rw [Encounter.judge, Term.var?_eq_some_iff.1 hvar]
      rw [judgeAll, hlist, meetAll, hjudge]
      congr 1
      funext attempt
      rw [ih hxs]

/-- Encounters judged without a failure fit. -/
theorem fits_of_judgeAll {a : Acceptance} {xs : List Encounter} {e : Environment}
    (h : (judgeAll a xs e).value.ok = true) : ∀ x ∈ xs, x.fits = true := by
  induction xs generalizing e with
  | nil => simp
  | cons x xs ih =>
    rw [judgeAll, Traced.value_bind] at h
    split at h
    · rename_i hok
      rintro y (_ | ⟨_, hy⟩)
      · cases hvar : x.pattern.var? with
        | none =>
          rw [judge_of_var?_eq_none hvar] at hok
          exact hok
        | some v => simp [Encounter.fits, Term.var?_eq_some_iff.1 hvar, Term.fits]
      · exact ih h y hy
    · rename_i hfail
      exact absurd h hfail

/-- **Matching is agreement of meetings.** A match succeeds exactly when
everything fits and the variables take the terms that they meet, in order. -/
theorem visit_ok_iff (a : Acceptance) (p t : Term) (e : Environment) :
    (visit a p t e).value.ok = true ↔
      (∀ x ∈ encounters p t, x.fits = true) ∧
        (meetAll a (meetings (encounters p t)) e).value.ok = true := by
  rw [visit_eq_judgeAll]
  refine ⟨?_, ?_⟩
  · intro h
    have hfits := fits_of_judgeAll h
    exact ⟨hfits, judgeAll_eq_meetAll a hfits e ▸ h⟩
  · intro hboth
    obtain ⟨hfits, h⟩ := hboth
    rw [judgeAll_eq_meetAll a hfits e]
    exact h

/-- Where everything fits a match is the run of the meetings. -/
theorem visit_eq_meetAll (a : Acceptance) {p t : Term}
    (h : ∀ x ∈ encounters p t, x.fits = true) (e : Environment) :
    visit a p t e = meetAll a (meetings (encounters p t)) e := by
  rw [visit_eq_judgeAll, judgeAll_eq_meetAll a h]

end Matching

end TermRules

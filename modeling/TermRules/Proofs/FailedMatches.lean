/-
TermRules.Proofs.FailedMatches — what a match that fails leaves behind.

A match that fails stops at the first position at which something is wrong, and
what it bound on its way there stays. `FailsAt` says what can be wrong at a
position without running the match: a filter rejects, a bound value differs, or
the two sides differ as atoms, in kind or in length. `into_failed`: a match
fails exactly if there is such a position, and then it leaves the given entries
followed by those of the variables whose leftmost occurrence is read before the
first one.

The walk up to a failure is itself a walk without one, so agreement of meetings
says what it bound. What has to be shown is that this walk has left out
no position that is read earlier (`encounters_upTo`): it enters two sequences
only once their lengths have been compared, hence a difference in length fails
before any element has bound anything.
-/
import TermRules.Proofs.MatchingTheorems

namespace TermRules

namespace Term

/-! ## Before a position -/

/-- The occurrences of variables that are read before a position. -/
def occurrencesBefore (p : Term) (path : List Nat) : List (List Nat × Variable) :=
  p.occurrences.filter fun x => Precedes x.1 path

/-- The leftmost occurrence of a variable is the leftmost before a position too,
if it is there at all. -/
theorem find?_occurrencesBefore {p : Term} {path : List Nat} {v : Variable}
    {x : List Nat × Variable} :
    (p.occurrencesBefore path).find? (fun y => y.2 == v) = some x ↔
      p.firstOccurrence? v = some x ∧ Precedes x.1 path := by
  simp only [occurrencesBefore, firstOccurrence?, List.find?_filter,
    List.find?_eq_some_iff_append, decide_eq_true_eq]
  refine ⟨?_, ?_⟩
  · rintro ⟨⟨hpath, hid⟩, before, after, hsplit, hbefore⟩
    refine ⟨⟨hid, before, after, hsplit, fun y hy => ?_⟩, hpath⟩
    have hyx : Precedes y.1 x.1 :=
      (List.pairwise_append.1 (hsplit ▸ p.occurrences_sorted)).2.2 y hy x List.mem_cons_self
    simpa [precedes_trans hyx hpath] using hbefore y hy
  · rintro ⟨⟨hid, before, after, hsplit, hbefore⟩, hpath⟩
    refine ⟨⟨hpath, hid⟩, before, after, hsplit, fun y hy => ?_⟩
    have hother := hbefore y hy
    rw [Bool.not_eq_true'] at hother
    simp [hother]

/-! ## Clashes -/

/-- A pattern and a target that cannot match, whatever is bound. -/
inductive Clash [OwnEquality] : Term → Term → Prop where
  /-- Two atoms that differ. -/
  | atoms {q u : Term} (left : q.isAtom = true) (right : u.isAtom = true)
      (differ : (q == u) = false) : Clash q u
  /-- An atom or a sequence meets something of another kind. -/
  | kinds {q u : Term} (fixed : q.var? = none)
      (differ : q.isAtom ≠ u.isAtom ∨ q.isSeq ≠ u.isSeq) : Clash q u
  /-- Two sequences of different lengths. -/
  | lengths {o o' : Origin} {ps ts : List Term} (differ : ps.length ≠ ts.length) :
      Clash (.seq o ps) (.seq o' ts)

theorem clash_iff [OwnEquality] {q u : Term} : q.Clash u ↔ q.fits u = false := by
  refine ⟨?_, ?_⟩
  · intro h
    cases h with
    | lengths differ => simpa [fits] using differ
    | atoms left right differ =>
      cases q <;> first | exact differ | cases left
    | kinds fixed differ =>
      cases q <;> cases u <;> simp_all [fits, isAtom, isSeq, var?, beq_def, Term.beq]
  · intro h
    cases hatom : q.isAtom && u.isAtom with
    | true =>
      obtain ⟨hq, hu⟩ := Bool.and_eq_true_iff.1 hatom
      refine .atoms hq hu ?_
      cases q <;> first | exact h | cases hq
    | false =>
      cases q with
      | var v => cases h
      | seq o ps =>
        cases u with
        | seq o' ts => exact .lengths (by simpa [fits] using h)
        | _ => exact .kinds rfl (.inr fun hsame => Bool.noConfusion hsame)
      | _ => exact .kinds rfl (.inl fun hsame => Bool.noConfusion (hsame.trans hatom))

end Term

namespace Matching

/-! ## Where the walk stops -/

theorem env_judge_of_not_ok [OwnEquality] {a : Acceptance} {x : Encounter} {e : Environment}
    (h : (x.judge a e).value.ok = false) : (x.judge a e).value.env = e := by
  cases hvar : x.pattern.var? with
  | none => rw [judge_of_var?_eq_none hvar, Traced.value_pure]
  | some v =>
    rw [Encounter.judge, Term.var?_eq_some_iff.1 hvar] at h ⊢
    cases hget : e.get? v with
    | some b => rw [value_meet_of_bound hget]
    | none =>
      rw [value_meet_of_unbound hget] at h ⊢
      split at h
      · cases h
      · rename_i hrejects
        rw [if_neg hrejects]

/-- A run that fails has judged the encounters before some encounter without a
failure, and then that one, which changed nothing. -/
theorem judgeAll_stops [OwnEquality] {a : Acceptance} {xs : List Encounter} {e : Environment}
    (h : (judgeAll a xs e).value.ok = false) :
    ∃ before x after, xs = before ++ x :: after ∧ (judgeAll a before e).value.ok = true ∧
      (x.judge a (judgeAll a before e).value.env).value.ok = false ∧
      (judgeAll a xs e).value.env = (judgeAll a before e).value.env := by
  induction xs generalizing e with
  | nil => cases h
  | cons x xs ih =>
    rw [judgeAll, Traced.value_bind] at h
    cases hok : (x.judge a e).value.ok with
    | true =>
      rw [if_pos hok] at h
      obtain ⟨before, y, after, hsplit, hbefore, hy, henv⟩ := ih h
      have hrun : ∀ ys, (judgeAll a (x :: ys) e).value =
          (judgeAll a ys (x.judge a e).value.env).value := by
        intro ys
        rw [judgeAll, Traced.value_bind, if_pos hok]
      refine ⟨x :: before, y, after, by rw [hsplit, List.cons_append], ?_, ?_, ?_⟩
      · rw [hrun]
        exact hbefore
      · rw [hrun]
        exact hy
      · rw [hrun, hrun]
        exact henv
    | false =>
      have hrun : (judgeAll a (x :: xs) e).value = (x.judge a e).value := by
        rw [judgeAll, Traced.value_bind, hok]
        rfl
      refine ⟨[], x, xs, rfl, rfl, hok, ?_⟩
      rw [hrun]
      exact env_judge_of_not_ok hok

mutual
/-- A walk in which everything fits so far has met every position of the
pattern up to where it is. -/
theorem encounters_upTo [OwnEquality] : ∀ (p t : Term) {before after : List Encounter}
    {x : Encounter}, encounters p t = before ++ x :: after → (∀ y ∈ before, y.fits = true) →
    ((before ++ [x]).map fun y => (y.path, y.pattern)) <+: p.positions
  | .seq o ps, .seq o' ts, [], after, x, hsplit, _ => by
    rw [encounters, List.nil_append, List.cons.injEq] at hsplit
    rw [← hsplit.1]
    exact ⟨_, rfl⟩
  | .seq o ps, .seq o' ts, y :: before, after, x, hsplit, hfits => by
    rw [encounters, List.cons_append, List.cons.injEq] at hsplit
    obtain ⟨rfl, hsplit⟩ := hsplit
    have hlen : ps.length = ts.length := by
      simpa [Encounter.fits, Term.fits] using hfits _ List.mem_cons_self
    rw [if_pos hlen] at hsplit
    rw [List.cons_append, List.map_cons, Term.positions]
    refine List.cons_prefix_cons.2 ⟨rfl, ?_⟩
    exact encountersFrom_upTo 0 ps ts hsplit fun z hz => hfits z (List.mem_cons_of_mem _ hz)
  | .seq _ _, .literal _, before, _, _, hsplit, _ | .seq _ _, .grounded _ _, before, _, _, hsplit, _
  | .seq _ _, .boxed _ _, before, _, _, hsplit, _ | .seq _ _, .var _, before, _, _, hsplit, _
  | .literal _, _, before, _, _, hsplit, _ | .grounded _ _, _, before, _, _, hsplit, _
  | .boxed _ _, _, before, _, _, hsplit, _ | .var _, _, before, _, _, hsplit, _ => by
    cases before with
    | nil =>
      simp only [encounters, List.nil_append, List.cons.injEq] at hsplit
      rw [← hsplit.1]
      exact ⟨_, rfl⟩
    | cons y before => simp [encounters] at hsplit

theorem encountersFrom_upTo [OwnEquality] : ∀ (i : Nat) (ps ts : List Term)
    {before after : List Encounter} {x : Encounter}, encountersFrom i ps ts = before ++ x :: after →
    (∀ y ∈ before, y.fits = true) →
    ((before ++ [x]).map fun y => (y.path, y.pattern)) <+: Term.positionsFrom i ps
  | i, p :: ps, t :: ts, before, after, x, hsplit, hfits => by
    rw [encountersFrom] at hsplit
    rw [Term.positionsFrom]
    -- The walk is past the first element, or else it is still inside of it.
    have hpast : ∀ more, before = (encounters p t).map (Encounter.below i) ++ more →
        encountersFrom (i + 1) ps ts = more ++ x :: after →
        ((before ++ [x]).map fun y => (y.path, y.pattern)) <+:
          p.positions.map (fun y => (i :: y.1, y.2)) ++ Term.positionsFrom (i + 1) ps := by
      rintro more rfl hmore
      have hhead : ∀ y ∈ encounters p t, y.fits = true := fun y hy =>
        hfits (y.below i) (List.mem_append_left _ (List.mem_map_of_mem hy))
      have hrest := encountersFrom_upTo (i + 1) ps ts hmore
        fun y hy => hfits y (List.mem_append_right _ hy)
      rw [← encounters_eq_positions p t hhead, List.append_assoc, List.map_append, List.map_map,
        List.map_map]
      exact (List.prefix_append_right_inj _).2 hrest
    rcases List.append_eq_append_iff.1 hsplit with ⟨more, hbefore, hmore⟩ | ⟨inside, hfirst, hrest⟩
    · exact hpast more hbefore hmore
    · cases inside with
      | nil =>
        rw [List.append_nil] at hfirst
        exact hpast [] (by rw [hfirst, List.append_nil]) hrest.symm
      | cons y inside =>
        rw [List.cons_append, List.cons.injEq] at hrest
        obtain ⟨rfl, -⟩ := hrest
        obtain ⟨before', tail, hsplit', rfl, htail⟩ := List.map_eq_append_iff.1 hfirst
        obtain ⟨z, after', rfl, rfl, -⟩ := List.map_eq_cons_iff.1 htail
        have hin := encounters_upTo p t hsplit'
          fun w hw => hfits (w.below i) (List.mem_map_of_mem hw)
        have hbelow := hin.map fun w : List Nat × Term => (i :: w.1, w.2)
        rw [List.map_map] at hbelow
        rw [← List.map_singleton, ← List.map_append, List.map_map]
        exact hbelow.trans (List.prefix_append _ _)
  | _, [], _, _, _, _, hsplit, _ | _, _ :: _, [], _, _, _, hsplit, _ => by
    simp [encountersFrom] at hsplit
end

/-- What variables are bound to after their meetings: what they were bound to
before, else what they met first. -/
theorem get?_meetAll [OwnEquality] {a : Acceptance} {ms : List Meeting} {e : Environment}
    (h : (meetAll a ms e).value.ok = true) (v : Variable) :
    (meetAll a ms e).value.env.get? v =
      (e.get? v).or ((firstMeeting? ms v).map (·.target)) := by
  induction ms generalizing e with
  | nil => simp [meetAll, firstMeeting?]
  | cons m ms ih =>
    rw [meetAll, Traced.value_bind] at h ⊢
    rw [firstMeeting?_cons]
    split at h
    case isFalse hrefuses => exact absurd h hrefuses
    case isTrue htakes =>
      rw [if_pos htakes, ih h]
      cases hb : e.get? m.var with
      | some b =>
        rw [value_meet_of_bound hb]
        split
        · rename_i hid
          rw [← e.get?_congr hid, hb, Option.some_or, Option.some_or]
        · rfl
      | none =>
        rw [value_meet_of_unbound hb] at htakes ⊢
        split at htakes
        · rename_i haccepts
          rw [if_pos haccepts, Environment.get?_push hb]
          split
          · rename_i hid
            rw [← e.get?_congr hid, hb, Option.some_or, Option.none_or, Option.map_some]
          · rfl
        · cases htakes

/-- A match fails at an encounter: those before it hold, this one does not, and
the environment is what they have made of it. -/
structure StopsAt [OwnEquality] (a : Acceptance) (p t : Term) (e : Environment)
    (before : List Encounter) (x : Encounter) : Prop where
  split : ∃ after, encounters p t = before ++ x :: after
  holds : (judgeAll a before e).value.ok = true
  fails : (x.judge a (judgeAll a before e).value.env).value.ok = false
  env : (into a p t e).value.env = (judgeAll a before e).value.env

theorem exists_stopsAt [OwnEquality] {a : Acceptance} {p t : Term} {e : Environment}
    (h : (into a p t e).value.ok = false) : ∃ before x, StopsAt a p t e before x := by
  have hvisit : (into a p t e).value = (judgeAll a (encounters p t) e).value := by
    rw [← visit_eq_judgeAll]
    rfl
  rw [hvisit] at h
  obtain ⟨before, x, after, hsplit, hholds, hfails, henv⟩ := judgeAll_stops h
  exact ⟨before, x, ⟨after, hsplit⟩, hholds, hfails, hvisit ▸ henv⟩

namespace StopsAt

variable [OwnEquality] {a : Acceptance} {p t : Term} {e : Environment} {before : List Encounter}
  {x : Encounter}

theorem fits (h : StopsAt a p t e before x) : ∀ y ∈ before, y.fits = true :=
  fits_of_judgeAll h.holds

theorem positions_eq (h : StopsAt a p t e before x) : ∃ rest, p.positions =
    before.map (fun y => (y.path, y.pattern)) ++ (x.path, x.pattern) :: rest := by
  obtain ⟨after, hsplit⟩ := h.split
  obtain ⟨rest, hrest⟩ := encounters_upTo p t hsplit h.fits
  exact ⟨rest, by rw [← hrest]; simp⟩

theorem at?_pattern (h : StopsAt a p t e before x) : p.at? x.path = some x.pattern := by
  obtain ⟨rest, hrest⟩ := h.positions_eq
  exact (p.mem_positions).1 (by rw [hrest]; simp)

theorem at?_target (h : StopsAt a p t e before x) : t.at? x.path = some x.target := by
  obtain ⟨after, hsplit⟩ := h.split
  exact Matching.at?_target p t x (by rw [hsplit]; simp)

/-- Whatever is read before the failing position has been met. -/
theorem mem_before (h : StopsAt a p t e before x) {other : List Nat} {q : Term}
    (hat : p.at? other = some q) (hother : Term.Precedes other x.path) :
    ∃ u, t.at? other = some u ∧ ⟨other, q, u⟩ ∈ before := by
  obtain ⟨after, hsplit⟩ := h.split
  obtain ⟨rest, hrest⟩ := h.positions_eq
  have hmem := (p.mem_positions).2 hat
  have hsorted := p.positions_sorted
  rw [hrest] at hmem hsorted
  rcases List.mem_append.1 hmem with hmem | hmem
  · obtain ⟨y, hy, heq⟩ := List.mem_map.1 hmem
    cases heq
    exact ⟨y.target, Matching.at?_target p t y (by rw [hsplit]; simp [hy]), hy⟩
  · have htail := (List.pairwise_append.1 hsorted).2.1
    rcases List.mem_cons.1 hmem with heq | hmem
    · cases heq
      exact absurd hother (Term.precedes_irrefl x.path)
    · exact absurd hother (Term.precedes_asymm ((List.pairwise_cons.1 htail).1 _ hmem))

theorem mem_meetings (h : StopsAt a p t e before x) {other : List Nat} {v : Variable} {u : Term}
    (hat : p.at? other = some (.var v)) (hother : Term.Precedes other x.path)
    (hu : t.at? other = some u) : ⟨other, v, u⟩ ∈ meetings before := by
  obtain ⟨u', hu', hmem⟩ := h.mem_before hat hother
  obtain rfl := Option.some.inj (hu.symm.trans hu')
  exact List.mem_filterMap.2 ⟨_, hmem, rfl⟩

/-- The variables met on the way are those that occur before the failing
position. -/
theorem meetings_eq (h : StopsAt a p t e before x) :
    meetings before = (p.occurrencesBefore x.path).map (meetingAt t) := by
  obtain ⟨after, hsplit⟩ := h.split
  obtain ⟨rest, hrest⟩ := h.positions_eq
  have hsorted := p.positions_sorted
  rw [hrest] at hsorted
  obtain ⟨-, htail, hbefore⟩ := List.pairwise_append.1 hsorted
  have hlist : p.occurrencesBefore x.path =
      before.filterMap fun y => y.pattern.var?.map fun v => (y.path, v) := by
    rw [Term.occurrencesBefore, Term.occurrences, hrest, List.filterMap_append, List.filter_append,
      List.filterMap_map, List.filter_eq_self.2, List.filter_eq_nil_iff.2, List.append_nil]
    · rfl
    · intro z hz
      obtain ⟨y, hy, hyz⟩ := List.mem_filterMap.1 hz
      obtain ⟨v, -, rfl⟩ := Option.map_eq_some_iff.1 hyz
      rw [decide_eq_true_eq]
      rcases List.mem_cons.1 hy with rfl | hy
      · exact Term.precedes_irrefl x.path
      · exact Term.precedes_asymm ((List.pairwise_cons.1 htail).1 y hy)
    · intro z hz
      obtain ⟨y, hy, hyz⟩ := List.mem_filterMap.1 hz
      obtain ⟨v, -, rfl⟩ := Option.map_eq_some_iff.1 hyz
      rw [decide_eq_true_eq]
      exact hbefore _ (List.mem_map_of_mem hy) _ List.mem_cons_self
  rw [hlist, List.map_filterMap, meetings]
  refine List.filterMap_congr fun y hy => ?_
  have hmet : t.met y.path = y.target :=
    Term.met_of_at? (Matching.at?_target p t y (by rw [hsplit]; simp [hy]))
  simp [Option.map_map, Function.comp_def, meetingAt, hmet]

theorem nodup_meetings (h : StopsAt a p t e before x) : (meetings before).Nodup := by
  rw [h.meetings_eq]
  exact (Matching.nodup_meetings p t).sublist (List.filter_sublist.map _)

/-- What a variable meets first on the way it meets at its leftmost occurrence. -/
theorem firstMeeting?_eq_some_iff (h : StopsAt a p t e before x) {v : Variable} {m : Meeting} :
    firstMeeting? (meetings before) v = some m ↔
      ∃ y, p.firstOccurrence? v = some y ∧ Term.Precedes y.1 x.path ∧ meetingAt t y = m := by
  rw [h.meetings_eq, firstMeeting?, List.find?_map, Option.map_eq_some_iff]
  refine exists_congr fun y => ?_
  rw [← and_assoc, ← Term.find?_occurrencesBefore]
  rfl

theorem holds_meetAll (h : StopsAt a p t e before x) :
    (meetAll a (meetings before) e).value.ok = true := by
  rw [← judgeAll_eq_meetAll a h.fits]
  exact h.holds

/-- Up to the failing position the meetings agree. -/
theorem agree (h : StopsAt a p t e before x) : Agree a e (meetings before) :=
  (meetAll_spec a _ h.nodup_meetings e).1.1 h.holds_meetAll

/-- The meetings that bind on the way are those at the leftmost occurrences. -/
theorem binding_eq (h : StopsAt a p t e before x) : binding e (meetings before) =
    ((p.binders e).filter fun y => Term.Precedes y.1 x.path).map (meetingAt t) := by
  have hfirst : ∀ y, Term.Precedes y.1 x.path →
      (firstMeeting? (meetings before) y.2 = some (meetingAt t y) ↔
        p.firstOccurrence? y.2 = some y) := by
    intro y hy
    rw [h.firstMeeting?_eq_some_iff]
    refine ⟨?_, fun hp => ⟨y, hp, hy, rfl⟩⟩
    rintro ⟨z, hz, -, heq⟩
    exact meetingAt_inj.1 heq ▸ hz
  have hfilter : binding e (meetings before) = ((p.occurrencesBefore x.path).filter fun y =>
      (e.get? y.2).isNone && decide (firstMeeting? (meetings before) y.2 = some (meetingAt t y))).map
        (meetingAt t) := by
    refine (congrArg (List.filter _) h.meetings_eq).trans ?_
    rw [List.filter_map]
    rfl
  rw [hfilter, Term.binders, Term.occurrencesBefore, List.filter_filter, List.filter_filter]
  congr 1
  refine List.filter_congr fun y _ => ?_
  by_cases hy : Term.Precedes y.1 x.path
  · simp [hy, hfirst y hy]
  · simp [hy]

/-- What a match that failed has bound. -/
theorem entries_eq (h : StopsAt a p t e before x) : (into a p t e).value.env.entries =
    e.entries ++ ((p.binders e).filter fun y => Term.Precedes y.1 x.path).map
      fun y => (y.2, t.met y.1) := by
  rw [h.env, judgeAll_eq_meetAll a h.fits,
    (meetAll_spec a _ h.nodup_meetings e).2 h.agree, h.binding_eq, List.map_map]
  rfl

/-- What variables are bound to where a match fails. -/
theorem get?_env (h : StopsAt a p t e before x) (v : Variable) :
    (judgeAll a before e).value.env.get? v =
      (e.get? v).or ((firstMeeting? (meetings before) v).map (·.target)) := by
  rw [judgeAll_eq_meetAll a h.fits]
  exact get?_meetAll h.holds_meetAll v

end StopsAt

/-! ## What can be wrong at a position -/

/-- Why a match cannot get past a position of its pattern. -/
inductive FailsAt [OwnEquality] (a : Acceptance) (p t : Term) (e : Environment)
    (path : List Nat) : Prop where
  /-- The filter of an unbound variable rejects what its leftmost occurrence meets. -/
  | rejected {v : Variable} {u : Term} (first : p.firstOccurrence? v = some (path, v))
      (unbound : e.get? v = none) (met : t.at? path = some u)
      (rejects : (v.accepts a u).value = false)
  /-- A variable that was bound before meets another term than its own. -/
  | bound {v : Variable} {b u : Term} (here : p.at? path = some (.var v))
      (given : e.get? v = some b) (met : t.at? path = some u) (differ : (b == u) = false)
  /-- A variable meets another term than at its leftmost occurrence, which bound it. -/
  | same {v w : Variable} {first : List Nat} {u u' : Term} (here : p.at? path = some (.var v))
      (unbound : e.get? v = none) (leftmost : p.firstOccurrence? v = some (first, w))
      (later : first ≠ path) (bound : t.at? first = some u) (met : t.at? path = some u')
      (differ : (u == u') = false)
  /-- The two sides cannot match. -/
  | clash {q u : Term} (here : p.at? path = some q) (met : t.at? path = some u)
      (differ : q.Clash u)

/-- The first position, in the order of reading, that a match cannot get past. -/
structure FirstFailure [OwnEquality] (a : Acceptance) (p t : Term) (e : Environment)
    (path : List Nat) : Prop where
  fails : FailsAt a p t e path
  first : ∀ other, Term.Precedes other path → ¬ FailsAt a p t e other

section Failures

variable [OwnEquality] {a : Acceptance} {p t : Term} {e : Environment}

/-- No two positions are the first failure. -/
theorem FirstFailure.unique {path other : List Nat} (h : FirstFailure a p t e path)
    (h' : FirstFailure a p t e other) : path = other := by
  rcases Term.precedes_total path other with hlt | heq | hgt
  · exact absurd h.fails (h'.first path hlt)
  · exact heq
  · exact absurd h'.fails (h.first other hgt)

theorem FailsAt.not_matches {path : List Nat} (h : FailsAt a p t e path) :
    ¬ Matches a p t e := by
  intro hm
  cases h with
  | rejected first unbound met rejects =>
    obtain ⟨u, hu, haccepts⟩ := hm.accepted _ _ first unbound
    obtain rfl := Option.some.inj (met.symm.trans hu)
    cases rejects.symm.trans haccepts
  | bound here given met differ =>
    obtain ⟨u, hu, heq⟩ := hm.bound _ _ _ here given
    obtain rfl := Option.some.inj (met.symm.trans hu)
    cases differ.symm.trans heq
  | @same v w first _ _ here unbound leftmost later bound met differ =>
    have hid : w.id = v.id := (Term.firstOccurrence?_eq_some_iff.1 leftmost).2.1
    obtain ⟨u, u', hu, hu', heq⟩ := hm.same first w path v
      (p.firstOccurrence?_congr hid ▸ leftmost) (e.get?_congr hid ▸ unbound) here hid.symm
      later.symm
    obtain rfl := Option.some.inj (bound.symm.trans hu)
    obtain rfl := Option.some.inj (met.symm.trans hu')
    cases differ.symm.trans heq
  | clash here met differ =>
    obtain ⟨u, hu, hfits⟩ := hm.fits path _ here
    obtain rfl := Option.some.inj (met.symm.trans hu)
    cases (Term.clash_iff.1 differ).symm.trans hfits

namespace StopsAt

variable {before : List Encounter} {x : Encounter}

/-- Where a match stops something is wrong. -/
theorem failsAt (h : StopsAt a p t e before x) : FailsAt a p t e x.path := by
  have hfails := h.fails
  cases hvar : x.pattern.var? with
  | none =>
    rw [judge_of_var?_eq_none hvar] at hfails
    exact .clash h.at?_pattern h.at?_target (Term.clash_iff.2 hfails)
  | some v =>
    have here : p.at? x.path = some (.var v) := by
      rw [h.at?_pattern, Term.var?_eq_some_iff.1 hvar]
    rw [Encounter.judge, Term.var?_eq_some_iff.1 hvar] at hfails
    have hknown := h.get?_env v
    cases hget : (judgeAll a before e).value.env.get? v with
    | some b =>
      rw [value_meet_of_bound hget] at hfails
      rw [hget] at hknown
      -- It was bound from the outset or on the way.
      rcases Option.or_eq_some_iff.1 hknown.symm with given | ⟨unbound, hfirst⟩
      · exact .bound here given h.at?_target hfails
      · obtain ⟨m, hm, rfl⟩ := Option.map_eq_some_iff.1 hfirst
        obtain ⟨⟨first, w⟩, leftmost, hbefore, rfl⟩ := h.firstMeeting?_eq_some_iff.1 hm
        obtain ⟨u, hu, -⟩ :=
          h.mem_before (Term.firstOccurrence?_eq_some_iff.1 leftmost).1 hbefore
        refine .same here unbound leftmost ?_ hu h.at?_target ?_
        · rintro rfl
          exact Term.precedes_irrefl _ hbefore
        · rw [← Term.met_of_at? hu]
          exact hfails
    | none =>
      rw [value_meet_of_unbound hget] at hfails
      rw [hget] at hknown
      obtain ⟨unbound, hfirst⟩ := Option.or_eq_none_iff.1 hknown.symm
      have first : p.firstOccurrence? v = some (x.path, v) := by
        refine Term.firstOccurrence?_eq_some_iff.2 ⟨here, rfl, ?_⟩
        intro other w hother hid hbefore
        obtain ⟨u, hu, -⟩ := h.mem_before hother hbefore
        have hmet := List.find?_eq_none.1 (Option.map_eq_none_iff.1 hfirst)
          _ (h.mem_meetings hother hbefore hu)
        exact hmet ((Variable.beq_iff w v).2 hid)
      refine .rejected first unbound h.at?_target ?_
      cases haccepts : (v.accepts a x.target).value with
      | false => rfl
      | true =>
        rw [haccepts] at hfails
        cases hfails

/-- Before the place where a match stops nothing is wrong. -/
theorem not_failsAt (h : StopsAt a p t e before x) {other : List Nat}
    (hother : Term.Precedes other x.path) : ¬ FailsAt a p t e other := by
  intro hfails
  cases hfails with
  | rejected first unbound met rejects =>
    have here := (Term.firstOccurrence?_eq_some_iff.1 first).1
    have haccepts := h.agree.accepted _ (h.mem_meetings here hother met) unbound
      (h.firstMeeting?_eq_some_iff.2 ⟨_, first, hother, by rw [meetingAt, Term.met_of_at? met]⟩)
    cases rejects.symm.trans haccepts
  | bound here given met differ =>
    have heq := h.agree.bound _ (h.mem_meetings here hother met) _ given
    cases differ.symm.trans heq
  | @same v w first u u' here unbound leftmost later bound met differ =>
    have hleast := (Term.firstOccurrence?_eq_some_iff.1 leftmost).2.2 other v here rfl
    have hfirst : Term.Precedes first other := by
      rcases Term.precedes_total first other with hlt | heq | hgt
      · exact hlt
      · exact absurd heq later
      · exact absurd hgt hleast
    have heq := h.agree.same _ (h.mem_meetings here hother met) unbound ⟨first, w, u⟩
      (h.firstMeeting?_eq_some_iff.2 ⟨_, leftmost, Term.precedes_trans hfirst hother,
        by rw [meetingAt, Term.met_of_at? bound]⟩)
      fun hsame => later (congrArg Meeting.path hsame)
    cases differ.symm.trans heq
  | clash here met differ =>
    obtain ⟨u, hu, hmem⟩ := h.mem_before here hother
    obtain rfl := Option.some.inj (met.symm.trans hu)
    cases (Term.clash_iff.1 differ).symm.trans (h.fits _ hmem)

theorem firstFailure (h : StopsAt a p t e before x) : FirstFailure a p t e x.path :=
  ⟨h.failsAt, fun _ => h.not_failsAt⟩

end StopsAt

end Failures

/-! ## What is left behind -/

/-- Entries for other variables do not bind a variable. -/
theorem get?_of_entries_eq {e f : Environment} {v : Variable} {more : List (Variable × Term)}
    (h : f.entries = e.entries ++ more) (hother : ∀ entry ∈ more, entry.1.id ≠ v.id) :
    f.get? v = e.get? v := by
  have hnone : more.find? (fun entry => entry.1 == v) = none := by
    rw [List.find?_eq_none]
    intro entry hentry
    simpa using hother entry hentry
  rw [Environment.get?, h, List.find?_append, hnone, Option.or_none]
  rfl

/-- **A match that fails keeps what it bound up to the failure.** It fails
exactly if something is wrong at some position of the pattern. Let `path` be the
first. Then the environment is the given one followed by an entry for each
variable that was unbound and whose leftmost occurrence is read before `path`,
in the order of these: with the very term that is met there, and none of them at
`path` or inside of it. Variables that are not in the pattern stay as
they were. -/
theorem into_failed [OwnEquality] (a : Acceptance) (p t : Term) (e : Environment) :
    ((into a p t e).value.ok = false ↔ ∃ path, FirstFailure a p t e path) ∧
    ∀ path, FirstFailure a p t e path →
      (into a p t e).value.env.entries = e.entries ++
        ((p.binders e).filter fun x => Term.Precedes x.1 path).map (fun x => (x.2, t.met x.1)) ∧
      (∀ x ∈ p.binders e, Term.Precedes x.1 path →
        t.at? x.1 = some (t.met x.1) ∧ ¬ path <+: x.1) ∧
      ∀ v, (∀ w ∈ p.vars, w.id ≠ v.id) → (into a p t e).value.env.get? v = e.get? v := by
  have hfailed : ∀ path, FailsAt a p t e path → (into a p t e).value.ok = false := by
    intro path hpath
    refine Bool.eq_false_iff.2 fun hok => ?_
    exact hpath.not_matches ((into_iff_matches a p t e).1.1 hok)
  refine ⟨⟨fun h => ?_, fun ⟨path, h⟩ => hfailed path h.fails⟩, ?_⟩
  · obtain ⟨before, x, hstop⟩ := exists_stopsAt h
    exact ⟨x.path, hstop.firstFailure⟩
  · intro path hpath
    obtain ⟨before, x, hstop⟩ := exists_stopsAt (hfailed path hpath.fails)
    obtain rfl := hstop.firstFailure.unique hpath
    have hbinder : ∀ y ∈ p.binders e, p.at? y.1 = some (.var y.2) :=
      fun y hy => Term.mem_occurrences.1 (List.mem_filter.1 hy).1
    refine ⟨hstop.entries_eq, ?_, ?_⟩
    · intro y hy hbefore
      obtain ⟨u, hu, -⟩ := hstop.mem_before (hbinder y hy) hbefore
      rw [Term.met_of_at? hu]
      exact ⟨hu, fun hinside => Term.not_precedes_of_inside hinside hbefore⟩
    · intro v hv
      refine get?_of_entries_eq hstop.entries_eq fun entry hentry => ?_
      obtain ⟨y, hy, rfl⟩ := List.mem_map.1 hentry
      exact hv y.2 ((p.mem_vars_iff y.2).2 ⟨y.1, hbinder y (List.mem_filter.1 hy).1⟩)

/-- A call of a variable, a pair of variables, and another variable. -/
def callOnPair : Term :=
  .seq ⟨[0]⟩ [.symbol "f", .var (.named "x"),
    .seq ⟨[1]⟩ [.var (.named "y"), .var (.named "z")], .var (.named "w")]

/-- A call with only one element where the pattern has a pair. -/
def callOnSingleton : Term :=
  .seq ⟨[2]⟩ [.symbol "f", .seq ⟨[3]⟩ [], .seq ⟨[4]⟩ [.long 2], .long 3]

/-- The lengths at the pair differ, so its first variable is not bound to the one element,
while the variable before the pair stays bound to the sequence it met. -/
theorem into_failed_callOnPair :
    FirstFailure default callOnPair callOnSingleton ⟨[(.named "v", .nil)]⟩ [2] ∧
    (into default callOnPair callOnSingleton ⟨[(.named "v", .nil)]⟩).value.env.entries =
      [(.named "v", .nil), (.named "x", .seq ⟨[3]⟩ [])] := by
  have hstop : StopsAt default callOnPair callOnSingleton ⟨[(.named "v", .nil)]⟩
      ((encounters callOnPair callOnSingleton).take 3)
      ⟨[2], .seq ⟨[1]⟩ [.var (.named "y"), .var (.named "z")], .seq ⟨[4]⟩ [.long 2]⟩ :=
    ⟨⟨_, rfl⟩, rfl, rfl, rfl⟩
  have hfirst := hstop.firstFailure
  refine ⟨hfirst, ?_⟩
  rw [((into_failed default callOnPair callOnSingleton _).2 [2] hfirst).1]
  decide

end Matching

end TermRules

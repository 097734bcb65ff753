/-
TermRules.Proofs.MatchingTheorems — what a match means, said without running
it.

`Matches` looks at all positions of the pattern at once: every position fits,
every bound variable meets terms equal to its own, and of every other variable
the filter written at its leftmost occurrence accepts the term met there, which
equals those met at its other occurrences. `into_iff_matches`: matching
succeeds exactly then, and appends one entry for each variable that was
unbound, in the order of their leftmost occurrences (`Term.binders`).

The induction is over the meetings of the walk. Binding the variable of the
first meeting turns it from an unbound one into a bound one for all others, so
agreement with an environment unfolds along the list (`agree_cons_bound`,
`agree_cons_unbound`), and no equality need be symmetric or reflexive for it.
-/
import Mathlib.Data.List.Basic
import TermRules.Proofs.MatchingWalk

namespace TermRules

namespace Matching

/-! ## Agreement of meetings -/

/-- The first meeting of a variable. -/
def firstMeeting? (ms : List Meeting) (v : Variable) : Option Meeting := ms.find? fun m => m.var == v

/-- A list of meetings is consistent under an environment. -/
structure Agree [OwnEquality] (a : Acceptance) (e : Environment) (ms : List Meeting) : Prop where
  /-- Bound variables meet terms equal to their own. -/
  bound : ∀ m ∈ ms, ∀ b, e.get? m.var = some b → (b == m.target) = true
  /-- At the first meeting of a variable that is not bound its filter accepts. -/
  accepted : ∀ m ∈ ms, e.get? m.var = none → firstMeeting? ms m.var = some m →
    (m.var.accepts a m.target).value = true
  /-- What such a variable meets first equals what it meets later. -/
  same : ∀ m ∈ ms, e.get? m.var = none → ∀ f, firstMeeting? ms m.var = some f → f ≠ m →
    (f.target == m.target) = true

/-- The meetings that bind their variable: the first of each that is unbound. -/
def binding (e : Environment) (ms : List Meeting) : List Meeting :=
  ms.filter fun m => (e.get? m.var).isNone && decide (firstMeeting? ms m.var = some m)

theorem firstMeeting?_cons (m : Meeting) (ms : List Meeting) (v : Variable) :
    firstMeeting? (m :: ms) v = if m.var.id = v.id then some m else firstMeeting? ms v := by
  by_cases h : m.var.id = v.id
  · simp [firstMeeting?, h]
  · have hbeq : (m.var == v) = false := by simpa using h
    simp [firstMeeting?, h, hbeq]

theorem firstMeeting?_congr (ms : List Meeting) {v w : Variable} (h : v.id = w.id) :
    firstMeeting? ms v = firstMeeting? ms w := by
  simp [firstMeeting?, Variable.beq_def, h]

theorem exists_firstMeeting? {ms : List Meeting} {m : Meeting} (hm : m ∈ ms) :
    ∃ f, firstMeeting? ms m.var = some f :=
  Option.isSome_iff_exists.1 (List.find?_isSome.2 ⟨m, hm, (Variable.beq_iff _ _).2 rfl⟩)

theorem mem_of_firstMeeting? {ms : List Meeting} {v : Variable} {f : Meeting}
    (h : firstMeeting? ms v = some f) : f ∈ ms ∧ f.var.id = v.id :=
  ⟨List.mem_of_find?_eq_some h, by simpa using List.find?_some h⟩

section Cons

variable {e : Environment} {m : Meeting} {ms : List Meeting}

/-- A variable that is unbound is another one than a bound one. -/
theorem id_ne_of_get? {v w : Variable} {b : Term} (hv : e.get? v = some b)
    (hw : e.get? w = none) : v.id ≠ w.id := by
  intro h
  rw [e.get?_congr h, hw] at hv
  cases hv

/-- A variable that the longer environment leaves unbound is another one. -/
theorem unbound_of_push (hb : e.get? m.var = none) {v : Variable}
    (hv : (e.push m.var m.target).get? v = none) : e.get? v = none ∧ m.var.id ≠ v.id := by
  rw [Environment.get?_push hb] at hv
  split at hv
  · cases hv
  · rename_i hne
    exact ⟨hv, hne⟩

theorem binding_cons_bound {b : Term} (hb : e.get? m.var = some b) :
    binding e (m :: ms) = binding e ms := by
  unfold binding
  rw [List.filter_cons, hb]
  refine List.filter_congr fun n _ => ?_
  cases hget : e.get? n.var with
  | some c => rfl
  | none => rw [firstMeeting?_cons, if_neg (id_ne_of_get? hb hget)]

theorem binding_cons_unbound (hb : e.get? m.var = none) (hm : m ∉ ms) :
    binding e (m :: ms) = m :: binding (e.push m.var m.target) ms := by
  unfold binding
  rw [List.filter_cons, firstMeeting?_cons, hb, if_pos rfl]
  simp only [Option.isNone_none, decide_true, Bool.and_self, if_true]
  congr 1
  refine List.filter_congr fun n hn => ?_
  rw [firstMeeting?_cons, Environment.get?_push hb]
  by_cases hid : m.var.id = n.var.id
  · have hmn : m ≠ n := fun h => hm (h ▸ hn)
    simp [hid, hmn]
  · simp [hid]

variable [OwnEquality] {a : Acceptance}

theorem agree_nil : Agree a e [] :=
  ⟨by simp, by simp, by simp⟩

theorem agree_cons_bound {b : Term} (hb : e.get? m.var = some b) :
    Agree a e (m :: ms) ↔ (b == m.target) = true ∧ Agree a e ms := by
  have hskip : ∀ v, e.get? v = none → firstMeeting? (m :: ms) v = firstMeeting? ms v := by
    intro v hv
    rw [firstMeeting?_cons, if_neg (id_ne_of_get? hb hv)]
  refine ⟨?_, ?_⟩
  · intro h
    refine ⟨h.bound m List.mem_cons_self b hb, ?_, ?_, ?_⟩
    · exact fun n hn => h.bound n (List.mem_cons_of_mem m hn)
    · intro n hn hnone hfirst
      exact h.accepted n (List.mem_cons_of_mem m hn) hnone (hskip n.var hnone ▸ hfirst)
    · intro n hn hnone f hfirst
      exact h.same n (List.mem_cons_of_mem m hn) hnone f (hskip n.var hnone ▸ hfirst)
  · intro hboth
    obtain ⟨heq, h⟩ := hboth
    refine ⟨?_, ?_, ?_⟩
    · intro n hn c hc
      rcases List.mem_cons.1 hn with rfl | hn
      · rw [hb] at hc
        cases hc
        exact heq
      · exact h.bound n hn c hc
    · intro n hn hnone hfirst
      rcases List.mem_cons.1 hn with rfl | hn
      · rw [hb] at hnone
        cases hnone
      · exact h.accepted n hn hnone (hskip n.var hnone ▸ hfirst)
    · intro n hn hnone f hfirst
      rcases List.mem_cons.1 hn with rfl | hn
      · rw [hb] at hnone
        cases hnone
      · exact h.same n hn hnone f (hskip n.var hnone ▸ hfirst)

/-- Once the first meeting has bound its variable, the others agree. -/
theorem Agree.push (h : Agree a e (m :: ms)) (hb : e.get? m.var = none) (hm : m ∉ ms) :
    Agree a (e.push m.var m.target) ms := by
  refine ⟨?_, ?_, ?_⟩
  · intro n hn b hget
    rw [Environment.get?_push hb] at hget
    split at hget
    · rename_i hid
      cases hget
      have hfirst : firstMeeting? (m :: ms) n.var = some m := by
        rw [firstMeeting?_cons, if_pos hid]
      have hnone : e.get? n.var = none := e.get?_congr hid ▸ hb
      exact h.same n (List.mem_cons_of_mem m hn) hnone m hfirst fun hmn => hm (hmn ▸ hn)
    · exact h.bound n (List.mem_cons_of_mem m hn) b hget
  · intro n hn hnone hfirst
    obtain ⟨hnone', hne⟩ := unbound_of_push hb hnone
    refine h.accepted n (List.mem_cons_of_mem m hn) hnone' ?_
    rw [firstMeeting?_cons, if_neg hne, hfirst]
  · intro n hn hnone f hfirst
    obtain ⟨hnone', hne⟩ := unbound_of_push hb hnone
    refine h.same n (List.mem_cons_of_mem m hn) hnone' f ?_
    rw [firstMeeting?_cons, if_neg hne, hfirst]

/-- Meetings that agree once a variable is bound agree with its meeting in front. -/
theorem Agree.of_push (h : Agree a (e.push m.var m.target) ms) (hb : e.get? m.var = none)
    (haccepts : (m.var.accepts a m.target).value = true) : Agree a e (m :: ms) := by
  have hpush : ∀ v, m.var.id ≠ v.id → (e.push m.var m.target).get? v = e.get? v := by
    intro v hne
    rw [Environment.get?_push hb, if_neg hne]
  refine ⟨?_, ?_, ?_⟩
  · intro n hn b hget
    rcases List.mem_cons.1 hn with rfl | hn
    · rw [hb] at hget
      cases hget
    · refine h.bound n hn b ?_
      rw [hpush n.var fun hid => id_ne_of_get? hget hb hid.symm, hget]
  · intro n hn hnone hfirst
    rcases List.mem_cons.1 hn with rfl | hn
    · exact haccepts
    · rw [firstMeeting?_cons] at hfirst
      split at hfirst
      · cases hfirst
        exact haccepts
      · rename_i hid
        exact h.accepted n hn ((hpush n.var hid).trans hnone) hfirst
  · intro n hn hnone f hfirst hne
    rw [firstMeeting?_cons] at hfirst
    rcases List.mem_cons.1 hn with rfl | hn
    · rw [if_pos rfl] at hfirst
      cases hfirst
      exact absurd rfl hne
    · split at hfirst
      · rename_i hid
        cases hfirst
        refine h.bound n hn m.target ?_
        rw [Environment.get?_push hb, if_pos hid]
      · rename_i hid
        exact h.same n hn ((hpush n.var hid).trans hnone) f hfirst hne

theorem agree_cons_unbound (hb : e.get? m.var = none) (hm : m ∉ ms) :
    Agree a e (m :: ms) ↔
      (m.var.accepts a m.target).value = true ∧ Agree a (e.push m.var m.target) ms := by
  refine ⟨fun h => ⟨?_, h.push hb hm⟩, fun ⟨haccepts, h⟩ => h.of_push hb haccepts⟩
  refine h.accepted m List.mem_cons_self hb ?_
  rw [firstMeeting?_cons, if_pos rfl]

end Cons

/-- Variables take the terms that they meet exactly when the meetings agree,
and then each first meeting of an unbound variable leaves an entry. -/
theorem meetAll_spec [OwnEquality] (a : Acceptance) : ∀ (ms : List Meeting), ms.Nodup →
    ∀ e : Environment,
    ((meetAll a ms e).value.ok = true ↔ Agree a e ms) ∧
    (Agree a e ms → (meetAll a ms e).value.env.entries =
      e.entries ++ (binding e ms).map fun m => (m.var, m.target))
  | [], _, e => ⟨⟨fun _ => agree_nil, fun _ => rfl⟩, fun _ => by simp [meetAll, binding]⟩
  | m :: ms, hnodup, e => by
    obtain ⟨hm, hms⟩ := List.nodup_cons.1 hnodup
    rw [meetAll, Traced.value_bind]
    cases hb : e.get? m.var with
    | some b =>
      obtain ⟨hok, hentries⟩ := meetAll_spec a ms hms e
      rw [value_meet_of_bound hb, agree_cons_bound hb, binding_cons_bound hb, ← hok]
      cases b == m.target with
      | true => exact ⟨by simp, fun h => hentries (hok.1 h.2)⟩
      | false => simp
    | none =>
      obtain ⟨hok, hentries⟩ := meetAll_spec a ms hms (e.push m.var m.target)
      rw [value_meet_of_unbound hb, agree_cons_unbound hb hm, binding_cons_unbound hb hm, ← hok]
      cases (m.var.accepts a m.target).value with
      | true =>
        refine ⟨by simp, fun h => ?_⟩
        rw [List.map_cons, List.append_cons]
        exact hentries (hok.1 h.2)
      | false => simp

end Matching

/-! ## Matching said over positions -/

/-- The occurrences of a pattern that bind their variable: the leftmost of each
that the environment leaves unbound. -/
def Term.binders (e : Environment) (p : Term) : List (List Nat × Variable) :=
  p.occurrences.filter fun x =>
    (e.get? x.2).isNone && decide (p.firstOccurrence? x.2 = some x)

/-- What stands at a position of a term, and nil outside of it. -/
def Term.met (t : Term) (path : List Nat) : Term := (t.at? path).getD .nil

theorem Term.met_of_at? {t u : Term} {path : List Nat} (h : t.at? path = some u) :
    t.met path = u := by
  unfold met
  rw [h, Option.getD_some]

theorem Term.firstOccurrence?_congr (p : Term) {v w : Variable} (h : v.id = w.id) :
    p.firstOccurrence? v = p.firstOccurrence? w := by
  simp [firstOccurrence?, Variable.beq_def, h]

/-- A pattern matches a term under an environment, judged at all positions at
once. -/
structure Matches [OwnEquality] (a : Acceptance) (p t : Term) (e : Environment) : Prop where
  /-- A sequence meets one of the same length, an atom one that it equals. -/
  fits : ∀ path q, p.at? path = some q → ∃ u, t.at? path = some u ∧ q.fits u = true
  /-- Each occurrence of a bound variable meets a term that its own equals. -/
  bound : ∀ path v b, p.at? path = some (.var v) → e.get? v = some b →
    ∃ u, t.at? path = some u ∧ (b == u) = true
  /-- The filter at the leftmost occurrence of an unbound variable accepts. -/
  accepted : ∀ path v, p.firstOccurrence? v = some (path, v) → e.get? v = none →
    ∃ u, t.at? path = some u ∧ (v.accepts a u).value = true
  /-- What that occurrence meets equals what each later one meets. -/
  same : ∀ path v other w, p.firstOccurrence? v = some (path, v) → e.get? v = none →
    p.at? other = some (.var w) → w.id = v.id → other ≠ path →
    ∃ u u', t.at? path = some u ∧ t.at? other = some u' ∧ (u == u') = true

namespace Matching

/-- The meeting at an occurrence of the pattern. -/
def meetingAt (t : Term) (x : List Nat × Variable) : Meeting := ⟨x.1, x.2, t.met x.1⟩

/-- Where everything fits the meetings are those at the occurrences of the
pattern. -/
theorem meetings_eq_map [OwnEquality] {p t : Term} (h : ∀ x ∈ encounters p t, x.fits = true) :
    meetings (encounters p t) = p.occurrences.map (meetingAt t) := by
  rw [Term.occurrences, ← encounters_eq_positions p t h, List.filterMap_map, List.map_filterMap,
    meetings]
  refine List.filterMap_congr fun x hx => ?_
  simp [Function.comp_def, Option.map_map, meetingAt, Term.met, at?_target p t x hx]

theorem nodup_meetings (p t : Term) : (p.occurrences.map (meetingAt t)).Nodup := by
  refine List.pairwise_map.2 (p.occurrences_sorted.imp ?_)
  intro x y hbefore heq
  have hpath : x.1 = y.1 := congrArg Meeting.path heq
  rw [hpath] at hbefore
  exact Term.precedes_irrefl y.1 hbefore

theorem firstMeeting?_map (p t : Term) (v : Variable) :
    firstMeeting? (p.occurrences.map (meetingAt t)) v =
      (p.firstOccurrence? v).map (meetingAt t) := by
  rw [firstMeeting?, List.find?_map]
  rfl

theorem meetingAt_inj {t : Term} {x y : List Nat × Variable} :
    meetingAt t x = meetingAt t y ↔ x = y := by
  refine ⟨?_, ?_⟩
  · intro h
    exact Prod.ext (congrArg Meeting.path h) (congrArg Meeting.var h)
  · exact fun h => congrArg (meetingAt t) h

theorem binding_map (p t : Term) (e : Environment) :
    binding e (p.occurrences.map (meetingAt t)) = (p.binders e).map (meetingAt t) := by
  unfold binding Term.binders
  rw [List.filter_map]
  congr 1
  refine List.filter_congr fun x _ => ?_
  have hfirst : firstMeeting? (p.occurrences.map (meetingAt t)) x.2 = some (meetingAt t x) ↔
      p.firstOccurrence? x.2 = some x := by
    rw [firstMeeting?_map]
    cases p.firstOccurrence? x.2 with
    | none => simp
    | some y => simp [meetingAt_inj]
  have hvar : (meetingAt t x).var = x.2 := rfl
  simp [hvar, hfirst]

section Occurrences

variable [OwnEquality] {a : Acceptance} {p t : Term} {e : Environment}

/-- If a pattern matches, the meetings at its occurrences agree. -/
theorem agree_of_matches (h : Matches a p t e) :
    Agree a e (p.occurrences.map (meetingAt t)) := by
  refine ⟨?_, ?_, ?_⟩
  · intro m hm b hb
    obtain ⟨⟨path, v⟩, hx, rfl⟩ := List.mem_map.1 hm
    obtain ⟨u, hu, heq⟩ := h.bound path v b (Term.mem_occurrences.1 hx) hb
    unfold meetingAt
    rw [Term.met_of_at? hu]
    exact heq
  · intro m hm hnone hfirst
    obtain ⟨⟨path, v⟩, hx, rfl⟩ := List.mem_map.1 hm
    rw [firstMeeting?_map] at hfirst
    obtain ⟨y, hy, hyx⟩ := Option.map_eq_some_iff.1 hfirst
    obtain rfl := meetingAt_inj.1 hyx
    obtain ⟨u, hu, haccepts⟩ := h.accepted path v hy hnone
    unfold meetingAt
    rw [Term.met_of_at? hu]
    exact haccepts
  · intro m hm hnone f hfirst hne
    obtain ⟨⟨other, w⟩, hx, rfl⟩ := List.mem_map.1 hm
    rw [firstMeeting?_map] at hfirst
    obtain ⟨⟨path, v⟩, hy, rfl⟩ := Option.map_eq_some_iff.1 hfirst
    have hid : v.id = w.id := (Term.firstOccurrence?_eq_some_iff.1 hy).2.1
    have hother : other ≠ path := by
      intro heq
      subst heq
      have hw := Term.mem_occurrences.1 hx
      rw [(Term.firstOccurrence?_eq_some_iff.1 hy).1] at hw
      cases hw
      exact hne rfl
    obtain ⟨u, u', hu, hu', heq⟩ := h.same path v other w
      (p.firstOccurrence?_congr hid ▸ hy) (e.get?_congr hid ▸ hnone)
      (Term.mem_occurrences.1 hx) hid.symm hother
    unfold meetingAt
    rw [Term.met_of_at? hu, Term.met_of_at? hu']
    exact heq

/-- If everything fits and the meetings at its occurrences agree, the pattern
matches. -/
theorem matches_of_agree
    (hall : ∀ path q, p.at? path = some q → ∃ u, t.at? path = some u ∧ q.fits u = true)
    (h : Agree a e (p.occurrences.map (meetingAt t))) : Matches a p t e := by
  have hmem : ∀ path v, p.at? path = some (.var v) →
      meetingAt t (path, v) ∈ p.occurrences.map (meetingAt t) :=
    fun path v hat => List.mem_map_of_mem (Term.mem_occurrences.2 hat)
  have hfirst : ∀ path v w, p.firstOccurrence? v = some (path, w) →
      firstMeeting? (p.occurrences.map (meetingAt t)) v = some (meetingAt t (path, w)) := by
    intro path v w hv
    rw [firstMeeting?_map, hv, Option.map_some]
  refine ⟨hall, ?_, ?_, ?_⟩
  · intro path v b hat hb
    obtain ⟨u, hu, -⟩ := hall path (.var v) hat
    have heq := h.bound _ (hmem path v hat) b hb
    unfold meetingAt at heq
    rw [Term.met_of_at? hu] at heq
    exact ⟨u, hu, heq⟩
  · intro path v hv hnone
    have hat := (Term.firstOccurrence?_eq_some_iff.1 hv).1
    obtain ⟨u, hu, -⟩ := hall path (.var v) hat
    have haccepts := h.accepted _ (hmem path v hat) hnone (hfirst path v v hv)
    unfold meetingAt at haccepts
    rw [Term.met_of_at? hu] at haccepts
    exact ⟨u, hu, haccepts⟩
  · intro path v other w hv hnone hother hid hne
    have hat := (Term.firstOccurrence?_eq_some_iff.1 hv).1
    obtain ⟨u, hu, -⟩ := hall path (.var v) hat
    obtain ⟨u', hu', -⟩ := hall other (.var w) hother
    have hw := p.firstOccurrence?_congr hid ▸ hv
    have hdiff : meetingAt t (path, v) ≠ meetingAt t (other, w) :=
      fun heq => hne (congrArg Meeting.path heq).symm
    have heq := h.same _ (hmem other w hother) (e.get?_congr hid ▸ hnone) _
      (hfirst path w v hw) hdiff
    unfold meetingAt at heq
    rw [Term.met_of_at? hu, Term.met_of_at? hu'] at heq
    exact ⟨u, u', hu, hu', heq⟩

end Occurrences

/-- A pattern matches exactly when everything in the walk fits and the meetings
agree. -/
theorem matches_iff [OwnEquality] (a : Acceptance) (p t : Term) (e : Environment) :
    Matches a p t e ↔
      (∀ x ∈ encounters p t, x.fits = true) ∧ Agree a e (meetings (encounters p t)) := by
  refine ⟨?_, ?_⟩
  · intro h
    have hfits := (fits_iff p t).2 h.fits
    refine ⟨hfits, ?_⟩
    rw [meetings_eq_map hfits]
    exact agree_of_matches h
  · intro hboth
    obtain ⟨hfits, h⟩ := hboth
    rw [meetings_eq_map hfits] at h
    exact matches_of_agree ((fits_iff p t).1 hfits) h

/-- **Matching decides `Matches`**, and where it succeeds it leaves the given
entries followed by one for each variable that was unbound: in the order of
leftmost occurrences, with the variable as it is written there and the very
term that it meets there. -/
theorem into_iff_matches [OwnEquality] (a : Acceptance) (p t : Term) (e : Environment) :
    ((into a p t e).value.ok = true ↔ Matches a p t e) ∧
    ((into a p t e).value.ok = true → (into a p t e).value.env.entries =
      e.entries ++ (p.binders e).map fun x => (x.2, t.met x.1)) := by
  have hvisit : (into a p t e).value = (visit a p t e).value := rfl
  rw [hvisit, matches_iff, visit_ok_iff]
  refine ⟨?_, ?_⟩
  · refine and_congr_right fun hfits => ?_
    rw [meetings_eq_map hfits]
    exact (meetAll_spec a _ (nodup_meetings p t) e).1
  · intro hboth
    obtain ⟨hfits, hok⟩ := hboth
    rw [visit_eq_meetAll a hfits]
    rw [meetings_eq_map hfits] at hok ⊢
    obtain ⟨hagree, hentries⟩ := meetAll_spec a _ (nodup_meetings p t) e
    rw [hentries (hagree.1 hok), binding_map, List.map_map]
    rfl

end Matching

end TermRules

/-
TermRules.Proofs.Rematching — matching again where some of it is bound already.

A match that succeeds can be repeated in any environment between the one it was given and
the one it left, in the sense of what variables are bound to (`Between`). A meeting that
bound its variable may find it bound there, but then to the very term that it meets, so
all that it asks for is that this term equals itself. That is what one meeting preserves
(`meet_again`) and a run of them with it (`meetAll_again`), which ends as the same mapping.
`into_again` says so of all environments that hold the given entries and none but those left
behind, in any order.

Self-equality cannot be left out: a NaN binds a variable and is refused by it later on. It
is not asked of the values of callers, which may differ from themselves.
-/
import TermRules.Proofs.Congruence
import TermRules.Proofs.FailedMatches
import TermRules.Proofs.Mapping
import TermRules.Proofs.PartialEquivalence

namespace TermRules

/-- What stands in a term that equals itself equals itself. -/
theorem Term.beq_self_of_at? [OwnEquality] {t u : Term} {path : List Nat}
    (ht : (t == t) = true) (hat : t.at? path = some u) : (u == u) = true := by
  rw [beq_self_iff] at ht ⊢
  -- a NaN further down would stand in the whole term too
  rintro ⟨rest, w, hrest, hw⟩
  refine ht ⟨path ++ rest, w, ?_, hw⟩
  rw [at?_append, hat]
  exact hrest

/-- An environment that binds what `e` binds and nothing but what `f` binds. -/
structure Environment.Between (e d f : Environment) : Prop where
  lower : e.Restricts d
  upper : d.Restricts f

theorem Attempt.eq_success {x : Attempt} {e : Environment} (hok : x.ok = true) (henv : x.env = e) :
    x = ⟨true, e⟩ := by
  cases x
  cases hok
  cases henv
  rfl

namespace Matching

section Again

variable [OwnEquality] {a : Acceptance} {e d f : Environment}

/-! ## One meeting -/

/-- A meeting that is held is held in between too, and what comes out is in between again. -/
theorem meet_again {v : Variable} {t : Term} (ht : (t == t) = true) (hd : e.Between d f)
    (hok : (meet a v t e).value.ok = true) (hf : (meet a v t e).value.env.Restricts f) :
    (meet a v t d).value.ok = true ∧
      (meet a v t e).value.env.Between (meet a v t d).value.env f := by
  cases he : e.get? v with
  | some b =>
    rw [value_meet_of_bound he] at hok ⊢
    rw [value_meet_of_bound (hd.lower v b he)]
    exact ⟨hok, hd⟩
  | none =>
    rw [value_meet_of_unbound he] at hok hf ⊢
    split at hok
    case isFalse => cases hok
    case isTrue haccepts =>
      rw [if_pos haccepts] at hf ⊢
      have hbound : f.get? v = some t := hf v t (by rw [Environment.get?_push he, if_pos rfl])
      cases hdv : d.get? v with
      | some b =>
        -- bound in between already, and to what it has met
        obtain rfl : t = b := Option.some.inj (hbound.symm.trans (hd.upper v b hdv))
        rw [value_meet_of_bound hdv]
        exact ⟨ht, hd.lower.of_push he hdv, hd.upper⟩
      | none =>
        rw [value_meet_of_unbound hdv, if_pos haccepts]
        have hkept := hd.lower.trans (Environment.begins_push d v t).restricts
        have hpushed : (d.push v t).get? v = some t := by
          rw [Environment.get?_push hdv, if_pos rfl]
        exact ⟨rfl, hkept.of_push he hpushed, hd.upper.of_push hdv hbound⟩

/-! ## Whole matches -/

/-- Meetings that are held keep what was bound. -/
theorem restricts_meetAll {ms : List Meeting} (hok : (meetAll a ms e).value.ok = true) :
    e.Restricts (meetAll a ms e).value.env := by
  intro v t hv
  rw [get?_meetAll hok, hv, Option.some_or]

/-- Meetings that are held are held in every environment between the given one and one that
has what they leave behind. -/
theorem meetAll_again {ms : List Meeting} (hself : ∀ m ∈ ms, (m.target == m.target) = true)
    (hd : e.Between d f) (hok : (meetAll a ms e).value.ok = true)
    (hf : (meetAll a ms e).value.env.Restricts f) :
    (meetAll a ms d).value.ok = true ∧
      (meetAll a ms e).value.env.Between (meetAll a ms d).value.env f := by
  induction ms generalizing e d with
  | nil => exact ⟨rfl, hd⟩
  | cons m ms ih =>
    obtain ⟨hm, hms⟩ := List.forall_mem_cons.1 hself
    rw [meetAll, Traced.value_bind] at hok hf ⊢
    rw [meetAll, Traced.value_bind]
    split at hok
    case isFalse hrefuses => exact absurd hok hrefuses
    case isTrue htakes =>
      rw [if_pos htakes] at hf ⊢
      obtain ⟨htakes', hd'⟩ := meet_again hm hd htakes ((restricts_meetAll hok).trans hf)
      rw [if_pos htakes']
      exact ih hms hd' hok hf

/-- Meetings of bound variables leave the environment as it is. -/
theorem env_meetAll_of_bound {ms : List Meeting}
    (hbound : ∀ m ∈ ms, ∃ b, e.get? m.var = some b) : (meetAll a ms e).value.env = e := by
  induction ms with
  | nil => rfl
  | cons m ms ih =>
    obtain ⟨⟨b, hb⟩, hms⟩ := List.forall_mem_cons.1 hbound
    rw [meetAll, Traced.value_bind, value_meet_of_bound hb]
    split
    · exact ih hms
    · rfl

/-- Meetings that are held bind every variable. -/
theorem exists_get?_meetAll {ms : List Meeting} (hok : (meetAll a ms e).value.ok = true) :
    ∀ m ∈ ms, ∃ b, (meetAll a ms e).value.env.get? m.var = some b := by
  intro m hm
  obtain ⟨f, hf⟩ := exists_firstMeeting? hm
  rw [get?_meetAll hok, hf, ← Option.isSome_iff_exists]
  simp

/-- A match of a term that equals itself is a run of meetings with terms that do. -/
theorem exists_meetings {p t : Term} (ht : (t == t) = true)
    (hok : (into a p t e).value.ok = true) :
    ∃ ms, (∀ m ∈ ms, (m.target == m.target) = true) ∧
      ∀ d, (into a p t d).value = (meetAll a ms d).value := by
  have hfits := ((visit_ok_iff a p t e).1 hok).1
  refine ⟨meetings (encounters p t), fun m hm => ?_, fun d => ?_⟩
  · obtain ⟨x, hx, hmx⟩ := List.mem_filterMap.1 hm
    obtain ⟨v, -, rfl⟩ := Option.map_eq_some_iff.1 hmx
    exact Term.beq_self_of_at? ht (at?_target p t x hx)
  · rw [value_into, visit_eq_meetAll a hfits]

/-- **Matching again is stable.** Whenever a match of a term that equals itself succeeds, it
succeeds in every single environment that has all entries it was given and no entries but those it
left, in whatever order, and makes the same mapping of it. In the environment that it left
it succeeds without a change. -/
theorem into_again (a : Acceptance) (p t : Term) (e : Environment) (ht : (t == t) = true)
    (hok : (into a p t e).value.ok = true) :
    (∀ d : Environment, d.Single → e.entries ⊆ d.entries →
      d.entries ⊆ (into a p t e).value.env.entries →
      (into a p t d).value.ok = true ∧
        ∀ v, (into a p t d).value.env.get? v = (into a p t e).value.env.get? v) ∧
    (into a p t (into a p t e).value.env).value = ⟨true, (into a p t e).value.env⟩ := by
  obtain ⟨ms, hself, hrun⟩ := exists_meetings ht hok
  rw [hrun] at hok
  refine ⟨fun d hd hlower hupper => ?_, ?_⟩
  · have he : e.Consistent := hd.consistent.of_subset hlower
    have hbetween : e.Between d (into a p t e).value.env :=
      ⟨hd.consistent.restricts hlower, (he.into a p t).restricts hupper⟩
    rw [hrun] at hbetween
    rw [hrun, hrun]
    obtain ⟨hok', hbetween'⟩ := meetAll_again hself hbetween hok (.refl _)
    exact ⟨hok', Environment.get?_eq_of_restricts hbetween'.upper hbetween'.lower⟩
  · rw [hrun, hrun]
    have hbetween : e.Between (meetAll a ms e).value.env (meetAll a ms e).value.env :=
      ⟨restricts_meetAll hok, .refl _⟩
    exact Attempt.eq_success (meetAll_again hself hbetween hok (.refl _)).1
      (env_meetAll_of_bound (exists_get?_meetAll hok))

end Again

/-- A NaN is bound, and refused where it is bound. -/
example :
    (into default (.var (.named "x")) .notANumber .empty).value.ok = true ∧
    (into default (.var (.named "x")) .notANumber ⟨[(.named "x", .notANumber)]⟩).value.ok =
      false := by decide

/-- The last variable of `twiceAndOther` is bound before one that no pattern has. -/
def lastBound : Environment := ⟨[(.named "y", .var (.named "z")), (.named "w", .nil)]⟩

/-- A zero that bound its variable binds it again, though the variable after it is bound. -/
theorem into_again_lastBound :
    (pairAndVariable .plusZero .minusZero == pairAndVariable .plusZero .minusZero) = true ∧
    (into default twiceAndOther (pairAndVariable .plusZero .minusZero)
      ⟨[(.named "w", .nil)]⟩).value.ok = true ∧
    (into default twiceAndOther (pairAndVariable .plusZero .minusZero)
      lastBound).value.ok = true ∧
    (into default twiceAndOther (pairAndVariable .plusZero .minusZero)
      lastBound).value.env.get? (.named "x") = some .plusZero := by
  have ht : (pairAndVariable .plusZero .minusZero == pairAndVariable .plusZero .minusZero) = true :=
    by decide
  have hok : (into default twiceAndOther (pairAndVariable .plusZero .minusZero)
      ⟨[(.named "w", .nil)]⟩).value.ok = true := by decide
  obtain ⟨hagain, -⟩ := into_again default twiceAndOther _ _ ht hok
  obtain ⟨hok', hsame⟩ := hagain lastBound (by decide) (by decide) (by decide)
  exact ⟨ht, hok, hok', (hsame (.named "x")).trans (by decide)⟩

end Matching

end TermRules

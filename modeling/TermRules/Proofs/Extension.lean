/-
TermRules.Proofs.Extension — environments that only grow.

`Begins` says that one environment is the beginning of another, entry for
entry. Whatever is rolled back to its beginning becomes that beginning
(`restore_of_begins`), and what the beginning binds the whole binds to the same
terms (`Begins.restricts`). A property of all entries (`AllBound`) is one of each
entry that was pushed. Predicates that keep the environment they are given as a
beginning `Extends` it; nearly all of them do, whether they succeed or fail, and
conjunctions, disjunctions and negations of such predicates do as well. The
exception is `replaces`.
-/
import TermRules.Rule.Predicate

namespace TermRules

namespace Environment

/-- The second environment begins with all entries of the first. -/
def Begins (e f : Environment) : Prop := ∃ more, f.entries = e.entries ++ more

theorem Begins.refl (e : Environment) : e.Begins e := ⟨[], by rw [List.append_nil]⟩

theorem Begins.trans {e f g : Environment} (hef : e.Begins f) (hfg : f.Begins g) :
    e.Begins g := by
  obtain ⟨first, hfirst⟩ := hef
  obtain ⟨later, hlater⟩ := hfg
  exact ⟨first ++ later, by rw [hlater, hfirst, List.append_assoc]⟩

theorem begins_push (e : Environment) (v : Variable) (t : Term) : e.Begins (e.push v t) :=
  ⟨[(v, t)], rfl⟩

/-- Binding a variable appends one entry or none. -/
theorem begins_bind (e : Environment) (v : Variable) (t : Term) : e.Begins (e.bind v t).env := by
  unfold bind
  split
  · exact .refl e
  · exact begins_push e v t

/-- What each binding respects, if it adds up, binding several respects, also
when one of them fails. -/
theorem rel_bindAll {r : Environment → Environment → Prop} (hrefl : ∀ e, r e e)
    (htrans : ∀ {e f g}, r e f → r f g → r e g) (hbind : ∀ e v t, r e (e.bind v t).env)
    (entries : List (Variable × Term)) (e : Environment) : r e (e.bindAll entries).env := by
  induction entries generalizing e with
  | nil => exact hrefl e
  | cons entry rest ih =>
    have hfirst := hbind e entry.1 entry.2
    rw [bindAll]
    split
    · exact htrans hfirst (ih _)
    · exact hfirst

/-- Binding several variables only appends, also when one of them fails. -/
theorem begins_bindAll (entries : List (Variable × Term)) (e : Environment) :
    e.Begins (e.bindAll entries).env :=
  rel_bindAll .refl .trans begins_bind entries e

/-- An environment is rolled back to any snapshot of its beginning. -/
theorem restore_of_begins {e live : Environment} (h : e.Begins live) :
    live.restore e.snapshot = e := by
  obtain ⟨more, hmore⟩ := h
  have hlive : live = ⟨e.entries ++ more⟩ := by
    cases live
    exact congrArg Environment.mk hmore
  rw [hlive, restore_snapshot_of_append]

/-- What the first environment binds the second binds to the same term. -/
def Restricts (e f : Environment) : Prop := ∀ v t, e.get? v = some t → f.get? v = some t

theorem Restricts.refl (e : Environment) : e.Restricts e := fun _ _ h => h

theorem Restricts.trans {e f g : Environment} (hef : e.Restricts f) (hfg : f.Restricts g) :
    e.Restricts g :=
  fun v t h => hfg v t (hef v t h)

/-- What is bound at the beginning stays bound to the same term. -/
theorem Begins.restricts {e f : Environment} (h : e.Begins f) : e.Restricts f := by
  obtain ⟨more, hmore⟩ := h
  intro v t hv
  obtain ⟨entry, hentry, rfl⟩ := Option.map_eq_some_iff.1 hv
  rw [get?, hmore, List.find?_append, hentry]
  rfl

/-- Every variable and its term are related. -/
def AllBound (Q : Variable → Term → Prop) (e : Environment) : Prop := ∀ x ∈ e.entries, Q x.1 x.2

section AllBound

variable {Q : Variable → Term → Prop} {e : Environment}

theorem allBound_empty : AllBound Q .empty := fun _ hx => nomatch hx

theorem AllBound.push (he : e.AllBound Q) {v : Variable} {t : Term} (hvt : Q v t) :
    (e.push v t).AllBound Q := by
  intro x hx
  rcases List.mem_append.1 hx with hx | hx
  · exact he x hx
  · rw [List.mem_singleton.1 hx]
    exact hvt

theorem AllBound.bind (he : e.AllBound Q) {v : Variable} {t : Term} (hvt : Q v t) :
    (e.bind v t).env.AllBound Q := by
  unfold Environment.bind
  split
  · exact he
  · exact he.push hvt

/-- What a variable is bound to is related to one of its identity. -/
theorem AllBound.of_get? (he : e.AllBound Q) {v : Variable} {t : Term}
    (hv : e.get? v = some t) : ∃ w, w.id = v.id ∧ Q w t := by
  obtain ⟨x, hx, rfl⟩ := Option.map_eq_some_iff.1 hv
  have hid : (x.1 == v) = true := by simpa using List.find?_some hx
  exact ⟨x.1, (Variable.beq_iff x.1 v).1 hid, he x (List.mem_of_find?_eq_some hx)⟩

end AllBound

end Environment

/-! ## Predicates that only bind more -/

/-- The predicate keeps every entry that it is given and at most adds some. -/
def Predicate.Extends (p : Predicate) : Prop :=
  ∀ (t : Term) (e : Environment), e.Begins (p.test t e).value.env

namespace Predicate

/-- Predicates that leave the environment alone. -/
theorem extends_of_keeps {p : Predicate} (hp : ∀ t e, (p.test t e).value.env = e) :
    p.Extends := by
  intro t e
  rw [hp]
  exact .refl e

theorem extends_ofTerm (f : Term → Bool) : (ofTerm f).Extends := extends_of_keeps fun _ _ => rfl

theorem extends_acceptedBy (a : Acceptance) (v : Variable) : (acceptedBy a v).Extends :=
  extends_of_keeps fun _ _ => rfl

theorem extends_isBound (v : Variable) : (isBound v).Extends := extends_of_keeps fun _ _ => rfl

theorem extends_hasLength (n : Nat) : (hasLength n).Extends := extends_of_keeps fun _ _ => rfl

theorem extends_binds (entries : List (Variable × Term)) : (binds entries).Extends :=
  fun _ e => Environment.begins_bindAll entries e

theorem extends_bindsSelf (v : Variable) : (bindsSelf v).Extends :=
  fun t e => Environment.begins_bind e v t

theorem extends_matching (a : Acceptance) (p : Term) : (matching a p).Extends :=
  fun t e => Matching.entries_visit a p t e

theorem extends_pattern (a : Acceptance) (p : Term) : (pattern a p).Extends :=
  extends_matching a p

theorem extends_not {p : Predicate} (hp : p.Extends) : (not p).Extends := hp

theorem extends_observed {p : Predicate} (hp : p.Extends) (label : String) :
    (observed label p).Extends := hp

section Combinations

variable {r : Environment → Environment → Prop} {ps : List Predicate}

/-- What the parts of a conjunction do to environments the whole does, if it
adds up: those before the part that failed count, too. -/
theorem rel_all (hrefl : ∀ e, r e e) (htrans : ∀ {e f g}, r e f → r f g → r e g)
    (hps : ∀ p ∈ ps, ∀ t e, r e (p.test t e).value.env) :
    ∀ t e, r e ((all ps).test t e).value.env := by
  induction ps with
  | nil => exact fun _ e => hrefl e
  | cons p ps ih =>
    intro t e
    have hhead := hps p List.mem_cons_self t e
    have htail := ih fun q hq => hps q (List.mem_cons_of_mem p hq)
    simp only [all, Traced.value_bind]
    split
    · exact htrans hhead (htail t _)
    · exact hhead

/-- What the parts of a disjunction do to environments the whole does, if it
adds up: those that failed count, too. -/
theorem rel_any (hrefl : ∀ e, r e e) (htrans : ∀ {e f g}, r e f → r f g → r e g)
    (hps : ∀ p ∈ ps, ∀ t e, r e (p.test t e).value.env) :
    ∀ t e, r e ((any ps).test t e).value.env := by
  induction ps with
  | nil => exact fun _ e => hrefl e
  | cons p ps ih =>
    intro t e
    have hhead := hps p List.mem_cons_self t e
    have htail := ih fun q hq => hps q (List.mem_cons_of_mem p hq)
    simp only [any, Traced.value_bind]
    split
    · exact hhead
    · exact htrans hhead (htail t _)

theorem extends_all (hps : ∀ p ∈ ps, p.Extends) : (all ps).Extends := rel_all .refl .trans hps

theorem extends_any (hps : ∀ p ∈ ps, p.Extends) : (any ps).Extends := rel_any .refl .trans hps

end Combinations

end Predicate

end TermRules

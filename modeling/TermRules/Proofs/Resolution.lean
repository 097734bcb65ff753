/-
TermRules.Proofs.Resolution — substituting again and again.

`rounds` substitutes a given number of times and never stops early; `fixpoint` is that
(`value_fixpoint`), since a round that finds nothing to replace leaves a term in which
no later round does either.

How many rounds are enough? A bound variable that is left after `n` of them was put in
with the term of another bound variable, that one with the term of a third, and so on
back to the given term: a chain of `n + 1` bound variables, each mentioned by the term
of the one before (`exists_chain`). If no variable leads back to itself these are all
different, so there are no more than entries. It does not matter in what order the
entries stand, nor how many variables a term mentions.

What the rounds end in is then the term resolved: every bound variable replaced by its
term, resolved in turn (`Resolves`). `fixpoint_resolves`.
-/
import Mathlib.Data.List.Perm.Subperm
import Mathlib.Logic.Function.Iterate
import Mathlib.Logic.Relation
import TermRules.Proofs.Composition

namespace TermRules

/-! ## Chains of bound variables -/

namespace Environment

/-- The first variable is bound to a term that mentions the second one, also bound. -/
def Mentions (e : Environment) (i j : Identity) : Prop :=
  ∃ v w b, v.id = i ∧ e.get? v = some b ∧ w ∈ b.vars ∧ w.id = j ∧ e.contains w = true

/-- No bound variable leads back to itself. -/
def Acyclic (e : Environment) : Prop := ∀ i, ¬ Relation.TransGen e.Mentions i i

variable {e : Environment}

/-- Where mentioned variables have a lower rank, none leads back to itself. -/
theorem acyclic_of_rank (rank : Identity → Nat)
    (h : ∀ x ∈ e.entries, ∀ w ∈ x.2.vars, e.contains w = true → rank w.id < rank x.1.id) :
    e.Acyclic := by
  have hmention : ∀ {i j}, e.Mentions i j → rank j < rank i := by
    rintro i j ⟨v, w, b, rfl, hb, hw, rfl, hbound⟩
    obtain ⟨u, hu, hid⟩ := exists_entry_of_get? hb
    rw [← hid]
    exact h (u, b) hu w hw hbound
  have hlead : ∀ {i j}, Relation.TransGen e.Mentions i j → rank j < rank i := by
    intro i j hij
    induction hij with
    | single hij => exact hmention hij
    | tail _ hjk ih => exact Nat.lt_trans (hmention hjk) ih
  exact fun i hi => Nat.lt_irrefl _ (hlead hi)

/-- A chain of bound variables, each mentioned by the next, has no more members than an
acyclic environment has entries. -/
theorem Acyclic.length_le (he : e.Acyclic) {l : List Identity}
    (hchain : l.IsChain fun i j => e.Mentions j i)
    (hbound : ∀ i ∈ l, ∃ x ∈ e.entries, x.1.id = i) : l.length ≤ e.length := by
  have : Trans (fun i j => Relation.TransGen e.Mentions j i)
      (fun i j => Relation.TransGen e.Mentions j i) fun i j => Relation.TransGen e.Mentions j i :=
    ⟨fun h h' => h'.trans h⟩
  have hlead : l.IsChain fun i j => Relation.TransGen e.Mentions j i :=
    hchain.imp fun _ _ h => .single h
  have hnodup : l.Nodup := by
    refine hlead.pairwise.imp ?_
    rintro i _ h rfl
    exact he i h
  have hsubset : l ⊆ e.entries.map fun x => x.1.id :=
    fun i hi => List.mem_map.2 (hbound i hi)
  have hle := (List.subperm_of_subset hnodup hsubset).length_le
  rwa [List.length_map] at hle

end Environment

/-! ## Rounds of substitution -/

namespace Term

/-- The term substituted so many times, each time at a part of `o` of its own. -/
def rounds (e : Environment) (o : Origin) : Nat → Term → Term
  | 0, t => t
  | n + 1, t => (rounds e o n t).substitute e (o.sub n)

variable {e : Environment} {o : Origin} {t : Term}

theorem substitute_of_unbound (h : ∀ v ∈ t.vars, e.get? v = none) (o : Origin) :
    t.substitute e o = t := by
  rw [substitute, (substitute?_eq_none_iff t o).2 h, Option.getD_none]

/-- Once nothing is left to replace, nothing changes any more. -/
theorem rounds_add_of_unbound {n : Nat} (h : ∀ v ∈ (t.rounds e o n).vars, e.get? v = none)
    (m : Nat) : t.rounds e o (n + m) = t.rounds e o n := by
  induction m with
  | zero => rfl
  | succ m ih => rw [← Nat.add_assoc, rounds, ih, substitute_of_unbound h]

/-- Stopping early changes nothing. -/
theorem value_fixpointFrom (e : Environment) (o : Origin) (t : Term) (left round : Nat) :
    (fixpointFrom e o round left (t.rounds e o round)).value = t.rounds e o (round + left) := by
  induction left generalizing round with
  | zero => rfl
  | succ left ih =>
    rw [fixpointFrom]
    cases h : substitute? e (o.sub round) (t.rounds e o round) with
    | none =>
      have hunbound := (substitute?_eq_none_iff _ _).1 h
      exact (rounds_add_of_unbound hunbound (left + 1)).symm
    | some t' =>
      have hnext : t.rounds e o (round + 1) = t' := by rw [rounds, substitute, h, Option.getD_some]
      show (fixpointFrom e o (round + 1) left t').value = _
      rw [← hnext, ih, Nat.succ_add_eq_add_succ]

theorem value_fixpoint (e : Environment) (o : Origin) (n : Nat) (t : Term) :
    (fixpoint e o n t).value = t.rounds e o n := by
  have h := value_fixpointFrom e o t n 0
  rwa [Nat.zero_add] at h

/-- Up to places the rounds are an iteration. -/
theorem unplaced_rounds (e : Environment) (o : Origin) (n : Nat) (t : Term) :
    (t.rounds e o n).unplaced = (fill e.unplaced)^[n] t.unplaced := by
  induction n with
  | zero => rfl
  | succ n ih => rw [rounds, unplaced_substitute_eq, ih, Function.iterate_succ_apply']

/-- A bound variable that is left after `n` rounds ends a chain of `n + 1` of them. -/
theorem exists_chain {n : Nat} {w : Variable} (hw : w ∈ (t.rounds e o n).vars)
    (hbound : e.contains w = true) :
    ∃ l : List Identity, (w.id :: l).IsChain (fun i j => e.Mentions j i) ∧ l.length = n ∧
      ∀ i ∈ w.id :: l, ∃ x ∈ e.entries, x.1.id = i := by
  have hentry : ∀ {v : Variable} {b : Term}, e.get? v = some b →
      ∃ x ∈ e.entries, x.1.id = v.id := by
    intro v b hb
    obtain ⟨u, hu, hid⟩ := Environment.exists_entry_of_get? hb
    exact ⟨(u, b), hu, hid⟩
  obtain ⟨c, hc⟩ := Option.isSome_iff_exists.1 hbound
  induction n generalizing w c with
  | zero => exact ⟨[], .singleton _, rfl, by simpa using hentry hc⟩
  | succ n ih =>
    obtain ⟨v, hv, b, hb, hmention⟩ := exists_of_mem_vars_substitute hw hc
    obtain ⟨l, hchain, hlength, hl⟩ := ih hv (Environment.contains_of_get? hb) b hb
    refine ⟨v.id :: l, .cons_cons ⟨v, w, b, rfl, hb, hmention, rfl, hbound⟩ hchain, ?_, ?_⟩
    · rw [List.length_cons, hlength]
    · exact List.forall_mem_cons.2 ⟨hentry hc, hl⟩

/-- As many rounds as there are entries leave nothing to replace. -/
theorem unbound_rounds (he : e.Acyclic) {n : Nat} (hn : e.length ≤ n) :
    ∀ v ∈ (t.rounds e o n).vars, e.get? v = none := by
  intro v hv
  cases hc : e.get? v with
  | none => rfl
  | some c =>
    obtain ⟨l, hchain, hlength, hl⟩ := exists_chain hv (Environment.contains_of_get? hc)
    have hle := he.length_le hchain hl
    rw [List.length_cons] at hle
    omega

end Term

/-! ## Resolved terms -/

namespace Environment

mutual
/-- The second term is the first with every bound variable replaced by its term, resolved
in turn. Sequences may be built anywhere. -/
inductive Resolves (e : Environment) : Term → Term → Prop where
  | bound {v : Variable} {b r : Term} (hb : e.get? v = some b) (h : Resolves e b r) :
    Resolves e (.var v) r
  | unbound {v : Variable} (hv : e.get? v = none) : Resolves e (.var v) (.var v)
  | seq {o p : Origin} {ts rs : List Term} (h : ResolvesAll e ts rs) :
    Resolves e (.seq o ts) (.seq p rs)
  | literal (l : Literal) : Resolves e (.literal l) (.literal l)
  | grounded (o : Origin) (v : Payload) : Resolves e (.grounded o v) (.grounded o v)
  | boxed (o : Origin) (t : Term) : Resolves e (.boxed o t) (.boxed o t)

/-- The second terms are the first ones resolved. -/
inductive ResolvesAll (e : Environment) : List Term → List Term → Prop where
  | nil : ResolvesAll e [] []
  | cons {t r : Term} {ts rs : List Term} (h : Resolves e t r) (hs : ResolvesAll e ts rs) :
    ResolvesAll e (t :: ts) (r :: rs)
end

variable {e : Environment}

mutual
/-- A term is resolved in one way, up to places. -/
theorem Resolves.unique : ∀ {t r r' : Term}, e.Resolves t r → e.Resolves t r' →
    r.unplaced = r'.unplaced
  | _, _, _, .bound hb h, .bound hb' h' => by
    cases hb.symm.trans hb'
    exact h.unique h'
  | _, _, _, .bound hb _, .unbound hv | _, _, _, .unbound hv, .bound hb _ => nomatch hb.symm.trans hv
  | _, _, _, .unbound _, .unbound _ | _, _, _, .literal _, .literal _
  | _, _, _, .grounded _ _, .grounded _ _ | _, _, _, .boxed _ _, .boxed _ _ => rfl
  | _, _, _, .seq h, .seq h' => congrArg (Term.seq default) (h.unique h')

theorem ResolvesAll.unique : ∀ {ts rs rs' : List Term}, e.ResolvesAll ts rs →
    e.ResolvesAll ts rs' → Term.allUnplaced rs = Term.allUnplaced rs'
  | _, _, _, .nil, .nil => rfl
  | _, _, _, .cons h hs, .cons h' hs' => congrArg₂ List.cons (h.unique h') (hs.unique hs')
end

mutual
/-- A term without bound variables is resolved. -/
theorem resolves_self : ∀ t : Term, (∀ v ∈ t.vars, e.get? v = none) → e.Resolves t t
  | .var v, h => .unbound (h v List.mem_cons_self)
  | .seq _ ts, h => .seq (resolvesAll_self ts h)
  | .literal l, _ => .literal l
  | .grounded o v, _ => .grounded o v
  | .boxed o t, _ => .boxed o t

theorem resolvesAll_self : ∀ ts : List Term, (∀ v ∈ Term.allVars ts, e.get? v = none) →
    e.ResolvesAll ts ts
  | [], _ => .nil
  | t :: ts, h => .cons (resolves_self t fun v hv => h v (List.mem_append_left _ hv))
      (resolvesAll_self ts fun v hv => h v (List.mem_append_right _ hv))
end

mutual
/-- A term is resolved by resolving what one round makes of it. -/
theorem resolves_of_substitute : ∀ (t : Term) (o : Origin) {r : Term},
    e.Resolves (t.substitute e o) r → e.Resolves t r
  | .var v, o, r, h => by
    rw [Term.substitute_var] at h
    cases hb : e.get? v with
    | some b =>
      rw [hb] at h
      exact .bound hb h
    | none =>
      rw [hb] at h
      exact h
  | .seq p ts, o, r, h => by
    obtain ⟨q, hq⟩ := Term.substitute_seq e o p ts
    rw [hq] at h
    cases h with
    | seq h => exact .seq (resolvesAll_of_substituteAll ts o 0 h)
  | .literal _, _, _, h | .grounded _ _, _, _, h | .boxed _ _, _, _, h => by simpa using h

theorem resolvesAll_of_substituteAll : ∀ (ts : List Term) (o : Origin) (i : Nat)
    {rs : List Term}, e.ResolvesAll (Term.substituteAll e o i ts) rs → e.ResolvesAll ts rs
  | [], _, _, _, h => h
  | t :: ts, o, i, rs, h => by
    rw [Term.substituteAll_cons] at h
    cases h with
    | cons h hs =>
      exact .cons (resolves_of_substitute t (o.sub i) h) (resolvesAll_of_substituteAll ts o (i + 1) hs)
end

theorem resolves_of_rounds {o : Origin} {n : Nat} {t r : Term}
    (h : e.Resolves (t.rounds e o n) r) : e.Resolves t r := by
  induction n with
  | zero => exact h
  | succ n ih => exact ih (resolves_of_substitute _ _ h)

end Environment

/-! ## Main statement -/

namespace Term

/-- A sequence with a bound variable is a new one after any round. -/
theorem rounds_seq_of_bound {e : Environment} {ts : List Term} {v : Variable} {b : Term}
    (hv : v ∈ allVars ts) (hb : e.get? v = some b) (o p : Origin) (n : Nat) :
    ∃ k us, (seq p ts).rounds e o (n + 1) = .seq (o.sub k) us := by
  induction n with
  | zero => exact ⟨0, _, substitute_seq_of_bound hv hb (o.sub 0) p⟩
  | succ n ih =>
    obtain ⟨k, us, hround⟩ := ih
    rw [rounds, hround]
    rcases substitute_cases e (.seq (o.sub k) us) (o.sub (n + 1)) with
      ⟨w, c, hvar, -⟩ | ⟨-, hkept⟩ | ⟨q, ws, -, -, hnew⟩
    · cases hvar
    · exact ⟨k, us, hkept⟩
    · exact ⟨n + 1, _, hnew⟩

/-- Rounds keep a sequence that was not built at their place exactly if they are none or
have nothing to replace. -/
theorem sharedWith_rounds_iff {e : Environment} {o p : Origin} {ts : List Term}
    (hp : ¬ o.Covers p) (n : Nat) :
    ((seq p ts).rounds e o n).sharedWith (.seq p ts) = true ↔
      n = 0 ∨ ∀ v ∈ (seq p ts).vars, e.get? v = none := by
  have hself : (seq p ts).sharedWith (.seq p ts) = true := by simp [sharedWith]
  cases n with
  | zero => exact iff_of_true hself (.inl rfl)
  | succ n =>
    by_cases hunbound : ∀ v ∈ (seq p ts).vars, e.get? v = none
    · have hsame := rounds_add_of_unbound (o := o) (n := 0) hunbound (n + 1)
      rw [Nat.zero_add] at hsame
      rw [hsame]
      exact iff_of_true hself (.inr hunbound)
    · refine iff_of_false ?_ (not_or_intro (Nat.succ_ne_zero n) hunbound)
      push Not at hunbound
      obtain ⟨v, hv, hb⟩ := hunbound
      obtain ⟨b, hb⟩ := Option.ne_none_iff_exists'.1 hb
      obtain ⟨k, us, hround⟩ := rounds_seq_of_bound hv hb o p n
      simp only [hround, sharedWith, Bool.and_eq_true, decide_eq_true_eq, not_and]
      rintro rfl
      exact absurd ⟨[k], rfl⟩ hp

/-- **Repeated substitution resolves.** It is so many rounds of substitution, whether or
not it stops early, and so rounds after rounds are as many rounds together. In an
environment where no variable leads back to itself, as many rounds as there are entries
leave no bound variable, give the one term that resolving can give, and further rounds
keep it. A sequence that was not built at the place of the rounds is kept exactly if there
are none or it has no bound variable in it. -/
theorem fixpoint_resolves (e : Environment) (t : Term) :
    (∀ o n, (fixpoint e o n t).value = t.rounds e o n) ∧
    (∀ o p q a b, (fixpoint e p b (fixpoint e o a t).value).value.unplaced =
      (fixpoint e q (a + b) t).value.unplaced) ∧
    (e.Acyclic → ∀ o n, e.length ≤ n →
      (∀ v ∈ (fixpoint e o n t).value.vars, e.get? v = none) ∧
      e.Resolves t (fixpoint e o n t).value ∧
      (∀ r, e.Resolves t r → r.unplaced = (fixpoint e o n t).value.unplaced) ∧
      ∀ m, e.length ≤ m → (fixpoint e o m t).value = (fixpoint e o n t).value) ∧
    ∀ o p ts, t = .seq p ts → ¬ o.Covers p → ∀ n,
      ((fixpoint e o n t).value.sharedWith t = true ↔ n = 0 ∨ ∀ v ∈ t.vars, e.get? v = none) := by
  refine ⟨fun o n => value_fixpoint e o n t, ?_, ?_, ?_⟩
  · intro o p q a b
    simp only [value_fixpoint, unplaced_rounds]
    rw [Nat.add_comm, Function.iterate_add_apply]
  · intro he o n hn
    simp only [value_fixpoint]
    have hunbound : ∀ v ∈ (t.rounds e o n).vars, e.get? v = none := unbound_rounds he hn
    have hresolves := Environment.resolves_of_rounds (Environment.resolves_self _ hunbound)
    refine ⟨hunbound, hresolves, fun r hr => hr.unique hresolves, fun m hm => ?_⟩
    -- both agree with the rounds of the longer of the two
    rw [← rounds_add_of_unbound hunbound m, ← rounds_add_of_unbound (unbound_rounds he hm) n,
      Nat.add_comm]
  · rintro o p ts rfl hp n
    rw [value_fixpoint]
    exact sharedWith_rounds_iff hp n

/-- A call on two more variables, one of which is bound to a call on the other. -/
def chained : Environment :=
  ⟨[(.named "x", .seq ⟨[1]⟩ [.symbol "f", .var (.named "y"), .var (.named "z")]),
    (.named "z", .long 1), (.named "y", .seq ⟨[2]⟩ [.symbol "g", .var (.named "z")])]⟩

/-- The first of these variables, and an unbound one. -/
def openPair : Term := .seq ⟨[0]⟩ [.var (.named "x"), .var (.named "w")]

/-- Three rounds are enough for the chain and needed by it, and more change nothing. -/
theorem fixpoint_resolves_chained :
    chained.Acyclic ∧ chained.length ≤ 3 ∧ ¬ Origin.Covers ⟨[7]⟩ ⟨[0]⟩ ∧
    (∀ v ∈ (fixpoint chained ⟨[7]⟩ 3 openPair).value.vars, chained.get? v = none) ∧
    chained.Resolves openPair (fixpoint chained ⟨[7]⟩ 3 openPair).value ∧
    (fixpoint chained ⟨[7]⟩ 3 openPair).value.unplaced =
      .seq default [.seq default [.symbol "f", .seq default [.symbol "g", .long 1], .long 1],
        .var (.named "w")] ∧
    (fixpoint chained ⟨[7]⟩ 9 openPair).value = (fixpoint chained ⟨[7]⟩ 3 openPair).value ∧
    (fixpoint chained ⟨[7]⟩ 2 openPair).value ≠ (fixpoint chained ⟨[7]⟩ 3 openPair).value ∧
    (fixpoint chained ⟨[7]⟩ 3 openPair).value.sharedWith openPair = false := by
  obtain ⟨-, -, hresolves, hshared⟩ := fixpoint_resolves chained openPair
  let rank : Identity → Nat := fun i =>
    if i = .named ⟨"x"⟩ then 2 else if i = .named ⟨"y"⟩ then 1 else 0
  have he : chained.Acyclic := Environment.acyclic_of_rank rank (by decide)
  have hplace : ¬ Origin.Covers ⟨[7]⟩ ⟨[0]⟩ := by decide
  obtain ⟨hunbound, hvalue, -, hmore⟩ := hresolves he ⟨[7]⟩ 3 (by decide)
  have hnew := (hshared ⟨[7]⟩ ⟨[0]⟩ _ rfl hplace 3).not.2 (by decide)
  exact ⟨he, by decide, hplace, hunbound, hvalue, by decide, hmore 9 (by decide), by decide,
    Bool.eq_false_iff.2 hnew⟩

end Term

end TermRules

/-
TermRules.Proofs.Redex — the position that a step rewrites.

A step rewrites one position: the first one, in the order in which the strategy reads the
term, at which the rules give a result. Outermost reads a sequence before its elements
(`Precedes`), innermost after them (`ClosesBefore`), and both go from left to right. The two
orders differ only at the ends of paths (`before_cons_cons`), so one induction serves both:
a search through elements finds the first of them that holds a result anywhere, and in it
what the search there finds (`reduceElement_picks`). Both orders are total, and so the
position is the only one of its kind, which turns the induction into an equivalence
(`step?_picks`).

What a step leaves alone is read off `put?`: nothing changes but the sequences on the way.
-/
import TermRules.Proofs.Normalization

namespace TermRules

/-! ## Putting a term at a position -/

namespace Term

variable {r t t' : Term} {o : Origin}

theorem put?_seq_cons {p : Origin} {items : List Term} {i : Nat} {path : List Nat} {s s' : Term}
    (hitem : items[i]? = some s) (hput : put? r (o.sub i) s path = some s') :
    put? r o (.seq p items) (i :: path) = some (.seq o (items.set i s')) := by
  rw [put?, hitem]
  simp [hput]

/-- Putting below a position is putting into an element of a sequence. -/
theorem put?_cons_eq_some {i : Nat} {path : List Nat} (h : put? r o t (i :: path) = some t') :
    ∃ p items s s', t = .seq p items ∧ items[i]? = some s ∧
      put? r (o.sub i) s path = some s' ∧ t' = .seq o (items.set i s') := by
  cases t with
  | seq p items =>
    rw [put?] at h
    obtain ⟨s, hitem, h⟩ := Option.bind_eq_some_iff.1 h
    obtain ⟨s', hput, h⟩ := Option.bind_eq_some_iff.1 h
    exact ⟨p, items, s, s', rfl, hitem, hput, (Option.some.inj h).symm⟩
  | _ => cases h

/-- What was put stands at its position. -/
theorem at?_put? (path : List Nat) (h : put? r o t path = some t') : t'.at? path = some r := by
  induction path generalizing o t t' with
  | nil =>
    rw [put?_nil] at h
    rw [at?_nil, h]
  | cons i path ih =>
    obtain ⟨p, items, s, s', rfl, hitem, hput, rfl⟩ := put?_cons_eq_some h
    have hlt := (List.getElem?_eq_some_iff.1 hitem).1
    rw [at?_seq_cons, List.getElem?_set_self hlt]
    exact ih hput

/-- Positions that are neither on the way nor below hold what they held. -/
theorem at?_put?_of_apart (path : List Nat) (h : put? r o t path = some t') {other : List Nat}
    (habove : ¬ other <+: path) (hbelow : ¬ path <+: other) : t'.at? other = t.at? other := by
  induction path generalizing o t t' other with
  | nil => exact absurd List.nil_prefix hbelow
  | cons i path ih =>
    obtain ⟨p, items, s, s', rfl, hitem, hput, rfl⟩ := put?_cons_eq_some h
    cases other with
    | nil => exact absurd List.nil_prefix habove
    | cons j other =>
      rw [at?_seq_cons, at?_seq_cons]
      by_cases hij : i = j
      · subst hij
        have hlt := (List.getElem?_eq_some_iff.1 hitem).1
        rw [List.getElem?_set_self hlt, hitem]
        rw [List.cons_prefix_cons, not_and] at habove hbelow
        exact ih hput (habove rfl) (hbelow rfl)
      · rw [List.getElem?_set_ne hij]

/-- A sequence on the way is built anew there, with as many elements, and all of them are
the old ones but for the one that the way goes through. -/
theorem at?_put?_of_above (front : List Nat) {i : Nat} {rest : List Nat}
    (h : put? r o t (front ++ i :: rest) = some t') :
    ∃ p items items', t.at? front = some (.seq p items) ∧
      t'.at? front = some (.seq (o.down front) items') ∧ items'.length = items.length ∧
      ∀ j, j ≠ i → items'[j]? = items[j]? := by
  induction front generalizing o t t' with
  | nil =>
    obtain ⟨p, items, s, s', rfl, hitem, hput, rfl⟩ := put?_cons_eq_some h
    exact ⟨p, items, items.set i s', rfl, rfl, List.length_set,
      fun j hj => List.getElem?_set_ne hj.symm⟩
  | cons k front ih =>
    obtain ⟨p, items, s, s', rfl, hitem, hput, rfl⟩ := put?_cons_eq_some h
    obtain ⟨q, us, us', hat, hat', hrest⟩ := ih hput
    have hlt := (List.getElem?_eq_some_iff.1 hitem).1
    refine ⟨q, us, us', ?_, ?_, hrest⟩
    · rw [at?_seq_cons, hitem]
      exact hat
    · rw [at?_seq_cons, List.getElem?_set_self hlt]
      exact hat'

/-! ## The order of a strategy -/

/-- The first position is read before the second when a sequence is read after its
elements, and those from left to right. -/
inductive ClosesBefore : List Nat → List Nat → Prop where
  | inside (i : Nat) (p : List Nat) : ClosesBefore (i :: p) []
  | left {i j : Nat} (h : i < j) (p q : List Nat) : ClosesBefore (i :: p) (j :: q)
  | element (i : Nat) {p q : List Nat} (h : ClosesBefore p q) : ClosesBefore (i :: p) (i :: q)

end Term

namespace Strategy

/-- The order in which a strategy reads the positions of a term. -/
def Before : Strategy → List Nat → List Nat → Prop
  | .outermost => Term.Precedes
  | .innermost => Term.ClosesBefore

variable (s : Strategy)

/-- Within a sequence, elements are read from left to right under either strategy. -/
theorem before_cons_cons {i j : Nat} {p q : List Nat} :
    s.Before (i :: p) (j :: q) ↔ i < j ∨ i = j ∧ s.Before p q := by
  cases s with
  | outermost =>
    refine ⟨?_, ?_⟩
    · intro h
      cases h with
      | rel h => exact .inl h
      | cons h => exact .inr ⟨rfl, h⟩
    · rintro (h | ⟨rfl, h⟩)
      · exact List.Lex.rel h
      · exact List.Lex.cons h
  | innermost =>
    refine ⟨?_, ?_⟩
    · intro h
      cases h with
      | left h => exact .inl h
      | element _ h => exact .inr ⟨rfl, h⟩
    · rintro (h | ⟨rfl, h⟩)
      · exact .left h p q
      · exact .element i h

/-- Of two positions one is read first. -/
theorem before_total (p q : List Nat) : p = q ∨ s.Before p q ∨ s.Before q p := by
  induction p generalizing q with
  | nil =>
    cases q with
    | nil => exact .inl rfl
    | cons j q =>
      cases s with
      | outermost => exact .inr (.inl List.Lex.nil)
      | innermost => exact .inr (.inr (.inside j q))
  | cons i p ih =>
    cases q with
    | nil =>
      cases s with
      | outermost => exact .inr (.inr List.Lex.nil)
      | innermost => exact .inr (.inl (.inside i p))
    | cons j q =>
      simp only [before_cons_cons]
      rcases Nat.lt_trichotomy i j with h | rfl | h
      · exact .inr (.inl (.inl h))
      · rcases ih q with rfl | h | h
        · exact .inl rfl
        · exact .inr (.inl (.inr ⟨rfl, h⟩))
        · exact .inr (.inr (.inr ⟨rfl, h⟩))
      · exact .inr (.inr (.inl h))

/-! ## The position that a search finds -/

section Search

variable {f : Origin → Term → Traced (Option Term)} {o p : Origin} {t u r : Term}
  {items : List Term} {path : List Nat}

/-- Nowhere in the term is there a result, at whatever place. -/
def Inert (f : Origin → Term → Traced (Option Term)) (t : Term) : Prop :=
  ∀ path u, t.at? path = some u → ∀ o, (f o u).value = none

/-- The position is the first at which there is a result, and that is the result there. -/
structure Picks (s : Strategy) (f : Origin → Term → Traced (Option Term)) (o : Origin) (t : Term)
    (path : List Nat) (u r : Term) : Prop where
  stands : t.at? path = some u
  result : (f (o.down path) u).value = some r
  first : ∀ other w, s.Before other path → t.at? other = some w → ∀ q, (f q w).value = none

/-- There is one position at most that is first. -/
theorem Picks.unique {path' : List Nat} {u' r' : Term} (h : s.Picks f o t path u r)
    (h' : s.Picks f o t path' u' r') : path = path' ∧ u = u' ∧ r = r' := by
  rcases s.before_total path path' with rfl | hbefore | hbefore
  · obtain rfl : u = u' := Option.some.inj (h.stands.symm.trans h'.stands)
    exact ⟨rfl, rfl, Option.some.inj (h.result.symm.trans h'.result)⟩
  · have hnone := h'.first path u hbefore h.stands (o.down path)
    rw [h.result] at hnone
    cases hnone
  · have hnone := h.first path' u' hbefore h'.stands (o.down path')
    rw [h'.result] at hnone
    cases hnone

/-- The first position of an element is first in the sequence, if there is no result in the
elements to its left, nor for the sequence itself where that is read before. -/
theorem Picks.element {i : Nat} (h : s.Picks f (o.sub i) t path u r) (hitem : items[i]? = some t)
    (hleft : ∀ j < i, ∀ t', items[j]? = some t' → Inert f t')
    (hroot : s = .outermost → ∀ q, (f q (.seq p items)).value = none) :
    s.Picks f o (.seq p items) (i :: path) u r where
  stands := by
    rw [Term.at?_seq_cons, hitem]
    exact h.stands
  result := h.result
  first := by
    intro other w hbefore hat q
    cases other with
    | nil =>
      cases hat
      cases s with
      | outermost => exact hroot rfl q
      | innermost => cases hbefore
    | cons j other =>
      obtain ⟨t', hitem', hat'⟩ := Option.bind_eq_some_iff.1 hat
      rcases s.before_cons_cons.1 hbefore with hlt | ⟨rfl, hbelow⟩
      · exact hleft j hlt t' hitem' other w hat' q
      · rw [hitem] at hitem'
        cases hitem'
        exact h.first other w hbelow hat' q

/-- Whether there is a result does not depend on the place. -/
def Steady (f : Origin → Term → Traced (Option Term)) : Prop :=
  ∀ o o' t, (f o t).value.isSome = (f o' t).value.isSome

theorem Steady.eq_none (hf : Steady f) (h : (f o t).value = none) (q : Origin) :
    (f q t).value = none := by
  rw [← Option.not_isSome_iff_eq_none, hf q o, h]
  exact Bool.false_ne_true

theorem Steady.isSome_iff (hf : Steady f) (o : Origin) (t : Term) :
    (f o t).value.isSome = true ↔ (f default t).value.isSome = true := by
  rw [hf o default]

theorem Steady.inert_iff (hf : Steady f) :
    Inert f t ↔ ¬ ∃ path u, t.at? path = some u ∧ (f default u).value.isSome = true := by
  refine ⟨?_, ?_⟩
  · rintro h ⟨path, u, hat, hsome⟩
    rw [h path u hat default] at hsome
    cases hsome
  · intro h path u hat o
    refine hf.eq_none (o := default) (Option.not_isSome_iff_eq_none.1 fun hsome => ?_) o
    exact h ⟨path, u, hat, hsome⟩

/-- A search ends without a result exactly where there is none. -/
theorem reduceFirst_eq_none_iff (hf : Steady f) :
    (s.reduceFirst f o t).value = none ↔ Inert f t := by
  rw [hf.inert_iff, ← s.isSome_reduceFirst hf.isSome_iff t o, Option.not_isSome_iff_eq_none]

theorem inert_of_reduceElement (hf : Steady f) {i : Nat}
    (h : (s.reduceElement f o i items).value = none) : ∀ t ∈ items, Inert f t := by
  intro t ht
  rw [← Option.not_isSome_iff_eq_none, s.isSome_reduceElement hf.isSome_iff] at h
  exact hf.inert_iff.2 fun hsome => h ⟨t, ht, hsome⟩

mutual
/-- A search that ends in a term has put a result at the first position for one. -/
theorem reduceFirst_picks (hf : Steady f) : ∀ (t : Term) (o : Origin) {t' : Term},
    (s.reduceFirst f o t).value = some t' →
      ∃ path u r, s.Picks f o t path u r ∧ Term.put? r o t path = some t'
  | .seq p items, o, t', h => by
    have hroot : (f o (.seq p items)).value = some t' →
        (∀ other w, s.Before other [] → (Term.seq p items).at? other = some w →
          ∀ q, (f q w).value = none) →
        ∃ path u r, s.Picks f o (.seq p items) path u r ∧
          Term.put? r o (.seq p items) path = some t' :=
      fun hr hfirst => ⟨[], _, t', ⟨Term.at?_nil _, hr, hfirst⟩, Term.put?_nil _ _ _⟩
    have helement : (Option.map (.seq o) (s.reduceElement f o 0 items).value) = some t' →
        (s = .outermost → ∀ q, (f q (.seq p items)).value = none) →
        ∃ path u r, s.Picks f o (.seq p items) path u r ∧
          Term.put? r o (.seq p items) path = some t' := by
      intro hmap hskip
      obtain ⟨us, hus, rfl⟩ := Option.map_eq_some_iff.1 hmap
      obtain ⟨i, t, t', path, u, r, hitem, hpick, hput, rfl, hleft⟩ :=
        reduceElement_picks hf items o 0 hus
      rw [Nat.zero_add] at hpick hput
      exact ⟨i :: path, u, r, hpick.element s hitem hleft hskip,
        Term.put?_seq_cons hitem hput⟩
    cases s with
    | outermost =>
      rw [reduceFirst, Traced.value_orElse, Option.or_eq_some_iff] at h
      rcases h with h | ⟨hnone, h⟩
      · exact hroot h fun _ _ hbefore => nomatch hbefore
      · exact helement h fun _ => hf.eq_none hnone
    | innermost =>
      rw [reduceFirst, Traced.value_orElse, Option.or_eq_some_iff] at h
      rcases h with h | ⟨hnone, h⟩
      · exact helement h nofun
      · refine hroot h fun other w hbefore hat q => ?_
        cases hbefore with
        | inside i rest =>
          obtain ⟨t, hitem, hat⟩ := Option.bind_eq_some_iff.1 hat
          exact inert_of_reduceElement _ hf (Option.map_eq_none_iff.1 hnone) t
            (List.mem_of_getElem? hitem) rest w hat q
  | .literal _, o, t', h | .grounded _ _, o, t', h | .boxed _ _, o, t', h | .var _, o, t', h => by
    rw [s.reduceFirst_of_not_seq rfl] at h
    refine ⟨[], _, t', ⟨Term.at?_nil _, h, fun other w hbefore hat q => ?_⟩, Term.put?_nil _ _ _⟩
    cases other with
    | nil => cases s <;> cases hbefore
    | cons i other => cases hat

theorem reduceElement_picks (hf : Steady f) : ∀ (ts : List Term) (o : Origin) (i : Nat)
    {us : List Term}, (s.reduceElement f o i ts).value = some us →
      ∃ j t t' path u r, ts[j]? = some t ∧ s.Picks f (o.sub (i + j)) t path u r ∧
        Term.put? r (o.sub (i + j)) t path = some t' ∧ us = ts.set j t' ∧
        ∀ k < j, ∀ w, ts[k]? = some w → Inert f w
  | [], _, _, _, h => nomatch h
  | t :: ts, o, i, us, h => by
    rw [value_reduceElement_cons, Option.or_eq_some_iff] at h
    rcases h with h | ⟨hnone, h⟩
    · obtain ⟨t', ht', rfl⟩ := Option.map_eq_some_iff.1 h
      obtain ⟨path, u, r, hpick, hput⟩ := reduceFirst_picks hf t (o.sub i) ht'
      exact ⟨0, t, t', path, u, r, rfl, hpick, hput, rfl, nofun⟩
    · obtain ⟨us, hus, rfl⟩ := Option.map_eq_some_iff.1 h
      obtain ⟨j, t', t'', path, u, r, hitem, hpick, hput, rfl, hleft⟩ :=
        reduceElement_picks hf ts o (i + 1) hus
      rw [Nat.succ_add_eq_add_succ] at hpick hput
      refine ⟨j + 1, t', t'', path, u, r, hitem, hpick, hput, rfl, fun k hk w hw => ?_⟩
      cases k with
      | zero =>
        cases hw
        exact (s.reduceFirst_eq_none_iff hf).1 (Option.map_eq_none_iff.1 hnone)
      | succ k => exact hleft k (Nat.lt_of_succ_lt_succ hk) w hw
end

end Search

end Strategy

namespace Term

/-- What stands below a position closes before it. -/
theorem closesBefore_append (path : List Nat) {rest : List Nat} (h : rest ≠ []) :
    ClosesBefore (path ++ rest) path := by
  induction path with
  | nil =>
    obtain ⟨i, rest, rfl⟩ := List.exists_cons_of_ne_nil h
    exact .inside i rest
  | cons i path ih => exact .element i ih

end Term

/-! ## Main statement -/

namespace Normalizer

variable (n : Normalizer)

theorem steady_result? : Strategy.Steady fun o t => n.rules.result? o t := by
  intro o o' t
  rw [← n.rules.isSome_result?_default o, n.rules.isSome_result?_default o']

/-- The position is the first at which the rules give a result, and that is the result. -/
def Picks (o : Origin) (t : Term) (path : List Nat) (u r : Term) : Prop :=
  n.settings.strategy.Picks (fun o t => n.rules.result? o t) o t path u r

/-- The normalizer under another strategy. -/
def withStrategy (s : Strategy) : Normalizer :=
  { n with settings := { n.settings with strategy := s } }

/-- A step puts a result at the position that is picked for it, and there is a step
wherever a position is picked. -/
theorem step?_eq_some_iff (o : Origin) (t t' : Term) :
    (n.step? o t).value = some t' ↔
      ∃ path u r, n.Picks o t path u r ∧ Term.put? r o t path = some t' := by
  refine ⟨n.settings.strategy.reduceFirst_picks n.steady_result? t o, ?_⟩
  rintro ⟨path, u, r, hpick, hput⟩
  have hsome : (n.step? o t).value.isSome = true := by
    refine (n.isSome_step? o t).2 ⟨path, u, hpick.stands, ?_⟩
    rw [← n.rules.isSome_result? (o.down path), hpick.result]
    rfl
  obtain ⟨t'', hstep⟩ := Option.isSome_iff_exists.1 hsome
  obtain ⟨path', u', r', hpick', hput'⟩ :=
    n.settings.strategy.reduceFirst_picks n.steady_result? t o hstep
  -- the position of the step that there is can only be the given one
  obtain ⟨rfl, rfl, rfl⟩ := hpick.unique _ hpick'
  rw [hstep, ← hput, ← hput']

/-- Under innermost nothing can be reduced inside of what is rewritten. -/
theorem Picks.irreducible_below {n : Normalizer} (hn : n.settings.strategy = .innermost)
    {o : Origin} {t u r : Term} {path : List Nat} (h : n.Picks o t path u r) {rest : List Nat}
    (hrest : rest ≠ []) {w : Term} (hw : u.at? rest = some w) : ¬ n.rules.Reducible w := by
  rintro ⟨more, x, hx, hmatch⟩
  have hat : t.at? (path ++ (rest ++ more)) = some x := by
    rw [Term.at?_append, h.stands]
    show u.at? (rest ++ more) = some x
    rw [Term.at?_append, hw]
    exact hx
  have hbefore : n.settings.strategy.Before (path ++ (rest ++ more)) path := by
    rw [hn]
    exact Term.closesBefore_append path (List.append_ne_nil_of_left_ne_nil hrest more)
  have hnone := h.first _ x hbefore hat default
  rw [← n.rules.isSome_result? default, hnone] at hmatch
  cases hmatch

/-- **A step rewrites the first position that it can.** It puts the result of the rules at the
one position at which they give a result while they give none at any that the strategy
reads before; under innermost nothing inside of what is rewritten can be reduced. Which
of the two strategies it is does not matter to whether there is a step. Afterwards the
result stands at that position; whatever is neither on the way to it nor below it is the
very same as before; and the sequences on the way are new nodes of the old length, with the
old elements next to the way. -/
theorem step?_picks (o : Origin) (t : Term) :
    (∀ t', (n.step? o t).value = some t' ↔
      ∃ path u r, n.Picks o t path u r ∧ Term.put? r o t path = some t') ∧
    (∀ path u r path' u' r', n.Picks o t path u r → n.Picks o t path' u' r' → path = path') ∧
    (n.settings.strategy = .innermost → ∀ path u r, n.Picks o t path u r →
      ∀ rest w, rest ≠ [] → u.at? rest = some w → ¬ n.rules.Reducible w) ∧
    (∀ o', ((n.withStrategy .outermost).step? o t).value = none ↔
      ((n.withStrategy .innermost).step? o' t).value = none) ∧
    ∀ t', (n.step? o t).value = some t' → ∀ path u r, n.Picks o t path u r →
      t'.at? path = some r ∧
      (∀ other, ¬ other <+: path → ¬ path <+: other → t'.at? other = t.at? other) ∧
      ∀ front i rest, path = front ++ i :: rest →
        ∃ p items items', t.at? front = some (.seq p items) ∧
          t'.at? front = some (.seq (o.down front) items') ∧ items'.length = items.length ∧
          ∀ j, j ≠ i → items'[j]? = items[j]? := by
  refine ⟨n.step?_eq_some_iff o t, ?_, ?_, ?_, ?_⟩
  · intro path u r path' u' r' hpick hpick'
    exact (hpick.unique _ hpick').1
  · intro hn path u r hpick rest w hrest hw
    exact hpick.irreducible_below hn hrest hw
  · intro o'
    rw [step?_eq_none_iff, step?_eq_none_iff]
    rfl
  · intro t' hstep path u r hpick
    obtain ⟨path', u', r', hpick', hput⟩ := (n.step?_eq_some_iff o t t').1 hstep
    obtain ⟨rfl, rfl, rfl⟩ := hpick.unique _ hpick'
    refine ⟨Term.at?_put? path hput, ?_, ?_⟩
    · intro other habove hbelow
      exact Term.at?_put?_of_apart path hput habove hbelow
    · rintro front i rest rfl
      exact Term.at?_put?_of_above front hput

/-- Two calls to be written in capitals. -/
def capitals : RuleSet Term :=
  ⟨none, [("f", "F"), ("g", "G")].map fun call => TemplateRule.toRule default
    ⟨.seq default [.symbol call.1, .var (.named "x")],
      .seq default [.symbol call.2, .var (.named "x")]⟩⟩

/-- One call inside of the other. -/
def callInCall : Term :=
  .seq ⟨[0]⟩ [.symbol "f", .seq ⟨[1]⟩ [.symbol "g", .symbol "a"]]

/-- Outermost rewrites the whole and keeps the inner call as it is, innermost rewrites the
inner call. -/
theorem step?_picks_callInCall :
    (∃ path u r, (Normalizer.mk capitals {}).Picks ⟨[7]⟩ callInCall path u r ∧
      Term.put? r ⟨[7]⟩ callInCall path =
        some (.seq ⟨[7]⟩ [.symbol "F", .seq ⟨[1]⟩ [.symbol "g", .symbol "a"]])) ∧
    ∃ path u r,
      (Normalizer.mk capitals { strategy := .innermost }).Picks ⟨[7]⟩ callInCall path u r ∧
        Term.put? r ⟨[7]⟩ callInCall path =
          some (.seq ⟨[7]⟩ [.symbol "f", .seq ⟨[1, 7]⟩ [.symbol "G", .symbol "a"]]) := by
  obtain ⟨houter, -⟩ := step?_picks (Normalizer.mk capitals {}) ⟨[7]⟩ callInCall
  obtain ⟨hinner, -⟩ :=
    step?_picks (Normalizer.mk capitals { strategy := .innermost }) ⟨[7]⟩ callInCall
  exact ⟨(houter _).1 rfl, (hinner _).1 rfl⟩

end Normalizer

end TermRules

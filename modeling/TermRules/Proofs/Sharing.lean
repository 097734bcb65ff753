/-
TermRules.Proofs.Sharing — what substitution keeps and what it builds.

What is worked out is a sequence put together around the first element that changes;
`substitute?_eq_mapped?` reads it as a map over the elements, and everything here starts
from that reading. As far as values go, substitution fills each bound variable with its
term and leaves the rest alone, which is what `fill` does to every node of a term. What
`fill` does not tell is which nodes of the result are those of the input. That is decided position
by position: what stands at a position of the term stands there afterwards with its
own bound variables replaced (`at?_substitute`), and nothing else stands in the result
but what is inside of the terms put in (`at?_substitute_cases`). So a subterm without
bound variables is the old node, an occurrence that is replaced holds the node of the
environment, and a sequence with such an occurrence in it is a new node of the old
length. `substitute_shares`.
-/
import TermRules.Proofs.Placement

namespace TermRules.Term

/-! ## Filling in -/

mutual
/-- Every bound variable replaced by its term, and every sequence rebuilt at its place. -/
def fill (e : Environment) : Term → Term
  | .var v => (e.get? v).getD (.var v)
  | .seq o items => .seq o (fillAll e items)
  | t => t

/-- Every bound variable of the terms replaced by its term. -/
def fillAll (e : Environment) : List Term → List Term
  | [] => []
  | t :: ts => fill e t :: fillAll e ts
end

mutual
/-- Substitution fills the bound variables in, up to the places of sequences. -/
theorem unplaced_substitute_eq_fill (e : Environment) : ∀ (t : Term) (o : Origin),
    (t.substitute e o).unplaced = (t.fill e).unplaced
  | .var v, o => by rw [substitute_var, fill]
  | .literal _, _ | .grounded _ _, _ | .boxed _ _, _ => by simp [fill]
  | .seq p ts, o => by
    obtain ⟨q, hq⟩ := substitute_seq e o p ts
    rw [hq, fill, unplaced, unplaced, allUnplaced_substituteAll_eq_fillAll e ts o 0]

theorem allUnplaced_substituteAll_eq_fillAll (e : Environment) :
    ∀ (ts : List Term) (o : Origin) (i : Nat),
      allUnplaced (substituteAll e o i ts) = allUnplaced (fillAll e ts)
  | [], _, _ => rfl
  | t :: ts, o, i => by
    rw [substituteAll_cons, fillAll, allUnplaced, allUnplaced, unplaced_substitute_eq_fill e t,
      allUnplaced_substituteAll_eq_fillAll e ts o (i + 1)]
end

/-! ## Nothing to replace -/

mutual
theorem mapped?_eq_none_iff {e : Environment} : ∀ (t : Term) (o : Origin),
    mapped? e o t = none ↔ ∀ v ∈ t.vars, e.get? v = none
  | .var v, _ => by simp [mapped?, vars]
  | .seq _ ts, o => by
    rw [mapped?, Option.map_eq_none_iff, mappedAll?_eq_none_iff ts o 0, vars]
  | .literal _, _ | .grounded _ _, _ | .boxed _ _, _ => by simp [mapped?, vars]

theorem mappedAll?_eq_none_iff {e : Environment} : ∀ (ts : List Term) (o : Origin) (i : Nat),
    mappedAll? e o i ts = none ↔ ∀ v ∈ allVars ts, e.get? v = none
  | [], _, _ => by simp [mappedAll?, allVars]
  | t :: ts, o, i => by
    have hhead := mapped?_eq_none_iff (e := e) t (o.sub i)
    have htail := mappedAll?_eq_none_iff (e := e) ts o (i + 1)
    simp only [allVars, List.forall_mem_append, ← hhead, ← htail, mappedAll?]
    cases mapped? e (o.sub i) t <;> cases mappedAll? e o (i + 1) ts <;> simp
end

/-- Nothing is replaced exactly if no variable of the term is bound. -/
theorem substitute?_eq_none_iff {e : Environment} (t : Term) (o : Origin) :
    substitute? e o t = none ↔ ∀ v ∈ t.vars, e.get? v = none := by
  rw [substitute?_eq_mapped?, mapped?_eq_none_iff]

/-- A sequence with a bound variable becomes a new one. -/
theorem substitute_seq_of_bound {e : Environment} {ts : List Term} {v : Variable} {u : Term}
    (hv : v ∈ allVars ts) (hu : e.get? v = some u) (o p : Origin) :
    (seq p ts).substitute e o = .seq o (substituteAll e o 0 ts) := by
  rw [substitute, substitute?_eq_mapped?, mapped?, ← getD_mappedAll?]
  cases h : mappedAll? e o 0 ts with
  | none =>
    have hunbound := (mappedAll?_eq_none_iff ts o 0).1 h v hv
    rw [hu] at hunbound
    cases hunbound
  | some us => rfl

/-! ## What stands where -/

/-- At this position of the term stands a variable that is bound. -/
def Replaced (e : Environment) (t : Term) (path : List Nat) : Prop :=
  ∃ v b, t.at? path = some (.var v) ∧ e.get? v = some b

theorem replaced_append {e : Environment} {t u : Term} {path : List Nat}
    (h : t.at? path = some u) (rest : List Nat) :
    t.Replaced e (path ++ rest) ↔ u.Replaced e rest := by
  unfold Replaced
  rw [at?_append, h]
  rfl

/-- Some variable of the term is bound exactly if some occurrence is replaced. -/
theorem exists_replaced_iff {e : Environment} {t : Term} :
    (∃ path, t.Replaced e path) ↔ ∃ v ∈ t.vars, ∃ b, e.get? v = some b := by
  unfold Replaced
  simp only [mem_vars_iff]
  refine ⟨?_, ?_⟩
  · rintro ⟨path, v, b, hat, hb⟩
    exact ⟨v, ⟨path, hat⟩, b, hb⟩
  · rintro ⟨v, ⟨path, hat⟩, b, hb⟩
    exact ⟨path, v, b, hat, hb⟩

theorem substitute?_eq_none_iff_replaced {e : Environment} (t : Term) (o : Origin) :
    substitute? e o t = none ↔ ∀ path, ¬ t.Replaced e path := by
  rw [substitute?_eq_none_iff, ← not_exists, exists_replaced_iff]
  simp only [not_exists, not_and, Option.eq_none_iff_forall_ne_some, ne_eq]

theorem getElem?_substituteAll (e : Environment) (o : Origin) (i : Nat) (ts : List Term)
    (j : Nat) : (substituteAll e o i ts)[j]? =
      ts[j]?.map fun t => t.substitute e (o.sub (i + j)) := by
  induction ts generalizing i j with
  | nil => rfl
  | cons t ts ih =>
    rw [substituteAll_cons]
    cases j with
    | zero => rfl
    | succ j =>
      rw [List.getElem?_cons_succ, List.getElem?_cons_succ, ih, Nat.succ_add_eq_add_succ]

/-- What stands at a position of the term stands there afterwards, with its own bound
variables replaced at the part of the place that the position leads to. -/
theorem at?_substitute {e : Environment} (path : List Nat) {t u : Term} (o : Origin)
    (h : t.at? path = some u) :
    (t.substitute e o).at? path = some (u.substitute e (o.down path)) := by
  induction path generalizing t o with
  | nil =>
    rw [at?_nil] at h ⊢
    cases h
    rfl
  | cons i path ih =>
    cases t with
    | seq p ts =>
      obtain ⟨q, hq⟩ := substitute_seq e o p ts
      obtain ⟨s, hitem, hat⟩ := Option.bind_eq_some_iff.1 h
      rw [hq, at?_seq_cons, getElem?_substituteAll, hitem, Nat.zero_add]
      exact ih (o.sub i) hat
    | _ => cases h

/-- A term is one bound variable and becomes the term put in, or it has no bound
variable and is kept, or it is a sequence around some and is built anew. -/
theorem substitute_cases (e : Environment) (t : Term) (o : Origin) :
    (∃ v b, t = .var v ∧ e.get? v = some b ∧ t.substitute e o = b) ∨
    ((∀ path, ¬ t.Replaced e path) ∧ t.substitute e o = t) ∨
    ∃ p ts, t = .seq p ts ∧ (∃ path, t.Replaced e path) ∧
      t.substitute e o = .seq o (substituteAll e o 0 ts) := by
  by_cases hbound : ∃ path, t.Replaced e path
  · obtain ⟨v, hv, b, hb⟩ := exists_replaced_iff.1 hbound
    cases t with
    | var w =>
      obtain rfl : v = w := List.mem_singleton.1 hv
      exact .inl ⟨v, b, rfl, hb, substitute_var_of_get? hb o⟩
    | seq p ts => exact .inr (.inr ⟨p, ts, rfl, hbound, substitute_seq_of_bound hv hb o p⟩)
    | literal _ => cases hv
    | grounded _ _ => cases hv
    | boxed _ _ => cases hv
  · have hnone := not_exists.1 hbound
    refine .inr (.inl ⟨hnone, ?_⟩)
    rw [substitute, (substitute?_eq_none_iff_replaced t o).2 hnone, Option.getD_none]

/-- What stands in the result stands in a term put in, or is kept from the term, or is a
sequence of the term around an occurrence that is replaced, built anew. -/
theorem at?_substitute_cases {e : Environment} (path : List Nat) {t w : Term} (o : Origin)
    (h : (t.substitute e o).at? path = some w) :
    (∃ front rest v b, path = front ++ rest ∧ t.at? front = some (.var v) ∧
      e.get? v = some b ∧ b.at? rest = some w) ∨
    (t.at? path = some w ∧ ∀ rest, ¬ t.Replaced e (path ++ rest)) ∨
    ∃ p ts, t.at? path = some (.seq p ts) ∧ (∃ rest, t.Replaced e (path ++ rest)) ∧
      w = .seq (o.down path) (substituteAll e (o.down path) 0 ts) := by
  rcases substitute_cases e t o with ⟨v, b, rfl, hb, hput⟩ | ⟨hnone, hkept⟩ | ⟨p, ts, rfl, hsome, hnew⟩
  · rw [hput] at h
    exact .inl ⟨[], path, v, b, rfl, at?_nil _, hb, h⟩
  · rw [hkept] at h
    exact .inr (.inl ⟨h, fun rest => hnone (path ++ rest)⟩)
  · cases path with
    | nil =>
      rw [hnew, at?_nil] at h
      cases h
      exact .inr (.inr ⟨p, ts, rfl, hsome, rfl⟩)
    | cons i path =>
      rw [hnew, at?_seq_cons, getElem?_substituteAll, Nat.zero_add] at h
      obtain ⟨s', hs', hat⟩ := Option.bind_eq_some_iff.1 h
      obtain ⟨s, hitem, rfl⟩ := Option.map_eq_some_iff.1 hs'
      have hbelow : ∀ rest, (seq p ts).at? (i :: rest) = s.at? rest := by
        intro rest
        rw [at?_seq_cons, hitem]
        rfl
      have hreplaced : ∀ rest, (seq p ts).Replaced e (i :: rest) ↔ s.Replaced e rest := by
        intro rest
        unfold Replaced
        rw [hbelow]
      rcases at?_substitute_cases path (o.sub i) hat with
        ⟨front, rest, v, b, rfl, hvar, hb, hw⟩ | ⟨hw, hnone⟩ | ⟨q, us, hw, ⟨rest, hrest⟩, rfl⟩
      · exact .inl ⟨i :: front, rest, v, b, rfl, (hbelow front).trans hvar, hb, hw⟩
      · exact .inr (.inl ⟨(hbelow path).trans hw, fun rest => (hreplaced _).not.2 (hnone rest)⟩)
      · exact .inr (.inr ⟨q, us, (hbelow path).trans hw, ⟨rest, (hreplaced _).2 hrest⟩, rfl⟩)

/-! ## Old and new nodes -/

/-- No sequence of the term was built at the place or at a part of it. -/
def BuiltOutside (o : Origin) (t : Term) : Prop :=
  ∀ path p ts, t.at? path = some (.seq p ts) → ¬ o.Covers p

/-- The place at which a sequence was built. -/
def place? : Term → Option Origin
  | .seq p _ => some p
  | _ => none

theorem builtOutside_iff {o : Origin} {t : Term} :
    t.BuiltOutside o ↔ ∀ x ∈ t.positions, ∀ p, x.2.place? = some p → ¬ o.Covers p := by
  refine ⟨?_, ?_⟩
  · rintro h ⟨path, u⟩ hx p hp
    cases u with
    | seq q ts =>
      cases hp
      exact h path _ ts ((mem_positions t).1 hx)
    | _ => cases hp
  · intro h path p ts hat
    exact h (path, .seq p ts) ((mem_positions t).2 hat) p rfl

instance (o : Origin) (t : Term) : Decidable (t.BuiltOutside o) :=
  decidable_of_iff _ builtOutside_iff.symm

theorem not_replaced_below_var {e : Environment} {t : Term} {path : List Nat} {v : Variable}
    (h : t.at? path = some (.var v)) {rest : List Nat} (hrest : rest ≠ []) :
    ¬ t.Replaced e (path ++ rest) := by
  rw [replaced_append h]
  rintro ⟨w, b, hat, -⟩
  cases rest with
  | nil => exact hrest rfl
  | cons i rest => cases hat

/-- The new nodes of a result are the sequences on the way to what was replaced. -/
theorem covers_iff {e : Environment} {o : Origin} {t : Term} (ht : t.BuiltOutside o)
    (he : e.AllBound fun _ b => b.BuiltOutside o) {path : List Nat} {p : Origin}
    {ts : List Term} (h : (t.substitute e o).at? path = some (.seq p ts)) :
    o.Covers p ↔ ∃ rest, rest ≠ [] ∧ t.Replaced e (path ++ rest) := by
  rcases at?_substitute_cases path o h with
    ⟨front, rest, v, b, rfl, hvar, hb, hat⟩ | ⟨hat, hnone⟩ | ⟨q, us, hat, ⟨rest, hrest⟩, hnew⟩
  · obtain ⟨-, -, hb⟩ := he.of_get? hb
    refine iff_of_false (hb rest p ts hat) ?_
    rintro ⟨more, hmore, hreplaced⟩
    rw [List.append_assoc] at hreplaced
    exact not_replaced_below_var hvar (List.append_ne_nil_of_right_ne_nil rest hmore) hreplaced
  · refine iff_of_false (ht path p ts hat) ?_
    rintro ⟨rest, -, hreplaced⟩
    exact hnone rest hreplaced
  · cases hnew
    refine iff_of_true ⟨path, rfl⟩ ⟨rest, ?_, hrest⟩
    rintro rfl
    rw [replaced_append hat] at hrest
    obtain ⟨v, b, hvar, -⟩ := hrest
    cases hvar

/-- **Substitution fills in and shares the rest.** Copying a sequence up to the first element
that changes and treating those behind it is the plain map over its elements, at whatever
element it is split, and an empty environment changes nothing of this. Its value is that of
the term with every bound variable filled in, and it has nothing to do exactly if there is
none. What has no
bound variable in it stands where it stood, as the very same term; where a variable was
replaced stands the very term of the environment; and a sequence around such an occurrence
is built anew, with as many elements, at the part of the place that its position leads to.
If no term at hand was built there before, these are all the new nodes of the result. -/
theorem substitute_shares (e : Environment) (o : Origin) (t : Term) :
    substitute? e o t = mapped? e o t ∧
    (t.substitute e o).unplaced = (t.fill e).unplaced ∧
    (substitute? e o t = none ↔ ∀ path, ¬ t.Replaced e path) ∧
    (∀ path u, t.at? path = some u → (∀ rest, ¬ t.Replaced e (path ++ rest)) →
      (t.substitute e o).at? path = some u) ∧
    (∀ path v b, t.at? path = some (.var v) → e.get? v = some b →
      (t.substitute e o).at? path = some b) ∧
    (∀ path p ts, t.at? path = some (.seq p ts) → (∃ rest, t.Replaced e (path ++ rest)) →
      ∃ us, (t.substitute e o).at? path = some (.seq (o.down path) us) ∧
        us.length = ts.length) ∧
    (t.BuiltOutside o → (e.AllBound fun _ b => b.BuiltOutside o) →
      ∀ path p ts, (t.substitute e o).at? path = some (.seq p ts) →
        (o.Covers p ↔ ∃ rest, rest ≠ [] ∧ t.Replaced e (path ++ rest))) := by
  refine ⟨substitute?_eq_mapped? e o t, unplaced_substitute_eq_fill e t o,
    substitute?_eq_none_iff_replaced t o, ?_, ?_, ?_, ?_⟩
  · intro path u hat hnone
    simp only [replaced_append hat] at hnone
    rw [at?_substitute path o hat, substitute, (substitute?_eq_none_iff_replaced u _).2 hnone,
      Option.getD_none]
  · intro path v b hat hb
    rw [at?_substitute path o hat, substitute_var_of_get? hb]
  · intro path p ts hat hsome
    simp only [replaced_append hat] at hsome
    obtain ⟨v, hv, b, hb⟩ := exists_replaced_iff.1 hsome
    refine ⟨_, ?_, length_substituteAll e (o.down path) 0 ts⟩
    rw [at?_substitute path o hat, substitute_seq_of_bound hv hb]
  · exact fun ht he path p ts hat => covers_iff ht he hat

/-- A sequence with a variable in its first element and none in its second. -/
def besideUntouched : Term :=
  .seq ⟨[0]⟩ [.seq ⟨[1]⟩ [.var (.named "x"), .symbol "a"], .seq ⟨[2]⟩ [.var (.named "y")]]

/-- The variable, bound to a sequence that mentions it. -/
def mentioningItself : Environment := ⟨[(.named "x", .seq ⟨[3]⟩ [.var (.named "x")])]⟩

/-- At a place of its own, only the whole and its first element are built anew: the second
element is the old one, and so is the sequence put in. -/
theorem substitute_shares_besideUntouched :
    besideUntouched.BuiltOutside ⟨[7]⟩ ∧
    (mentioningItself.AllBound fun _ b => b.BuiltOutside ⟨[7]⟩) ∧
    (besideUntouched.substitute mentioningItself ⟨[7]⟩ = .seq ⟨[7]⟩
      [.seq ⟨[0, 7]⟩ [.seq ⟨[3]⟩ [.var (.named "x")], .symbol "a"],
        .seq ⟨[2]⟩ [.var (.named "y")]]) ∧
    ∀ path p ts, (besideUntouched.substitute mentioningItself ⟨[7]⟩).at? path =
        some (.seq p ts) →
      (Origin.Covers ⟨[7]⟩ p ↔
        ∃ rest, rest ≠ [] ∧ besideUntouched.Replaced mentioningItself (path ++ rest)) := by
  obtain ⟨-, -, -, -, -, -, hnew⟩ := substitute_shares mentioningItself ⟨[7]⟩ besideUntouched
  have hterm : besideUntouched.BuiltOutside ⟨[7]⟩ := by decide
  have henv : mentioningItself.AllBound fun _ b => b.BuiltOutside ⟨[7]⟩ := by
    intro x hx
    rw [List.mem_singleton.1 hx]
    decide
  exact ⟨hterm, henv, rfl, hnew hterm henv⟩

end TermRules.Term

/-
TermRules.Proofs.Positions — the positions of a term in the order in which
they are read.

`positions` lists every subterm with its position, a sequence before its
elements and those from left to right. The list holds exactly the positions at
which `at?` finds something (`mem_positions`), and it is sorted by
the order of reading (`positions_sorted`), so "first" in it means leftmost.
`occurrences` are the positions of variables, and `firstOccurrence?` is the
leftmost of one variable (`firstOccurrence?_eq_some_iff`).
-/
import Mathlib.Data.List.Lex
import TermRules.Term.Occurrence

namespace TermRules.Term

mutual
/-- The subterms of a term with their positions, in preorder from left to right. -/
def positions : Term → List (List Nat × Term)
  | .seq o items => ([], .seq o items) :: positionsFrom 0 items
  | t => [([], t)]

/-- The positions below the elements of a sequence, from the `i`-th on. -/
def positionsFrom (i : Nat) : List Term → List (List Nat × Term)
  | [] => []
  | t :: ts => (positions t).map (fun x => (i :: x.1, x.2)) ++ positionsFrom (i + 1) ts
end

@[simp] theorem at?_seq_cons (o : Origin) (items : List Term) (i : Nat) (path : List Nat) :
    (Term.seq o items).at? (i :: path) = items[i]? >>= fun t => t.at? path := rfl

/-- Something stands in a sequence when it is the sequence or stands in an
element. -/
theorem exists_at?_seq {P : Term → Prop} (o : Origin) (items : List Term) :
    (∃ path u, (Term.seq o items).at? path = some u ∧ P u) ↔
      P (.seq o items) ∨ ∃ t ∈ items, ∃ path u, t.at? path = some u ∧ P u := by
  refine ⟨?_, ?_⟩
  · rintro ⟨_ | ⟨i, path⟩, u, hat, hu⟩
    · cases hat
      exact .inl hu
    · obtain ⟨t, hitem, hat⟩ := Option.bind_eq_some_iff.1 hat
      exact .inr ⟨t, List.mem_of_getElem? hitem, path, u, hat, hu⟩
  · intro h
    rcases h with hroot | ⟨t, hmem, path, u, hat, hu⟩
    · exact ⟨[], _, rfl, hroot⟩
    · obtain ⟨i, hitem⟩ := List.mem_iff_getElem?.1 hmem
      exact ⟨i :: path, u, Option.bind_eq_some_iff.2 ⟨t, hitem, hat⟩, hu⟩

/-- What stands further down a position stands in what stands there. -/
theorem at?_append (t : Term) (path rest : List Nat) :
    t.at? (path ++ rest) = t.at? path >>= fun u => u.at? rest := by
  induction path generalizing t with
  | nil => simp
  | cons i path ih =>
    cases t with
    | seq o items =>
      rw [List.cons_append, at?_seq_cons, at?_seq_cons, bind_assoc]
      exact congrArg _ (funext fun u => ih u)
    | _ => rfl

theorem at?_cons_of_not_seq {t : Term} (ht : t.isSeq = false) (i : Nat) (path : List Nat) :
    t.at? (i :: path) = none := by
  cases t with
  | seq o items => cases ht
  | _ => rfl

/-- Nothing but itself stands in a term that is no sequence. -/
theorem exists_at?_of_not_seq {P : Term → Prop} {t : Term} (ht : t.isSeq = false) :
    (∃ path u, t.at? path = some u ∧ P u) ↔ P t := by
  refine ⟨?_, ?_⟩
  · rintro ⟨_ | ⟨i, path⟩, u, hat, hu⟩
    · rw [at?_nil] at hat
      cases hat
      exact hu
    · rw [at?_cons_of_not_seq ht] at hat
      cases hat
  · exact fun h => ⟨[], t, at?_nil t, h⟩

theorem exists_at?_eq_of_not_seq {t u : Term} (ht : t.isSeq = false) :
    (∃ path, t.at? path = some u) ↔ t = u := by
  simpa using exists_at?_of_not_seq (P := (· = u)) ht

mutual
/-- The list of positions holds every position, with what stands there. -/
theorem mem_positions : ∀ (t : Term) {path : List Nat} {u : Term},
    (path, u) ∈ t.positions ↔ t.at? path = some u
  | .seq o items, [], u => by
    have hbelow : ∀ i, ([], u) ∉ positionsFrom i items := by
      intro i hmem
      obtain ⟨_, _, _, hpath, _⟩ := (mem_positionsFrom items i).1 hmem
      cases hpath
    simp [positions, hbelow, eq_comm]
  | .seq o items, i :: path, u => by
    rw [positions, List.mem_cons, mem_positionsFrom items 0, at?_seq_cons]
    refine ⟨?_, ?_⟩
    · intro h
      rcases h with h | ⟨j, rest, s, hpath, hitem, hat⟩
      · cases h
      · cases hpath
        simpa [hitem] using hat
    · intro h
      obtain ⟨s, hitem, hat⟩ := Option.bind_eq_some_iff.1 h
      exact .inr ⟨i, path, s, by simp, hitem, hat⟩
  | .literal _, path, u | .grounded _ _, path, u | .boxed _ _, path, u | .var _, path, u => by
    cases path <;> simp [positions, at?, eq_comm]

theorem mem_positionsFrom : ∀ (ts : List Term) (i : Nat) {path : List Nat} {u : Term},
    (path, u) ∈ positionsFrom i ts ↔
      ∃ j rest s, path = (i + j) :: rest ∧ ts[j]? = some s ∧ s.at? rest = some u
  | [], i, path, u => by simp [positionsFrom]
  | t :: ts, i, path, u => by
    have hhead : (path, u) ∈ (positions t).map (fun x => (i :: x.1, x.2)) ↔
        ∃ rest, path = i :: rest ∧ t.at? rest = some u := by
      simp only [List.mem_map, Prod.mk.injEq, Prod.exists]
      refine ⟨?_, ?_⟩
      · intro h
        obtain ⟨rest, w, hmem, rfl, rfl⟩ := h
        exact ⟨rest, rfl, (mem_positions t).1 hmem⟩
      · intro h
        obtain ⟨rest, rfl, hat⟩ := h
        exact ⟨rest, u, (mem_positions t).2 hat, rfl, rfl⟩
    rw [positionsFrom, List.mem_append, hhead, mem_positionsFrom ts (i + 1)]
    refine ⟨?_, ?_⟩
    · intro h
      rcases h with ⟨rest, rfl, hat⟩ | ⟨j, rest, s, rfl, hitem, hat⟩
      · exact ⟨0, rest, t, rfl, rfl, hat⟩
      · exact ⟨j + 1, rest, s, by simp; omega, hitem, hat⟩
    · intro h
      obtain ⟨j, rest, s, rfl, hitem, hat⟩ := h
      cases j with
      | zero =>
        cases hitem
        exact .inl ⟨rest, rfl, hat⟩
      | succ j => exact .inr ⟨j, rest, s, by simp; omega, hitem, hat⟩
end

/-! ## The order of reading -/

/-- The first position is read before the second: a sequence before what stands
in it, and its elements from left to right. -/
def Precedes (p q : List Nat) : Prop := List.Lex (· < ·) p q

theorem precedes_irrefl (p : List Nat) : ¬ Precedes p p := List.lex_irrefl Nat.lt_irrefl p

theorem precedes_asymm {p q : List Nat} (h : Precedes p q) : ¬ Precedes q p :=
  List.lex_asymm Nat.lt_asymm h

theorem precedes_total (p q : List Nat) : Precedes p q ∨ p = q ∨ Precedes q p :=
  trichotomous_of (List.Lex (· < ·)) p q

instance (p q : List Nat) : Decidable (Precedes p q) :=
  inferInstanceAs (Decidable (List.Lex (· < ·) p q))

theorem precedes_trans {p q r : List Nat} (h : Precedes p q) (h' : Precedes q r) : Precedes p r :=
  List.lex_trans Nat.lt_trans h h'

/-- What stands inside of a position is not read before it. -/
theorem not_precedes_of_inside {p q : List Nat} (h : p <+: q) : ¬ Precedes q p := by
  obtain ⟨rest, rfl⟩ := h
  induction p with
  | nil => exact List.not_lex_nil
  | cons i p ih =>
    intro hlex
    rcases List.cons_lex_cons_iff.1 hlex with hlt | ⟨-, hlex⟩
    · exact Nat.lt_irrefl i hlt
    · exact ih hlex

mutual
/-- Positions are listed from left to right, a sequence before its elements. -/
theorem positions_sorted : ∀ t : Term, t.positions.Pairwise fun x y => Precedes x.1 y.1
  | .seq o items => by
    refine List.Pairwise.cons ?_ (positionsFrom_sorted items 0)
    intro x hx
    obtain ⟨_, _, _, hpath, _⟩ := (mem_positionsFrom items 0).1 hx
    rw [hpath]
    exact List.Lex.nil
  | .literal _ | .grounded _ _ | .boxed _ _ | .var _ => List.pairwise_singleton _ _

theorem positionsFrom_sorted : ∀ (ts : List Term) (i : Nat),
    (positionsFrom i ts).Pairwise fun x y => Precedes x.1 y.1
  | [], _ => List.Pairwise.nil
  | t :: ts, i => by
    refine List.pairwise_append.2 ⟨?_, positionsFrom_sorted ts (i + 1), ?_⟩
    · refine List.pairwise_map.2 ((positions_sorted t).imp ?_)
      intro x y hxy
      exact List.Lex.cons hxy
    · intro x hx y hy
      obtain ⟨_, _, rfl⟩ := List.mem_map.1 hx
      obtain ⟨j, _, _, hpath, _⟩ := (mem_positionsFrom ts (i + 1)).1 hy
      rw [hpath]
      exact List.Lex.rel (by omega)
end

/-! ## Variables -/

/-- The occurrences of variables from left to right, each with its position. -/
def occurrences (t : Term) : List (List Nat × Variable) :=
  t.positions.filterMap fun x => x.2.var?.map fun v => (x.1, v)

/-- The leftmost occurrence of a variable, with the filter that it is written
with there. -/
def firstOccurrence? (t : Term) (v : Variable) : Option (List Nat × Variable) :=
  t.occurrences.find? fun x => x.2 == v

theorem var?_eq_some_iff {t : Term} {v : Variable} : t.var? = some v ↔ t = .var v := by
  cases t <;> simp [var?]

mutual
/-- The variables of a term are those that stand at its positions. -/
theorem mem_vars_iff : ∀ (t : Term) (v : Variable),
    v ∈ t.vars ↔ ∃ path, t.at? path = some (.var v)
  | .seq o items, v => by
    have hseq := exists_at?_seq (P := (· = .var v)) o items
    simp only [exists_eq_right, reduceCtorEq, false_or] at hseq
    rw [vars, mem_allVars_iff items v, hseq]
  | .var w, v => by
    rw [exists_at?_eq_of_not_seq rfl]
    simp [vars, eq_comm]
  | .literal _, v | .grounded _ _, v | .boxed _ _, v => by
    rw [exists_at?_eq_of_not_seq rfl]
    simp [vars]

theorem mem_allVars_iff : ∀ (ts : List Term) (v : Variable),
    v ∈ allVars ts ↔ ∃ t ∈ ts, ∃ path, t.at? path = some (.var v)
  | [], _ => by simp [allVars]
  | t :: ts, v => by
    rw [allVars, List.mem_append, mem_vars_iff t v, mem_allVars_iff ts v]
    simp only [List.mem_cons, exists_eq_or_imp]
end

theorem mem_occurrences {t : Term} {path : List Nat} {v : Variable} :
    (path, v) ∈ t.occurrences ↔ t.at? path = some (.var v) := by
  simp only [occurrences, List.mem_filterMap, Option.map_eq_some_iff, var?_eq_some_iff,
    Prod.mk.injEq, Prod.exists]
  refine ⟨?_, ?_⟩
  · intro h
    obtain ⟨_, _, hmem, _, rfl, rfl, rfl⟩ := h
    exact (mem_positions t).1 hmem
  · intro h
    exact ⟨path, .var v, (mem_positions t).2 h, v, rfl, rfl, rfl⟩

theorem occurrences_sorted (t : Term) : t.occurrences.Pairwise fun x y => Precedes x.1 y.1 := by
  refine List.pairwise_filterMap.2 ((positions_sorted t).imp ?_)
  intro x y hxy b hb c hc
  obtain ⟨_, -, rfl⟩ := Option.map_eq_some_iff.1 hb
  obtain ⟨_, -, rfl⟩ := Option.map_eq_some_iff.1 hc
  exact hxy

/-- The first occurrence of a variable is the one at the least position. -/
theorem firstOccurrence?_eq_some_iff {t : Term} {v w : Variable} {path : List Nat} :
    t.firstOccurrence? v = some (path, w) ↔
      t.at? path = some (.var w) ∧ w.id = v.id ∧
        ∀ other u, t.at? other = some (.var u) → u.id = v.id → ¬ Precedes other path := by
  rw [firstOccurrence?]
  refine ⟨?_, ?_⟩
  · intro h
    obtain ⟨hid, before, after, hsplit, hbefore⟩ := List.find?_eq_some_iff_append.1 h
    have hmem : (path, w) ∈ t.occurrences := by simp [hsplit]
    refine ⟨mem_occurrences.1 hmem, by simpa using hid, ?_⟩
    intro other u hother hu
    have hin : (other, u) ∈ before ++ (path, w) :: after := hsplit ▸ mem_occurrences.2 hother
    rcases List.mem_append.1 hin with hin | hin
    · exact absurd hu (by simpa using hbefore _ hin)
    · rcases List.mem_cons.1 hin with heq | hin
      · cases heq
        exact precedes_irrefl path
      · have hsorted := hsplit ▸ occurrences_sorted t
        have htail := (List.pairwise_append.1 hsorted).2.1
        exact precedes_asymm ((List.pairwise_cons.1 htail).1 _ hin)
  · intro h
    obtain ⟨hat, hid, hleast⟩ := h
    have hmem : (path, w) ∈ t.occurrences := mem_occurrences.2 hat
    obtain ⟨before, after, hsplit⟩ := List.append_of_mem hmem
    refine List.find?_eq_some_iff_append.2 ⟨by simpa using hid, before, after, hsplit, ?_⟩
    intro x hx
    have hsorted := hsplit ▸ occurrences_sorted t
    have hbefore : Precedes x.1 path := (List.pairwise_append.1 hsorted).2.2 x hx (path, w) (by simp)
    have hother : t.at? x.1 = some (.var x.2) :=
      mem_occurrences.1 (hsplit ▸ List.mem_append_left _ hx)
    have hne : x.2.id ≠ v.id := fun hx2 => hleast x.1 x.2 hother hx2 hbefore
    simpa using hne

end TermRules.Term

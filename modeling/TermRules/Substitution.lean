/-
TermRules.Substitution — putting the bound terms in place of variables.

Substitution is terminal: what is put in place of a variable is not looked into
again. A sequence none of whose elements changes is kept as it is. One with a
changed element is a new node, and it is put together from three parts: the
elements before the first one that changes, as they are; what becomes of that
one, which was computed in order to find it; and the elements after it, each
treated by itself. Nothing is looked at in an empty environment.

`substitute?` gives nothing when nothing changed, so an unchanged term is known
to be the very input. `mapped?` is the plain reading: every element of a sequence
is treated, and the sequence is a new node if any of them changed. The two agree
in all that they give, the places of new nodes included (`substitute?_eq_mapped?`);
`substitute_seq` and `substituteAll_cons` say what the result is without asking
whether something changed. `fixpoint` repeats substitution up to a number of rounds.
-/
import TermRules.Trace.Basic

namespace TermRules.Term

mutual
/-- The term with bound variables replaced, if it has any; new nodes are built
below `o`, along the shape of the term. -/
def replace? (e : Environment) : Origin → Term → Option Term
  | _, .var v => e.get? v
  | o, .seq _ items =>
    match firstReplaced? e o 0 items with
    | none => none
    | some (index, new) =>
      some (.seq o (items.take index ++ new :: replacedFrom e o (index + 1) 0 items))
  | _, _ => none

/-- The first element, of those from the `i`-th on, that has a bound variable: its
number and what becomes of it. -/
def firstReplaced? (e : Environment) (o : Origin) (i : Nat) : List Term → Option (Nat × Term)
  | [] => none
  | t :: ts =>
    match replace? e (o.sub i) t with
    | some new => some (i, new)
    | none => firstReplaced? e o (i + 1) ts

/-- The elements, of those from the `i`-th on, whose number is `first` or more, each
with bound variables replaced. -/
def replacedFrom (e : Environment) (o : Origin) (first i : Nat) : List Term → List Term
  | [] => []
  | t :: ts =>
    if i < first then replacedFrom e o first (i + 1) ts
    else (replace? e (o.sub i) t).getD t :: replacedFrom e o first (i + 1) ts
end

/-- The term with bound variables replaced, if it has any. -/
def substitute? (e : Environment) (o : Origin) (t : Term) : Option Term :=
  if e.isEmpty then none else replace? e o t

/-- The term with bound variables replaced. -/
def substitute (e : Environment) (o : Origin) (t : Term) : Term := (substitute? e o t).getD t

/-- The elements from the `i`-th on with bound variables replaced. -/
def substituteAll (e : Environment) (o : Origin) (i : Nat) : List Term → List Term
  | [] => []
  | t :: ts => t.substitute e (o.sub i) :: substituteAll e o (i + 1) ts

/-! ## The plain reading -/

mutual
/-- The term with bound variables replaced, if it has any, every element of a
sequence being looked at. -/
def mapped? (e : Environment) : Origin → Term → Option Term
  | _, .var v => e.get? v
  | o, .seq _ items => (mappedAll? e o 0 items).map (.seq o)
  | _, _ => none

/-- The elements from the `i`-th on with bound variables replaced, if they have
any. -/
def mappedAll? (e : Environment) (o : Origin) (i : Nat) : List Term → Option (List Term)
  | [] => none
  | t :: ts =>
    match mapped? e (o.sub i) t, mappedAll? e o (i + 1) ts with
    | none, none => none
    | t', ts' => some (t'.getD t :: ts'.getD ts)
end

mutual
@[simp] theorem mapped?_empty : ∀ (o : Origin) (t : Term), mapped? .empty o t = none
  | _, .var _ => rfl
  | o, .seq _ items => by simp [mapped?, mappedAll?_empty o 0 items]
  | _, .literal _ => rfl
  | _, .grounded _ _ => rfl
  | _, .boxed _ _ => rfl

@[simp] theorem mappedAll?_empty :
    ∀ (o : Origin) (i : Nat) (ts : List Term), mappedAll? .empty o i ts = none
  | _, _, [] => rfl
  | o, i, t :: ts => by
    simp [mappedAll?, mapped?_empty (o.sub i) t, mappedAll?_empty o (i + 1) ts]
end

theorem le_of_firstReplaced? {e : Environment} {o : Origin} {ts : List Term} {i index : Nat}
    {new : Term} (h : firstReplaced? e o i ts = some (index, new)) : i ≤ index := by
  induction ts generalizing i with
  | nil => cases h
  | cons t ts ih =>
    rw [firstReplaced?] at h
    cases ht : replace? e (o.sub i) t with
    | some t' =>
      rw [ht] at h
      cases h
      exact Nat.le_refl _
    | none =>
      rw [ht] at h
      exact Nat.le_of_succ_le (ih h)

mutual
/-- Putting a sequence together from its parts is treating every element. -/
theorem replace?_eq_mapped? (e : Environment) : ∀ (t : Term) (o : Origin),
    replace? e o t = mapped? e o t
  | .var _, _ | .literal _, _ | .grounded _ _, _ | .boxed _ _, _ => rfl
  | .seq _ ts, o => by
    rw [replace?, mapped?, ← spliced_eq_mappedAll? e ts o 0]
    cases firstReplaced? e o 0 ts <;> rfl

/-- The elements from the `i`-th on, put together around the first that changes. -/
theorem spliced_eq_mappedAll? (e : Environment) : ∀ (ts : List Term) (o : Origin) (i : Nat),
    ((firstReplaced? e o i ts).map fun x =>
      ts.take (x.1 - i) ++ x.2 :: replacedFrom e o (x.1 + 1) i ts) = mappedAll? e o i ts
  | [], _, _ => rfl
  | t :: ts, o, i => by
    rw [firstReplaced?, mappedAll?, ← replace?_eq_mapped? e t,
      ← spliced_eq_mappedAll? e ts o (i + 1)]
    cases ht : replace? e (o.sub i) t with
    | some new =>
      have htail := replacedFrom_eq_mappedAll? e ts o (Nat.le_refl (i + 1))
      rw [← spliced_eq_mappedAll? e ts o (i + 1)] at htail
      simp [replacedFrom, htail]
    | none =>
      cases hfirst : firstReplaced? e o (i + 1) ts with
      | none => rfl
      | some x =>
        obtain ⟨index, new⟩ := x
        obtain ⟨k, rfl⟩ := Nat.exists_eq_add_of_le (le_of_firstReplaced? hfirst)
        have hskip : i < i + 1 + k + 1 := by omega
        have htake : i + 1 + k - i = k + 1 := by omega
        simp only [Option.map_some, htake, Nat.add_sub_cancel_left, List.take_succ_cons,
          replacedFrom, if_pos hskip, List.cons_append, Option.getD_none, Option.getD_some]

/-- Behind the first element that changes, every element is treated. -/
theorem replacedFrom_eq_mappedAll? (e : Environment) : ∀ (ts : List Term) (o : Origin)
    {first i : Nat}, first ≤ i → replacedFrom e o first i ts = (mappedAll? e o i ts).getD ts
  | [], _, _, _, _ => rfl
  | t :: ts, o, first, i, h => by
    rw [replacedFrom, if_neg (Nat.not_lt.2 h), mappedAll?, replace?_eq_mapped? e t,
      replacedFrom_eq_mappedAll? e ts o (Nat.le_succ_of_le h)]
    cases mapped? e (o.sub i) t <;> cases mappedAll? e o (i + 1) ts <;> rfl
end

/-- **Substitution is the plain map over sequences**: in its value, in whether
anything changed, and in the places of what is new. -/
theorem substitute?_eq_mapped? (e : Environment) (o : Origin) (t : Term) :
    substitute? e o t = mapped? e o t := by
  unfold substitute?
  split
  · rename_i hempty
    obtain ⟨entries⟩ := e
    obtain rfl : entries = [] := List.isEmpty_iff.1 hempty
    exact (mapped?_empty o t).symm
  · exact replace?_eq_mapped? e t o

/-! ## What becomes of a term -/

theorem substitute_var (e : Environment) (o : Origin) (v : Variable) :
    (var v).substitute e o = (e.get? v).getD (.var v) := by
  rw [substitute, substitute?_eq_mapped?, mapped?]

theorem substitute_var_of_get? {e : Environment} {v : Variable} {t : Term}
    (h : e.get? v = some t) (o : Origin) : (var v).substitute e o = t := by
  rw [substitute_var, h, Option.getD_some]

@[simp] theorem substitute_literal (e : Environment) (o : Origin) (l : Literal) :
    (literal l).substitute e o = .literal l := by
  rw [substitute, substitute?_eq_mapped?]
  rfl

@[simp] theorem substitute_grounded (e : Environment) (o p : Origin) (x : Payload) :
    (grounded p x).substitute e o = .grounded p x := by
  rw [substitute, substitute?_eq_mapped?]
  rfl

@[simp] theorem substitute_boxed (e : Environment) (o p : Origin) (t : Term) :
    (boxed p t).substitute e o = .boxed p t := by
  rw [substitute, substitute?_eq_mapped?]
  rfl

@[simp] theorem substituteAll_nil (e : Environment) (o : Origin) (i : Nat) :
    substituteAll e o i [] = [] := rfl

@[simp] theorem substituteAll_cons (e : Environment) (o : Origin) (i : Nat) (t : Term)
    (ts : List Term) :
    substituteAll e o i (t :: ts) = t.substitute e (o.sub i) :: substituteAll e o (i + 1) ts := rfl

theorem getD_mappedAll? (e : Environment) (o : Origin) (i : Nat) (ts : List Term) :
    (mappedAll? e o i ts).getD ts = substituteAll e o i ts := by
  induction ts generalizing i with
  | nil => rfl
  | cons t ts ih =>
    rw [substituteAll_cons, ← ih (i + 1), mappedAll?, substitute, substitute?_eq_mapped?]
    cases mapped? e (o.sub i) t <;> cases mappedAll? e o (i + 1) ts <;> rfl

/-- A sequence becomes one, kept or new, of its elements so treated. -/
theorem substitute_seq (e : Environment) (o p : Origin) (ts : List Term) :
    ∃ q, (seq p ts).substitute e o = .seq q (substituteAll e o 0 ts) := by
  rw [substitute, substitute?_eq_mapped?, mapped?, ← getD_mappedAll?]
  cases mappedAll? e o 0 ts with
  | none => exact ⟨p, rfl⟩
  | some us => exact ⟨o, rfl⟩

@[simp] theorem length_substituteAll (e : Environment) (o : Origin) (i : Nat) (ts : List Term) :
    (substituteAll e o i ts).length = ts.length := by
  induction ts generalizing i with
  | nil => rfl
  | cons t ts ih => simp [ih]

/-! ## Rounds -/

/-- Substitutes for up to `left` more rounds, counting from `round`. -/
def fixpointFrom (e : Environment) (o : Origin) (round : Nat) : (left : Nat) → Term → Traced Term
  | 0, t => pure t
  | left + 1, t =>
    match substitute? e (o.sub round) t with
    | none => do
      .emit (.fixpointReached round)
      return t
    | some t' => fixpointFrom e o (round + 1) left t'

/-- Substitutes until nothing is left to replace or the rounds are used up. -/
def fixpoint (e : Environment) (o : Origin) (rounds : Nat) (t : Term) : Traced Term :=
  fixpointFrom e o 0 rounds t

end TermRules.Term

/-
TermRules.Term.Occurrence — where things stand in a term.

A position is a path through sequences: the index of an element in each of
them, from the outside in. `vars` lists the variables of a term as they
are met from left to right, once for each occurrence. What is inside a boxed
term is no part of the term around it. Main statement: `isGround_iff`.
-/
import TermRules.Term.Basic

namespace TermRules.Term

/-! ## Size -/

mutual
/-- The number of atoms, variables and sequences in a term. -/
def size : Term → Nat
  | .seq _ items => sizeAll items + 1
  | _ => 1

/-- The size of several terms together. -/
def sizeAll : List Term → Nat
  | [] => 0
  | t :: ts => size t + sizeAll ts
end

theorem size_pos (t : Term) : 0 < t.size := by
  cases t <;> simp [size]

/-! ## Variables -/

mutual
/-- The variables of a term from left to right, with repetitions. -/
def vars : Term → List Variable
  | .var v => [v]
  | .seq _ items => allVars items
  | _ => []

/-- The variables of several terms from left to right. -/
def allVars : List Term → List Variable
  | [] => []
  | t :: ts => vars t ++ allVars ts
end

mutual
/-- A term is ground exactly when no variable occurs in it. -/
theorem isGround_iff : ∀ t : Term, t.isGround = true ↔ t.vars = []
  | .var _ => by simp [isGround, vars]
  | .seq _ items => by simp [isGround, vars, allGround_iff items]
  | .literal _ | .grounded _ _ | .boxed _ _ => by simp [isGround, vars]

theorem allGround_iff : ∀ ts : List Term, allGround ts = true ↔ allVars ts = []
  | [] => by simp [allGround, allVars]
  | t :: ts => by simp [allGround, allVars, isGround_iff t, allGround_iff ts]
end

/-! ## Positions -/

/-- The subterm at a position. -/
def at? : Term → List Nat → Option Term
  | t, [] => some t
  | .seq _ items, i :: path => items[i]? >>= fun t => t.at? path
  | _, _ :: _ => none

@[simp] theorem at?_nil (t : Term) : t.at? [] = some t := by
  cases t <;> rfl

/-- The term with another subterm at a position; the sequences on the way to it
are built anew below `o`, along the position. -/
def put? (u : Term) : Origin → Term → List Nat → Option Term
  | _, _, [] => some u
  | o, .seq _ items, i :: path => do
    let t ← items[i]?
    return .seq o (items.set i (← put? u (o.sub i) t path))
  | _, _, _ :: _ => none

@[simp] theorem put?_nil (u : Term) (o : Origin) (t : Term) : put? u o t [] = some u := by
  cases t <;> rfl

end TermRules.Term

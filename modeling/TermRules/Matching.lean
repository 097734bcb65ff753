/-
TermRules.Matching — matching a pattern against a term.

Matching is one-way: variables of the pattern bind, variables of the target are
plain values. It goes from left to right, and each element sees what the ones
before it bound. A bound variable asks for a term equal to its own; an unbound
one asks its filter. The built-in filters look at the shape of a term; what a custom
one accepts is looked up by its key in an `Acceptance`, which matching is handed, and
such a test may itself match and so report events. On failure the environment keeps
what was bound before the failing position. Main statement: `entries_visit`, that
matching only appends.
-/
import TermRules.Trace.Basic

namespace TermRules

/-- What the custom filters accept, by key. -/
structure Acceptance where
  test : Nat → Term → Traced Bool

instance : Inhabited Acceptance := ⟨⟨fun _ _ => pure false⟩⟩

namespace Filter

/-- Integers and floating point numbers. -/
def isNumber : Term → Bool
  | .literal (.long _) | .literal (.float _) => true
  | _ => false

/-- Whether a filter lets a term through. -/
def accepts (a : Acceptance) : Filter → Term → Traced Bool
  | .number, t => pure (isNumber t)
  | .symbol, t => pure t.symbol?.isSome
  | .sequence, t => pure t.isSeq
  | .custom _ key, t => a.test key t

end Filter

/-- Whether a variable may be bound to a term. -/
def Variable.accepts (a : Acceptance) (v : Variable) (t : Term) : Traced Bool :=
  match v.filter with
  | none => pure true
  | some f => f.accepts a t

/-! ## Matching -/

/-- A match that the caller asserted does not hold. -/
structure Mismatch where
  pattern : Term
  target : Term

def Mismatch.message (m : Mismatch) : String :=
  "pattern " ++ m.pattern.display ++ " does not match " ++ m.target.display

namespace Matching

variable [OwnEquality]

mutual
/-- Walks a pattern and a target together, extending the environment. -/
def visit (a : Acceptance) : Term → Term → Environment → Traced Attempt
  | .var v, t, e =>
    match e.get? v with
    | some bound => pure ⟨bound == t, e⟩
    | none => do
      if ← v.accepts a t then return ⟨true, e.push v t⟩ else return ⟨false, e⟩
  | .seq _ ps, .seq _ ts, e =>
    if ps.length = ts.length then visitAll a ps ts e else pure ⟨false, e⟩
  | .seq _ _, _, e => pure ⟨false, e⟩
  | p, t, e => pure ⟨p == t, e⟩

/-- Walks the elements of two sequences, stopping at the first failure. -/
def visitAll (a : Acceptance) : List Term → List Term → Environment → Traced Attempt
  | p :: ps, t :: ts, e => do
    let attempt ← visit a p t e
    if attempt.ok then visitAll a ps ts attempt.env else return attempt
  | [], [], e => pure ⟨true, e⟩
  | _, _, e => pure ⟨false, e⟩
end

/-- A sequence never matches a term that is none. -/
theorem visit_seq_of_not_seq (a : Acceptance) (o : Origin) (ps : List Term) {t : Term}
    (ht : t.isSeq = false) (e : Environment) :
    visit a (.seq o ps) t e = pure ⟨false, e⟩ := by
  cases t with
  | seq p ts => cases ht
  | _ => rw [visit]; nofun

mutual
/-- Matching only appends to the environment, also when it fails. -/
theorem entries_visit (a : Acceptance) : ∀ (p t : Term) (e : Environment),
    ∃ more, (visit a p t e).value.env.entries = e.entries ++ more
  | .var v, t, e => by
    rw [visit]
    split
    · exact ⟨[], by simp⟩
    · simp only [Traced.value_bind]
      split
      · exact ⟨[(v, t)], rfl⟩
      · exact ⟨[], by simp⟩
  | .seq _ ps, .seq _ ts, e => by
    rw [visit]
    split
    · exact entries_visitAll a ps ts e
    · exact ⟨[], by simp⟩
  | .seq _ _, .literal _, e | .seq _ _, .grounded _ _, e | .seq _ _, .boxed _ _, e
  | .seq _ _, .var _, e => ⟨[], by simp [visit]⟩
  | .literal _, _, e | .grounded _ _, _, e | .boxed _ _, _, e => ⟨[], by simp [visit]⟩

theorem entries_visitAll (a : Acceptance) : ∀ (ps ts : List Term) (e : Environment),
    ∃ more, (visitAll a ps ts e).value.env.entries = e.entries ++ more
  | p :: ps, t :: ts, e => by
    obtain ⟨first, hfirst⟩ := entries_visit a p t e
    simp only [visitAll, Traced.value_bind]
    split
    · obtain ⟨rest, hrest⟩ := entries_visitAll a ps ts (visit a p t e).value.env
      exact ⟨first ++ rest, by rw [hrest, hfirst, List.append_assoc]⟩
    · exact ⟨first, hfirst⟩
  | [], [], e | [], _ :: _, e | _ :: _, [], e => ⟨[], by simp [visitAll]⟩
end

/-- Matches a pattern against a term in an environment. -/
def into (a : Acceptance) (p t : Term) (e : Environment) : Traced Attempt := do
  .emit (.matching p t e.length)
  visit a p t e

theorem value_into (a : Acceptance) (p t : Term) (e : Environment) :
    (into a p t e).value = (visit a p t e).value := rfl

/-- Matches in an empty environment; gives the bindings of a success. -/
def bindings? (a : Acceptance) (p t : Term) : Traced (Option Environment) := do
  let attempt ← into a p t .empty
  return if attempt.ok then some attempt.env else none

/-- Matches where the caller asserts that the match holds: a failure is an
error that carries both operands. -/
def asserted (a : Acceptance) (p t : Term) (e : Environment) :
    Traced (Except Mismatch Unit × Environment) := do
  let attempt ← into a p t e
  return (if attempt.ok then .ok () else .error ⟨p, t⟩, attempt.env)

end Matching

end TermRules

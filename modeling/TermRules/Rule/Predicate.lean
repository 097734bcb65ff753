/-
TermRules.Rule.Predicate — the predicates that rules are built from.

Nothing is rolled back inside a predicate: what its parts bind stays bound,
also in the parts that failed. Conjunctions and disjunctions stop at the first
part that decides them.
-/
import TermRules.Matching
import TermRules.Rule.Basic

namespace TermRules.Predicate

variable [OwnEquality]

/-! ## About the term -/

/-- Looks at the term only. -/
def ofTerm (f : Term → Bool) : Predicate := ⟨fun t e => pure ⟨f t, e⟩⟩

def always : Predicate := ofTerm fun _ => true

def never : Predicate := ofTerm fun _ => false

def isGround : Predicate := ofTerm Term.isGround

def isSeq : Predicate := ofTerm Term.isSeq

def isAtom : Predicate := ofTerm Term.isAtom

def isVar : Predicate := ofTerm fun t => t.var?.isSome

def hasArity (n : Nat) : Predicate := ofTerm fun t => t.arity = n

def hasHead (name : String) : Predicate := ofTerm fun t => t.head? = some ⟨name⟩

def equals (u : Term) : Predicate := ofTerm (u == ·)

/-- Whether the variable might be bound to the term. -/
def acceptedBy (a : Acceptance) (v : Variable) : Predicate :=
  ⟨fun t e => do return ⟨← v.accepts a t, e⟩⟩

/-! ## About the environment -/

def binds (entries : List (Variable × Term)) : Predicate := ⟨fun _ e => pure (e.bindAll entries)⟩

/-- Binds the variable to the term itself. -/
def bindsSelf (v : Variable) : Predicate := ⟨fun t e => pure (e.bind v t)⟩

def isBound (v : Variable) : Predicate := ⟨fun _ e => pure ⟨e.contains v, e⟩⟩

/-- Drops the environment and binds into an empty one. -/
def replaces (entries : List (Variable × Term)) : Predicate :=
  ⟨fun _ _ => pure (Environment.empty.bindAll entries)⟩

def hasLength (n : Nat) : Predicate := ⟨fun _ e => pure ⟨e.length = n, e⟩⟩

/-! ## Matching -/

/-- The term matches. -/
def matching (a : Acceptance) (p : Term) : Predicate := ⟨fun t e => Matching.into a p t e⟩

/-- The term matches, and whether it did is reported. -/
def pattern (a : Acceptance) (p : Term) : Predicate :=
  ⟨fun t e => do
    let attempt ← Matching.into a p t e
    .emit (.tested p t attempt.ok)
    return attempt⟩

/-- Some rule of the set matches. The result is dropped, so it does not matter
where it is built. -/
def matchedBy {R : Type} (s : RuleSet R) : Predicate :=
  ⟨fun t e => do
    let outcome ← s.applyIn default t e
    return ⟨outcome.result.isSome, outcome.env⟩⟩

/-! ## Combinations -/

def all : List Predicate → Predicate
  | [] => always
  | p :: ps => ⟨fun t e => do
    let attempt ← p.test t e
    if attempt.ok then (all ps).test t attempt.env else return attempt⟩

def any : List Predicate → Predicate
  | [] => never
  | p :: ps => ⟨fun t e => do
    let attempt ← p.test t e
    if attempt.ok then return attempt else (any ps).test t attempt.env⟩

def not (p : Predicate) : Predicate :=
  ⟨fun t e => do
    let attempt ← p.test t e
    return ⟨!attempt.ok, attempt.env⟩⟩

/-- The predicate under observation: each run is reported with the environment
it started from. -/
def observed (label : String) (p : Predicate) : Predicate :=
  ⟨fun t e => do
    let attempt ← p.test t e
    .emit (.predicateRan label t e attempt.ok)
    return attempt⟩

/-- The predicate as the test of a custom filter: it runs on the term in an
empty environment. -/
def accepts (p : Predicate) (t : Term) : Traced Bool := Attempt.ok <$> p.test t .empty

end TermRules.Predicate

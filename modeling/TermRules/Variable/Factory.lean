/-
TermRules.Variable.Factory — minting variables that no one else has.

Each factory owns a scope, and counts the variables it minted in it. A `Mint`
holds all factories: those created on request, and for each thread a default
one that is created when the thread first needs it. Both kinds draw their
scopes from one counter, so no two factories share a scope.
-/
import TermRules.Variable.Basic

namespace TermRules

/-- A source of fresh variables within one scope. -/
structure Factory where
  scope : UInt64
  issued : UInt64

namespace Factory

/-- A variable that the factory has not minted before. -/
def fresh (f : Factory) : Variable × Factory :=
  (⟨.fresh f.scope f.issued, none⟩, { f with issued := f.issued + 1 })

def inspect (f : Factory) : String :=
  "VarFactory \x7b scope: " ++ toString f.scope.toNat ++ ", next: Cell \x7b value: " ++
    toString f.issued.toNat ++ " \x7d \x7d"

end Factory

/-- All factories, and the scope that the next one takes. -/
structure Mint where
  nextScope : UInt64 := 0
  /-- The factories created on request, oldest first. -/
  created : List Factory := []
  /-- The default factories of threads. -/
  defaults : List (Nat × Factory) := []

namespace Mint

/-- A factory of its own scope. -/
def newFactory (m : Mint) : Factory × Mint :=
  (⟨m.nextScope, 0⟩, { m with nextScope := m.nextScope + 1 })

/-- Creates a factory on request, as the last one. -/
def create (m : Mint) : Factory × Mint :=
  let (f, m) := m.newFactory
  (f, { m with created := m.created ++ [f] })

/-- A fresh variable of the `i`-th created factory. -/
def fresh? (m : Mint) (i : Nat) : Option (Variable × Mint) := do
  let f ← m.created[i]?
  let (v, f) := f.fresh
  return (v, { m with created := m.created.set i f })

/-- The default factory of a thread, created if it has none yet. -/
def defaultOf (m : Mint) (thread : Nat) : Factory × Mint :=
  match m.defaults.lookup thread with
  | some f => (f, m)
  | none => m.newFactory

/-- A fresh variable of a thread's default factory. -/
def freshOn (m : Mint) (thread : Nat) : Variable × Mint :=
  let (f, m) := m.defaultOf thread
  let (v, f) := f.fresh
  (v, { m with defaults := (thread, f) :: m.defaults.filter (·.1 != thread) })

end Mint

end TermRules

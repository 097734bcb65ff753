/-
TermRules.Variable.Basic — symbols, pattern variables and their filters.

A variable is its identity: named variables are equal when their names are,
fresh ones when they were minted by the same call. `==` compares identities
only, while `=` also tells filters apart. A filter restricts what a variable
may be bound to; a custom one is known by a key, and what it accepts is looked
up where matching runs.
-/
import TermRules.Text.Quoted

namespace TermRules

/-- A symbolic name. -/
structure Symbol where
  name : String
deriving DecidableEq, Inhabited

namespace Symbol

def display (s : Symbol) : String := s.name

def inspect (s : Symbol) : String := "Symbol(" ++ quoted s.name ++ ")"

end Symbol

/-- The identity of a variable: a name, or the factory and the call that
minted it. -/
inductive Identity where
  | named (name : Symbol)
  | fresh (scope index : UInt64)
deriving DecidableEq, Inhabited

namespace Identity

def display : Identity → String
  | .named s => "$" ++ s.display
  | .fresh scope index => "$_" ++ toString scope.toNat ++ "_" ++ toString index.toNat

def inspect : Identity → String
  | .named s => "Named(" ++ s.inspect ++ ")"
  | .fresh scope index =>
    "Fresh \x7b scope: " ++ toString scope.toNat ++ ", index: " ++ toString index.toNat ++ " \x7d"

end Identity

/-- What a variable may be bound to. -/
inductive Filter where
  | number
  | symbol
  | sequence
  | custom (label : String) (key : Nat)
deriving DecidableEq

namespace Filter

def label : Filter → String
  | .number => "number"
  | .symbol => "symbol"
  | .sequence => "sequence"
  | .custom label _ => label

end Filter

/-- A placeholder in a pattern, with the filter it was written with. -/
structure Variable where
  id : Identity
  filter : Option Filter
deriving DecidableEq

namespace Variable

/-- The variable of a name, accepting every term. -/
def named (name : String) : Variable := ⟨.named ⟨name⟩, none⟩

/-- The same variable with another filter. -/
def withFilter (v : Variable) (f : Filter) : Variable := { v with filter := some f }

/-- Variables are equal when their identities are. -/
instance : BEq Variable := ⟨fun v w => v.id == w.id⟩

theorem beq_def (v w : Variable) : (v == w) = (v.id == w.id) := rfl

@[simp] theorem beq_iff (v w : Variable) : (v == w) = true ↔ v.id = w.id := by
  simp [beq_def]

@[simp] theorem beq_eq_false_iff (v w : Variable) : (v == w) = false ↔ v.id ≠ w.id := by
  simp [beq_def]

/-- The name of a named variable. -/
def name? (v : Variable) : Option String :=
  match v.id with
  | .named s => some s.name
  | .fresh _ _ => none

def display (v : Variable) : String := v.id.display

def inspect (v : Variable) : String :=
  "Variable(" ++ v.display ++
    (match v.filter with
      | none => ""
      | some f => ": " ++ f.label) ++ ")"

end Variable

end TermRules

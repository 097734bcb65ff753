/-
TermRules.Term.Basic — the terms that are matched and reduced.

A term is a literal, a grounded atom (an opaque value of the caller, or a term
boxed as such a value), a variable, or a sequence of terms. Sequences and
grounded atoms know the origin at which they were built, so `=` on terms is
full identity: the same shape, the same bits, the same filters and the same
nodes. The coarser equality that matching uses is `==`, in `Term.Equality`.
-/
import TermRules.Binary64
import TermRules.Origin
import TermRules.Variable.Basic

namespace TermRules

/-- A literal atom. -/
inductive Literal where
  | symbol (s : Symbol)
  | bool (b : Bool)
  | long (n : Int64)
  | float (x : Binary64)
  | str (s : String)
  | nil
deriving DecidableEq

/-- A value of the caller that terms carry about unopened. -/
inductive Payload where
  | byte (n : UInt8)
  | word (n : UInt16)
  | long (n : Int64)
  | float (x : Binary64)
  | text (s : String)
  | bytes (bs : List UInt8)
  | point (x y : Int64)
  | unit
deriving DecidableEq

/-- The universal value of the engine. -/
inductive Term where
  | literal (l : Literal)
  | grounded (origin : Origin) (value : Payload)
  | boxed (origin : Origin) (value : Term)
  | var (v : Variable)
  | seq (origin : Origin) (items : List Term)

namespace Term

def symbol (name : String) : Term := .literal (.symbol ⟨name⟩)

def long (n : Int64) : Term := .literal (.long n)

def nil : Term := .literal .nil

instance : Inhabited Term := ⟨nil⟩

/-! ## Shape -/

/-- The elements of a sequence. -/
def elements? : Term → Option (List Term)
  | .seq _ items => some items
  | _ => none

def isSeq : Term → Bool
  | .seq _ _ => true
  | _ => false

/-- Literals and grounded values. -/
def isAtom : Term → Bool
  | .literal _ | .grounded _ _ | .boxed _ _ => true
  | _ => false

def var? : Term → Option Variable
  | .var v => some v
  | _ => none

def symbol? : Term → Option Symbol
  | .literal (.symbol s) => some s
  | _ => none

/-- The number of elements of a sequence, zero otherwise. -/
def arity : Term → Nat
  | .seq _ items => items.length
  | _ => 0

/-- The leading symbol: the term itself or the first element of a sequence. -/
def head? : Term → Option Symbol
  | .seq _ (first :: _) => first.symbol?
  | .seq _ [] => none
  | t => t.symbol?

mutual
/-- Whether no variable occurs; what is inside a boxed term does not count. -/
def isGround : Term → Bool
  | .var _ => false
  | .seq _ items => allGround items
  | _ => true

/-- Whether no variable occurs in any of the terms. -/
def allGround : List Term → Bool
  | [] => true
  | t :: ts => isGround t && allGround ts
end

/-! ## Identity -/

mutual
/-- Whether two terms are the same in every respect. -/
def identical : Term → Term → Bool
  | .literal l, .literal m => l = m
  | .grounded o v, .grounded p w => o = p && v = w
  | .boxed o t, .boxed p u => o = p && identical t u
  | .var v, .var w => v = w
  | .seq o ts, .seq p us => o = p && allIdentical ts us
  | _, _ => false

/-- Whether two lists are the same term by term. -/
def allIdentical : List Term → List Term → Bool
  | [], [] => true
  | t :: ts, u :: us => identical t u && allIdentical ts us
  | _, _ => false
end

mutual
theorem identical_iff : ∀ t u : Term, identical t u = true ↔ t = u
  | .literal _, u => by cases u <;> simp [identical]
  | .grounded _ _, u => by cases u <;> simp [identical]
  | .boxed _ t, u => by
    cases u with
    | boxed _ u => simp [identical, identical_iff t u]
    | _ => simp [identical]
  | .var _, u => by cases u <;> simp [identical]
  | .seq _ ts, u => by
    cases u with
    | seq _ us => simp [identical, allIdentical_iff ts us]
    | _ => simp [identical]

theorem allIdentical_iff : ∀ ts us : List Term, allIdentical ts us = true ↔ ts = us
  | [], us => by cases us <;> simp [allIdentical]
  | t :: ts, us => by
    cases us with
    | nil => simp [allIdentical]
    | cons u us => simp [allIdentical, identical_iff t u, allIdentical_iff ts us]
end

instance : DecidableEq Term := fun t u => decidable_of_iff _ (identical_iff t u)

end Term

end TermRules

/-
TermRules.Term.Equality — when two terms count as equal, and when as shared.

`==` compares values: numbers numerically, so a NaN differs from itself,
variables by identity whatever their filters, sequences element by element
wherever they were built, and grounded atoms as the very same atom or by their
values. What makes two values of a caller equal is a matter of their type, which
brings an `OwnEquality`; values of two types never are equal. `sharedWith` asks for
the same node where nodes have an identity, that is for sequences and grounded
atoms, and falls back on `==` for the rest.
-/
import TermRules.Term.Basic

namespace TermRules

/-! ## Values -/

/-- Literals are equal when they are the same; numbers compare numerically. -/
instance : BEq Literal where
  beq
    | .float x, .float y => x == y
    | l, m => decide (l = m)

/-- Grounded values are equal when they are the same; values of two kinds never
are, and numbers compare numerically. -/
instance : BEq Payload where
  beq
    | .float x, .float y => x == y
    | v, w => decide (v = w)

/-- An equality that compares numbers numerically and everything else by what
it is. -/
structure NumericEquality {α : Type} [BEq α] (number : Binary64 → α) : Prop where
  inj : ∀ {x y}, number x = number y → x = y
  iff : ∀ {l m}, (l == m) = true ↔
    (∃ x y, l = number x ∧ m = number y ∧ (x == y) = true) ∨ (l = m ∧ ∀ x, l ≠ number x)

namespace NumericEquality

variable {α : Type} [BEq α] {number : Binary64 → α}

theorem symm (h : NumericEquality number) {l m : α} (hlm : (l == m) = true) :
    (m == l) = true := by
  rw [h.iff] at hlm ⊢
  rcases hlm with ⟨x, y, rfl, rfl, hxy⟩ | ⟨rfl, hl⟩
  · exact .inl ⟨y, x, rfl, rfl, Binary64.beq_comm x y ▸ hxy⟩
  · exact .inr ⟨rfl, hl⟩

theorem trans (h : NumericEquality number) {l m n : α} (hlm : (l == m) = true)
    (hmn : (m == n) = true) : (l == n) = true := by
  rw [h.iff] at hlm hmn ⊢
  rcases hlm with ⟨x, y, rfl, rfl, hxy⟩ | ⟨rfl, -⟩
  · rcases hmn with ⟨y', z, heq, rfl, hyz⟩ | ⟨rfl, hm⟩
    · cases h.inj heq
      exact .inl ⟨x, z, rfl, rfl, Binary64.beq_trans hxy hyz⟩
    · exact absurd rfl (hm y)
  · exact hmn

end NumericEquality

theorem Literal.numericEquality : NumericEquality Literal.float where
  inj h := by injection h
  iff := by
    intro l m
    cases l with
    | float x =>
      cases m with
      | float y => simp [show (Literal.float x == .float y) = (x == y) from rfl]
      | _ => simp [BEq.beq]
    | _ => simp [BEq.beq]

theorem Payload.numericEquality : NumericEquality Payload.float where
  inj h := by injection h
  iff := by
    intro v w
    cases v with
    | float x =>
      cases w with
      | float y => simp [show (Payload.float x == .float y) = (x == y) from rfl]
      | _ => simp [BEq.beq]
    | _ => simp [BEq.beq]

/-- The type of a value of the caller. Boxed terms have a type of their own. -/
inductive Kind where
  | byte | word | long | float | text | bytes | point | unit | term
deriving DecidableEq

def Payload.kind : Payload → Kind
  | .byte _ => .byte
  | .word _ => .word
  | .long _ => .long
  | .float _ => .float
  | .text _ => .text
  | .bytes _ => .bytes
  | .point _ _ => .point
  | .unit => .unit

/-- The equality that a caller's types bring along for their values: symmetric and
transitive, but a value need not equal itself. Values of two types are never asked about. -/
class OwnEquality where
  eq : Payload → Payload → Bool
  symm : ∀ {v w}, v.kind = w.kind → eq v w = true → eq w v = true
  trans : ∀ {v w x}, v.kind = w.kind → w.kind = x.kind → eq v w = true → eq w x = true →
    eq v x = true

namespace OwnEquality

/-- Values are compared by what `f` makes of them. -/
@[reducible] def comparing (f : Payload → Payload) : OwnEquality where
  eq v w := f v == f w
  symm _ := Payload.numericEquality.symm
  trans _ _ := Payload.numericEquality.trans

/-- Values are compared as they are, if nothing else is said. -/
instance numeric : OwnEquality := comparing id

/-- Values are equal if they are of one type and equal as values of it. -/
def agree [OwnEquality] (v w : Payload) : Bool := v.kind = w.kind && eq v w

end OwnEquality

/-! ## Terms -/

namespace Term

section Equality

variable [OwnEquality]

mutual
/-- Equality of terms. -/
protected def beq : Term → Term → Bool
  | .literal l, .literal m => l == m
  | .grounded o v, .grounded p w => OwnEquality.agree v w || (o = p && v = w)
  | .boxed o t, .boxed p u => Term.beq t u || (o = p && t = u)
  | .var v, .var w => v == w
  | .seq _ ts, .seq _ us => beqAll ts us
  | _, _ => false

/-- Equality of lists of terms, element by element. -/
def beqAll : List Term → List Term → Bool
  | [], [] => true
  | t :: ts, u :: us => Term.beq t u && beqAll ts us
  | _, _ => false
end

instance : BEq Term := ⟨Term.beq⟩

theorem beq_def (t u : Term) : (t == u) = Term.beq t u := rfl

end Equality

/-- The same node, for terms that are nodes; equality for the others, which never asks
about a value of the caller. -/
def sharedWith : Term → Term → Bool
  | .seq o ts, .seq p us => o = p && ts = us
  | .grounded o v, .grounded p w => o = p && v = w
  | .boxed o t, .boxed p u => o = p && t = u
  | t, u => t == u

end Term

end TermRules

/-
TermRules.Binary64 — double precision numbers kept as their 64 bits.

A number is its bit pattern, so the sign of a zero and the payload of a NaN
survive everything that only moves terms about. A finite number denotes
`significand * 2 ^ scale`, negated when `negative`. `=` compares bits; `==` is
the numeric equality: a NaN equals nothing, and the two zeros equal each other.
Main statements: `beq_comm`, `beq_trans`, and `beq_self` (a number equals itself exactly when
it is no NaN).
-/

namespace TermRules

/-- A double precision floating point number, by its bits. -/
structure Binary64 where
  bits : UInt64
deriving DecidableEq, Inhabited

namespace Binary64

/-! ## Fields -/

/-- The value of the bit above the 52 bits of the fraction. -/
def hiddenBit : Nat := 0x10000000000000

/-- The top bit: set for a negative number, negative zero included. -/
def negative (x : Binary64) : Bool := decide (0x8000000000000000 ≤ x.bits.toNat)

/-- The eleven exponent bits, biased by 1023. -/
def exponentField (x : Binary64) : Nat := x.bits.toNat / hiddenBit % 2048

/-- The low 52 bits. -/
def fractionField (x : Binary64) : Nat := x.bits.toNat % hiddenBit

def isNaN (x : Binary64) : Bool := x.exponentField == 2047 && x.fractionField != 0

def isInfinite (x : Binary64) : Bool := x.exponentField == 2047 && x.fractionField == 0

def isZero (x : Binary64) : Bool := x.exponentField == 0 && x.fractionField == 0

/-- The integer `m` of a finite magnitude `m * 2 ^ scale`: the fraction, with
the hidden bit above it unless the number is subnormal. -/
def significand (x : Binary64) : Nat :=
  if x.exponentField = 0 then x.fractionField else hiddenBit + x.fractionField

/-- The binary exponent of a finite magnitude `significand * 2 ^ scale`. -/
def scale (x : Binary64) : Int :=
  if x.exponentField = 0 then -1074 else (x.exponentField : Int) - 1075

/-- The gap below a number is half the gap above it when its fraction is zero
and the binade below has finer steps. -/
def finerBelow (x : Binary64) : Bool := x.fractionField == 0 && decide (1 < x.exponentField)

/-! ## Numeric equality -/

/-- Numbers are equal when neither is a NaN and they have the same bits or
are both zeros. -/
protected def beq (x y : Binary64) : Bool :=
  !x.isNaN && !y.isNaN && (x.bits == y.bits || (x.isZero && y.isZero))

instance : BEq Binary64 := ⟨Binary64.beq⟩

theorem beq_def (x y : Binary64) :
    (x == y) = (!x.isNaN && !y.isNaN && (x.bits == y.bits || (x.isZero && y.isZero))) := rfl

/-- Equality is reflexive away from the NaNs, and only there. -/
theorem beq_self (x : Binary64) : (x == x) = !x.isNaN := by
  simp [beq_def]

theorem beq_comm (x y : Binary64) : (x == y) = (y == x) := by
  have h : (x.bits == y.bits) = (y.bits == x.bits) := Bool.beq_comm
  simp only [beq_def, h]
  cases x.isNaN <;> cases y.isNaN <;> cases x.isZero <;> cases y.isZero <;> simp

theorem beq_trans {x y z : Binary64} (hxy : (x == y) = true) (hyz : (y == z) = true) :
    (x == z) = true := by
  obtain ⟨a⟩ := x
  obtain ⟨b⟩ := y
  obtain ⟨c⟩ := z
  simp only [beq_def, Bool.and_eq_true, Bool.or_eq_true, Bool.not_eq_true', beq_iff_eq] at *
  obtain ⟨⟨hx, hy⟩, h⟩ := hxy
  obtain ⟨⟨_, hz⟩, h'⟩ := hyz
  refine ⟨⟨hx, hz⟩, ?_⟩
  rcases h with h | h <;> rcases h' with h' | h'
  · exact .inl (h.trans h')
  · subst h; exact .inr h'
  · subst h'; exact .inr h
  · exact .inr ⟨h.1, h'.2⟩

end Binary64

end TermRules

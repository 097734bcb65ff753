/-
TermRules.Proofs.PartialEquivalence — which terms equality holds of.

Equality is symmetric and transitive, so it is an equivalence on the terms that equal
themselves. These are the ones without a NaN (`beq_self_iff`): a sequence is compared
element by element even with itself, so a NaN in it counts at whatever depth. Inside of a
grounded atom it does not count, since atoms may also be equal by being the very same. For
that reason two handles to one atom are equal although its value may differ from itself,
while two handles to one sequence need not be.

None of this rests on what values callers have. `beq_partialEquivalence` says it of `==`
and of equality over any symmetric and transitive equality of values.
-/
import TermRules.Proofs.Equality
import TermRules.Proofs.Positions

namespace TermRules

/-! ## What stands in a term -/

namespace Term

/-- The term is a NaN. -/
def IsNaN (t : Term) : Prop := ∃ x, t = .literal (.float x) ∧ x.isNaN = true

/-- A NaN stands in the term; what is inside of grounded atoms does not count. -/
def HoldsNaN (t : Term) : Prop := ∃ path u, t.at? path = some u ∧ u.IsNaN

/-- The type of the value in a grounded atom. -/
def kind? : Term → Option Kind
  | .grounded _ v => some v.kind
  | .boxed _ _ => some .term
  | _ => none

theorem holdsNaN_seq (o : Origin) (ts : List Term) :
    (Term.seq o ts).HoldsNaN ↔ ∃ t ∈ ts, t.HoldsNaN := by
  rw [HoldsNaN, exists_at?_seq, or_iff_right]
  · rfl
  · rintro ⟨_, hseq, _⟩
    cases hseq

theorem holdsNaN_of_not_seq {t : Term} (ht : t.isSeq = false) : t.HoldsNaN ↔ t.IsNaN :=
  exists_at?_of_not_seq ht

theorem not_holdsNaN {t : Term} (hseq : t.isSeq = false) (hliteral : ∀ l, t ≠ .literal l) :
    ¬ t.HoldsNaN := by
  rw [holdsNaN_of_not_seq hseq]
  rintro ⟨x, rfl, -⟩
  exact hliteral _ rfl

theorem beq_literal_self_iff (l : Literal) : (l == l) = true ↔ ¬ (Term.literal l).IsNaN := by
  cases l with
  | float x =>
    rw [show (Literal.float x == .float x) = (x == x) from rfl, Binary64.beq_self]
    simp [IsNaN]
  | _ => simp [IsNaN, BEq.beq]

/-! ## Terms that equal themselves -/

section Equality

variable [OwnEquality] {t u : Term}

mutual
/-- A term equals itself exactly if no NaN stands in it. -/
theorem beq_self_iff : ∀ t : Term, (t == t) = true ↔ ¬ t.HoldsNaN
  | .literal l => by
    rw [holdsNaN_of_not_seq rfl, ← beq_literal_self_iff]
    rfl
  | .seq o ts => by
    rw [holdsNaN_seq, beq_def, Term.beq, beqAll_self_iff ts]
    simp only [not_exists, not_and]
  | .grounded _ _ => iff_of_true (beq_grounded.2 (.inr ⟨rfl, rfl⟩)) (not_holdsNaN rfl nofun)
  | .boxed _ _ => iff_of_true (beq_boxed.2 (.inr ⟨rfl, rfl⟩)) (not_holdsNaN rfl nofun)
  | .var v => iff_of_true ((Variable.beq_iff v v).2 rfl) (not_holdsNaN rfl nofun)

theorem beqAll_self_iff : ∀ ts : List Term, beqAll ts ts = true ↔ ∀ t ∈ ts, ¬ t.HoldsNaN
  | [] => iff_of_true rfl nofun
  | t :: ts => by
    rw [beqAll_cons, beq_self_iff t, beqAll_self_iff ts, List.forall_mem_cons]
end

/-- Terms that are shared are equal as soon as one equals itself. -/
theorem beq_of_sharedWith (h : t.sharedWith u = true) (ht : (t == t) = true) :
    (t == u) = true := by
  cases indistinct_of_sharedWith h with
  | same => exact ht
  | zeros => exact h
  | vars => exact h

/-- Grounded atoms that are shared are equal, whatever their values make of themselves. -/
theorem beq_of_sharedWith_of_kind? (ht : t.kind?.isSome = true) (h : t.sharedWith u = true) :
    (t == u) = true := by
  refine beq_of_sharedWith h ((beq_self_iff t).2 ?_)
  cases t with
  | grounded _ _ => exact not_holdsNaN rfl nofun
  | boxed _ _ => exact not_holdsNaN rfl nofun
  | _ => cases ht

/-- Terms that are equal have values of one type, or neither is a grounded atom. -/
theorem kind?_eq_of_beq : ∀ {t u : Term}, (t == u) = true → t.kind? = u.kind?
  | .grounded _ v, .grounded _ w, h => by
    rcases beq_grounded.1 h with hagree | ⟨-, rfl⟩
    · exact congrArg some (OwnEquality.agree_iff.1 hagree).1
    · rfl
  | .literal _, .literal _, _ | .boxed _ _, .boxed _ _, _ | .var _, .var _, _
  | .seq _ _, .seq _ _, _ => rfl

end Equality

/-- A sequence with a NaN in it differs from itself, although it is shared with itself. -/
example : (Term.seq default [.notANumber]).sharedWith (.seq default [.notANumber]) = true ∧
    (Term.seq default [.notANumber] == .seq default [.notANumber]) = false := by decide

/-! ## The laws -/

/-- An equality of terms that is an equivalence on the terms without a NaN and holds of no
others, with what it makes of shared terms and of the types of values. -/
structure PartialEquivalence (eq : Term → Term → Bool) : Prop where
  symm : ∀ {t u}, eq t u = true → eq u t = true
  trans : ∀ {t u w}, eq t u = true → eq u w = true → eq t w = true
  /-- A clone of a term is the term itself, nodes included. -/
  self_iff : ∀ t, eq t t = true ↔ ¬ t.HoldsNaN
  of_sharedWith : ∀ {t u}, t.sharedWith u = true → eq t t = true → eq t u = true
  /-- Nothing is asked of the value of a grounded atom, which may differ from itself. -/
  of_sharedWith_of_kind? : ∀ {t u}, t.kind?.isSome = true → t.sharedWith u = true →
    eq t u = true
  /-- Values of two types are never equal. -/
  kind?_eq : ∀ {t u}, eq t u = true → t.kind? = u.kind?

theorem partialEquivalence_equates (own : OwnEquality) : PartialEquivalence own.equates where
  symm := beq_symm
  trans := beq_trans
  self_iff := beq_self_iff
  of_sharedWith := beq_of_sharedWith
  of_sharedWith_of_kind? := beq_of_sharedWith_of_kind?
  kind?_eq := kind?_eq_of_beq

/-- Equality of terms is a partial equivalence, and would be with any other symmetric and
transitive equality of values. -/
theorem beq_partialEquivalence :
    PartialEquivalence (fun t u => t == u) ∧
      ∀ own : OwnEquality, PartialEquivalence own.equates :=
  ⟨partialEquivalence_equates .numeric, partialEquivalence_equates⟩

/-- Strings of bytes are compared without their zeros. -/
@[reducible] def unpadded : OwnEquality := .comparing fun
  | .bytes bs => .bytes (bs.filter (· ≠ 0))
  | v => v

/-- A handle to a NaN, as a value of the caller. -/
def wrappedNaN : Term := .grounded ⟨[0]⟩ (.float ⟨0x7ff8000000000000⟩)

/-- A sequence of some term, a boxed sequence with a string of bytes in it, and that handle. -/
def record (o : Origin) (t : Term) (bs : List UInt8) : Term :=
  .seq o [t, .boxed (o.sub 1) (.seq (o.sub 2) [.grounded (o.sub 3) (.bytes bs),
    .var (.named "x")]), wrappedNaN]

def paddedAfter : Term := record ⟨[1]⟩ plusZero [7, 0]

def paddedBefore : Term := record ⟨[2]⟩ minusZero [0, 7]

def bare : Term := record ⟨[3]⟩ plusZero [7]

def headedByNaN : Term := record ⟨[4]⟩ notANumber [7]

/-- Records that begin with a zero, whatever its sign, are equal over `unpadded` if their
bytes are but for zeros. The handle keeps no record from equalling itself, though its value
is not equal to itself; a NaN that is an atom does. -/
theorem beq_partialEquivalence_records :
    (paddedAfter == paddedBefore) = false ∧ unpadded.equates paddedAfter paddedBefore = true ∧
      unpadded.equates paddedBefore bare = true ∧
      unpadded.equates paddedBefore paddedAfter = true ∧
      unpadded.equates paddedAfter bare = true ∧
    (bare == bare) = true ∧ ¬ bare.HoldsNaN ∧
      headedByNaN.HoldsNaN ∧ (headedByNaN == headedByNaN) = false ∧
    plusZero.sharedWith minusZero = true ∧ (plusZero == plusZero) = true ∧
      (plusZero == minusZero) = true ∧
    (Payload.float ⟨0x7ff8000000000000⟩ == .float ⟨0x7ff8000000000000⟩) = false ∧
      wrappedNaN.sharedWith wrappedNaN = true ∧ (wrappedNaN == wrappedNaN) = true ∧
    (unpadded.equates (.grounded ⟨[5]⟩ (.byte 7)) (.grounded ⟨[6]⟩ (.word 7))) = false := by
  obtain ⟨hbeq, hown⟩ := beq_partialEquivalence
  have hbefore : unpadded.equates paddedAfter paddedBefore = true := by decide
  have hbare : unpadded.equates paddedBefore bare = true := by decide
  have hself : (bare == bare) = true := by decide
  have hnan : headedByNaN.HoldsNaN := ⟨[0], notANumber, rfl, _, rfl, by decide⟩
  have hzeros : plusZero.sharedWith minusZero = true := by decide
  have hzero : (plusZero == plusZero) = true := by decide
  have hhandle : wrappedNaN.sharedWith wrappedNaN = true := by decide
  refine ⟨by decide, hbefore, hbare, (hown unpadded).symm hbefore,
    (hown unpadded).trans hbefore hbare, hself, (hbeq.self_iff bare).1 hself, hnan, ?_,
    hzeros, hzero, hbeq.of_sharedWith hzeros hzero, by decide, hhandle,
    hbeq.of_sharedWith_of_kind? rfl hhandle, ?_⟩
  · exact Bool.eq_false_iff.2 fun h => (hbeq.self_iff _).1 h hnan
  · exact Bool.eq_false_iff.2 fun h => nomatch (hown unpadded).kind?_eq h

end Term

end TermRules

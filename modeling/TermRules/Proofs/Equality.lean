/-
TermRules.Proofs.Equality — term equality as a partial equivalence, and what it
cannot tell apart.

`==` is symmetric (`beq_symm`) and transitive (`beq_trans`), though a term that
holds a NaN differs from itself. All that this takes of the values in grounded atoms is
that they compare so themselves, so it is said for any `OwnEquality` that they bring
along. Two coarser views of a term rest on `==`.
`SameValue` asks for the very term or an equal one, and is the relation that
matching cannot see behind; `StandsFor` asks for the very term or a shared one,
and is the relation that rolling back cannot see behind. Both are equivalence
relations, NaNs included. `standsFor_iff`: of two different terms one stands for
the other only if they are zeros, or variables of one identity.
-/
import TermRules.Term.Equality

namespace TermRules

/-- A zero has the least exponent, a NaN the greatest. -/
theorem Binary64.isNaN_eq_false_of_isZero {x : Binary64} (h : x.isZero = true) :
    x.isNaN = false := by
  simp only [isZero, Bool.and_eq_true, beq_iff_eq] at h
  simp [isNaN, h.1]

/-! ## Values with an equality of their own -/

namespace OwnEquality

/-- Equality of terms where the values of callers bring that equality. -/
def equates (own : OwnEquality) (t u : Term) : Bool := t == u

section Agree

variable [OwnEquality] {v w x : Payload}

theorem agree_iff : agree v w = true ↔ v.kind = w.kind ∧ eq v w = true := by
  simp [agree]

theorem agree_symm (h : agree v w = true) : agree w v = true := by
  rw [agree_iff] at h ⊢
  exact ⟨h.1.symm, symm h.1 h.2⟩

theorem agree_trans (hvw : agree v w = true) (hwx : agree w x = true) : agree v x = true := by
  rw [agree_iff] at hvw hwx ⊢
  exact ⟨hvw.1.trans hwx.1, trans hvw.1 hwx.1 hvw.2 hwx.2⟩

end Agree

section Atoms

variable {α : Type} {f : α → α → Bool} {o p q : Origin} {v w x : α}

/-- Of atoms that are equal by value or the very same, symmetry is that of their values. -/
theorem or_same_symm (hf : f v w = true → f w v = true) (h : f v w = true ∨ (o = p ∧ v = w)) :
    f w v = true ∨ (p = o ∧ w = v) := by
  rcases h with h | ⟨rfl, rfl⟩
  · exact .inl (hf h)
  · exact .inr ⟨rfl, rfl⟩

theorem or_same_trans (hf : f v w = true → f w x = true → f v x = true)
    (hvw : f v w = true ∨ (o = p ∧ v = w)) (hwx : f w x = true ∨ (p = q ∧ w = x)) :
    f v x = true ∨ (o = q ∧ v = x) := by
  rcases hvw with hvw | ⟨rfl, rfl⟩
  · rcases hwx with hwx | ⟨-, rfl⟩
    · exact .inl (hf hvw hwx)
    · exact .inl hvw
  · exact hwx

end Atoms

end OwnEquality

/-! ## Equality of terms -/

namespace Term

section Equality

variable [OwnEquality]

theorem beq_grounded {o p : Origin} {v w : Payload} :
    Term.beq (.grounded o v) (.grounded p w) = true ↔
      OwnEquality.agree v w = true ∨ (o = p ∧ v = w) := by
  simp [Term.beq]

theorem beq_boxed {o p : Origin} {t u : Term} :
    Term.beq (.boxed o t) (.boxed p u) = true ↔ Term.beq t u = true ∨ (o = p ∧ t = u) := by
  simp [Term.beq]

theorem beqAll_cons {t u : Term} {ts us : List Term} :
    beqAll (t :: ts) (u :: us) = true ↔ (t == u) = true ∧ beqAll ts us = true := by
  rw [beqAll, Bool.and_eq_true, beq_def]

mutual
/-- Equality is symmetric. -/
theorem beq_symm : ∀ {t u : Term}, (t == u) = true → (u == t) = true
  | .literal _, .literal _, h => Literal.numericEquality.symm h
  | .grounded _ _, .grounded _ _, h => by
    rw [beq_def, beq_grounded] at h ⊢
    exact OwnEquality.or_same_symm OwnEquality.agree_symm h
  | .boxed _ _, .boxed _ _, h => by
    rw [beq_def, beq_boxed] at h ⊢
    exact OwnEquality.or_same_symm beq_symm h
  | .var v, .var w, h => by
    have hid : v.id = w.id := (Variable.beq_iff v w).1 h
    exact (Variable.beq_iff w v).2 hid.symm
  | .seq _ _, .seq _ _, h => beqAll_symm h

theorem beqAll_symm : ∀ {ts us : List Term}, beqAll ts us = true → beqAll us ts = true
  | [], [], _ => rfl
  | _ :: _, _ :: _, h => by
    rw [beqAll_cons] at h ⊢
    exact ⟨beq_symm h.1, beqAll_symm h.2⟩
end

mutual
/-- Equality is transitive. -/
theorem beq_trans : ∀ {t u w : Term}, (t == u) = true → (u == w) = true → (t == w) = true
  | .literal _, .literal _, .literal _, htu, huw => Literal.numericEquality.trans htu huw
  | .grounded _ _, .grounded _ _, .grounded _ _, htu, huw => by
    rw [beq_def, beq_grounded] at *
    exact OwnEquality.or_same_trans OwnEquality.agree_trans htu huw
  | .boxed _ _, .boxed _ _, .boxed _ _, htu, huw => by
    rw [beq_def, beq_boxed] at *
    exact OwnEquality.or_same_trans beq_trans htu huw
  | .var v, .var w, .var x, htu, huw => by
    have hvw : v.id = w.id := (Variable.beq_iff v w).1 htu
    have hwx : w.id = x.id := (Variable.beq_iff w x).1 huw
    exact (Variable.beq_iff v x).2 (hvw.trans hwx)
  | .seq _ _, .seq _ _, .seq _ _, htu, huw => beqAll_trans htu huw

theorem beqAll_trans : ∀ {ts us ws : List Term}, beqAll ts us = true → beqAll us ws = true →
    beqAll ts ws = true
  | [], [], [], _, _ => rfl
  | _ :: _, _ :: _, _ :: _, htu, huw => by
    rw [beqAll_cons] at htu huw ⊢
    exact ⟨beq_trans htu.1 huw.1, beqAll_trans htu.2 huw.2⟩
end

/-! ## Values -/

/-- The very term or an equal one. -/
def SameValue (t u : Term) : Prop := t = u ∨ (t == u) = true

theorem SameValue.refl (t : Term) : t.SameValue t := .inl rfl

theorem SameValue.symm {t u : Term} (h : t.SameValue u) : u.SameValue t := by
  rcases h with rfl | h
  · exact .inl rfl
  · exact .inr (beq_symm h)

/-- Terms of the same value are equal to the same terms. -/
theorem SameValue.beq_congr {t t' u u' : Term} (ht : t.SameValue t') (hu : u.SameValue u') :
    (t == u) = (t' == u') := by
  -- one direction is enough, as `SameValue` is symmetric
  have himp : ∀ {t t' u u' : Term}, t.SameValue t' → u.SameValue u' → (t == u) = true →
      (t' == u') = true := by
    intro t t' u u' ht hu h
    have hleft : (t' == u) = true := by
      rcases ht with rfl | ht
      · exact h
      · exact beq_trans (beq_symm ht) h
    rcases hu with rfl | hu
    · exact hleft
    · exact beq_trans hleft hu
  exact Bool.eq_iff_iff.2 ⟨himp ht hu, himp ht.symm hu.symm⟩

end Equality

/-! ## Sharing -/

/-- The very term or one that is shared with it. -/
def StandsFor (t u : Term) : Prop := t = u ∨ t.sharedWith u = true

/-- What can stand for a term without being it is a zero for a zero, or a
variable for one of the same identity. -/
inductive Indistinct : Term → Term → Prop
  | same (t : Term) : Indistinct t t
  | zeros {x y : Binary64} (hx : x.isZero = true) (hy : y.isZero = true) :
    Indistinct (.literal (.float x)) (.literal (.float y))
  | vars {v w : Variable} (h : v.id = w.id) : Indistinct (.var v) (.var w)

theorem indistinct_of_beq_literal {l m : Literal} (h : (l == m) = true) :
    Indistinct (.literal l) (.literal m) := by
  rcases Literal.numericEquality.iff.1 h with ⟨x, y, rfl, rfl, hxy⟩ | ⟨rfl, -⟩
  · simp only [Binary64.beq_def, Bool.and_eq_true, Bool.or_eq_true, beq_iff_eq] at hxy
    rcases hxy.2 with hbits | hzero
    · obtain rfl : x = y := congrArg Binary64.mk hbits
      exact .same _
    · exact .zeros hzero.1 hzero.2
  · exact .same _

/-- Two terms that are shared are nodes of one place, and so the same, or else
equal. -/
theorem indistinct_of_sharedWith : ∀ {t u : Term}, t.sharedWith u = true → Indistinct t u
  | .literal _, .literal _, h => indistinct_of_beq_literal h
  | .var v, .var w, h => .vars ((Variable.beq_iff v w).1 h)
  | .grounded o v, .grounded p w, h | .boxed o v, .boxed p w, h | .seq o v, .seq p w, h => by
    simp only [sharedWith, Bool.and_eq_true, decide_eq_true_eq] at h
    obtain ⟨rfl, rfl⟩ := h
    exact .same _

theorem standsFor_iff {t u : Term} : t.StandsFor u ↔ Indistinct t u := by
  refine ⟨?_, ?_⟩
  · rintro (rfl | h)
    · exact .same t
    · exact indistinct_of_sharedWith h
  · intro h
    cases h with
    | same => exact .inl rfl
    | @zeros x y hx hy =>
      have hxy : (x == y) = true := by
        simp [Binary64.beq_def, Binary64.isNaN_eq_false_of_isZero, hx, hy]
      exact .inr hxy
    | @vars v w h => exact .inr ((Variable.beq_iff v w).2 h)

theorem StandsFor.refl (t : Term) : t.StandsFor t := .inl rfl

theorem StandsFor.trans {t u w : Term} (htu : t.StandsFor u) (huw : u.StandsFor w) :
    t.StandsFor w := by
  rw [standsFor_iff] at *
  cases htu with
  | same => exact huw
  | zeros hx hy =>
    cases huw with
    | same => exact .zeros hx hy
    | zeros _ hz => exact .zeros hx hz
  | vars h =>
    cases huw with
    | same => exact .vars h
    | vars h' => exact .vars (h.trans h')

/-- What stands for a term has its value, whatever the values of callers make of
themselves. -/
theorem StandsFor.sameValue [OwnEquality] {t u : Term} (h : t.StandsFor u) : t.SameValue u := by
  rcases h with rfl | h
  · exact .inl rfl
  · cases t with
    | literal l => cases u <;> exact .inr h
    | var v => cases u <;> exact .inr h
    | _ =>
      cases indistinct_of_sharedWith h with
      | same => exact .inl rfl

/-- The zero without a sign. -/
def plusZero : Term := .literal (.float ⟨0⟩)

/-- The zero with a sign, which stands for the other one. -/
def minusZero : Term := .literal (.float ⟨0x8000000000000000⟩)

example : minusZero.StandsFor plusZero := .inr (by decide)

/-- A number that differs from itself. -/
def notANumber : Term := .literal (.float ⟨0x7ff8000000000000⟩)

end Term

end TermRules

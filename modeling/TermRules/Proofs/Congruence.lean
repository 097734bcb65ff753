/-
TermRules.Proofs.Congruence — matching and substitution respect equality.

Two matches of one pattern agree if their targets have the same value and their
environments are aligned by value: the answers are the same, and the environments
stay aligned (`visit_agree`). The invariant is about two runs at once, and a
variable carries it from one encounter to the next. Bound in both or in neither,
it asks for equality with terms of the same value, which `SameValue.beq_congr`
answers in the same way, or it asks its filter. The built-in filters cannot
look behind equality (`accepts_congr`); a custom one can, and so with such a
filter the two targets have to be the same. Of the values of callers no more is used than
what every `OwnEquality` has.

A rollback leaves an environment that is aligned by value with the captured one.
`match_congr` draws the conclusion: which zero or which filter it kept shows in no
later match.
-/
import TermRules.Proofs.Inversion
import TermRules.Proofs.Rollback

namespace TermRules

section Congruence

variable [OwnEquality]

/-! ## What filters can see -/

namespace Term

/-- What tells apart neither the two zeros, nor grounded atoms, nor variables, nor
sequences, gives the same answer on terms of the same value. -/
theorem SameValue.congr {α : Type} {f : Term → α}
    (hfloat : ∀ x y : Binary64, f (.literal (.float x)) = f (.literal (.float y)))
    (hgrounded : ∀ o p v w, f (.grounded o v) = f (.grounded p w))
    (hboxed : ∀ o p t u, f (.boxed o t) = f (.boxed p u))
    (hvar : ∀ v w, f (.var v) = f (.var w))
    (hseq : ∀ o p ts us, f (.seq o ts) = f (.seq p us)) {t u : Term} (h : t.SameValue u) :
    f t = f u := by
  rcases h with rfl | h
  · rfl
  cases t with
  | literal l =>
    cases u with
    | literal m =>
      rcases Literal.numericEquality.iff.1 h with ⟨x, y, rfl, rfl, -⟩ | ⟨rfl, -⟩
      · exact hfloat x y
      · rfl
    | _ => cases h
  | grounded o v =>
    cases u with
    | grounded p w => exact hgrounded o p v w
    | _ => cases h
  | boxed o t =>
    cases u with
    | boxed p u => exact hboxed o p t u
    | _ => cases h
  | var v =>
    cases u with
    | var w => exact hvar v w
    | _ => cases h
  | seq o ts =>
    cases u with
    | seq p us => exact hseq o p ts us
    | _ => cases h

theorem SameValue.isSeq_eq {t u : Term} (h : t.SameValue u) : t.isSeq = u.isSeq :=
  h.congr (fun _ _ => rfl) (fun _ _ _ _ => rfl) (fun _ _ _ _ => rfl) (fun _ _ => rfl)
    (fun _ _ _ _ => rfl)

theorem SameValue.symbol?_eq {t u : Term} (h : t.SameValue u) : t.symbol? = u.symbol? :=
  h.congr (fun _ _ => rfl) (fun _ _ _ _ => rfl) (fun _ _ _ _ => rfl) (fun _ _ => rfl)
    (fun _ _ _ _ => rfl)

theorem SameValue.isNumber_eq {t u : Term} (h : t.SameValue u) :
    Filter.isNumber t = Filter.isNumber u :=
  h.congr (fun _ _ => rfl) (fun _ _ _ _ => rfl) (fun _ _ _ _ => rfl) (fun _ _ => rfl)
    (fun _ _ _ _ => rfl)

theorem forall₂_beq_of_beqAll {ts us : List Term} (h : beqAll ts us = true) :
    List.Forall₂ (fun t u => (t == u) = true) ts us := by
  induction ts generalizing us with
  | nil =>
    cases us with
    | nil => exact .nil
    | cons u us => cases h
  | cons t ts ih =>
    cases us with
    | nil => cases h
    | cons u us =>
      rw [beqAll, Bool.and_eq_true] at h
      exact .cons h.1 (ih h.2)

/-- Sequences of the same value have elements of the same value. -/
theorem SameValue.elements {o p : Origin} {ts us : List Term}
    (h : (Term.seq o ts).SameValue (.seq p us)) : List.Forall₂ SameValue ts us := by
  rcases h with heq | hbeq
  · injection heq with _ hitems
    rw [hitems]
    exact List.forall₂_same.2 fun t _ => .refl t
  · exact (forall₂_beq_of_beqAll hbeq).imp fun _ _ => .inr

/-- Terms of the same value are alike. -/
theorem SameValue.alike {t u : Term} (h : t.SameValue u) : t.Alike u := by
  rcases h with rfl | h
  · exact .refl t
  · exact .of_beq t u h

end Term

/-- The variable has no filter, or a built-in one. -/
def Variable.isBuiltIn (v : Variable) : Bool :=
  match v.filter with
  | some (.custom _ _) => false
  | _ => true

/-- A built-in filter accepts both or neither of two terms of the same value. -/
theorem Variable.accepts_congr (a : Acceptance) {v : Variable} {t u : Term}
    (h : t.SameValue u) (hv : v.isBuiltIn = true ∨ t = u) :
    (v.accepts a t).value = (v.accepts a u).value := by
  rcases hv with hv | rfl
  · obtain ⟨id, filter⟩ := v
    cases filter with
    | none => rfl
    | some f =>
      cases f with
      | number => exact h.isNumber_eq
      | symbol => exact congrArg Option.isSome h.symbol?_eq
      | sequence => exact h.isSeq_eq
      | custom label key => cases hv
  · rfl

/-! ## Two matches of one pattern -/

/-- The same answer, and environments aligned by value. -/
structure Attempt.Agree (x y : Attempt) : Prop where
  ok : x.ok = y.ok
  env : x.env.Aligned Term.SameValue y.env

namespace Matching

mutual
/-- Matching cannot tell targets and environments of the same value apart. -/
theorem visit_agree (a : Acceptance) : ∀ (p t u : Term) {e f : Environment},
    t.SameValue u → (∀ v ∈ p.vars, v.isBuiltIn = true) ∨ t = u → e.Aligned Term.SameValue f →
    (visit a p t e).value.Agree (visit a p u f).value
  | .var v, t, u, e, f, htu, hp, hef => by
    -- bound in neither, or in both and to terms of the same value
    have haccepts := v.accepts_congr a htu (hp.imp_left fun h => h v List.mem_cons_self)
    rw [visit, visit]
    rcases hef.get?_cases v with ⟨he, hf⟩ | ⟨b, c, he, hf, hbound⟩
    · rw [he, hf]
      simp only [Traced.value_bind, haccepts]
      split
      · exact ⟨rfl, hef.push v htu⟩
      · exact ⟨rfl, hef⟩
    · rw [he, hf]
      exact ⟨hbound.beq_congr htu, hef⟩
  | .seq o ps, t, u, e, f, htu, hp, hef => by
    have hseq := htu.isSeq_eq
    cases t with
    | seq q ts =>
      cases u with
      | seq q' us =>
        have hitems := htu.elements
        rw [visit, visit, ← hitems.length_eq]
        split
        · exact visitAll_agree a ps hitems (hp.imp_right fun h => by injection h) hef
        · exact ⟨rfl, hef⟩
      | _ => cases hseq
    | _ =>
      -- then the other target is no sequence either
      rw [visit_seq_of_not_seq a o ps rfl, visit_seq_of_not_seq a o ps hseq.symm]
      exact ⟨rfl, hef⟩
  | .literal l, t, u, e, f, htu, _, hef => ⟨(Term.SameValue.refl (.literal l)).beq_congr htu, hef⟩
  | .grounded o w, t, u, e, f, htu, _, hef =>
    ⟨(Term.SameValue.refl (.grounded o w)).beq_congr htu, hef⟩
  | .boxed o w, t, u, e, f, htu, _, hef => ⟨(Term.SameValue.refl (.boxed o w)).beq_congr htu, hef⟩

theorem visitAll_agree (a : Acceptance) : ∀ (ps : List Term) {ts us : List Term}
    {e f : Environment}, List.Forall₂ Term.SameValue ts us →
    (∀ v ∈ Term.allVars ps, v.isBuiltIn = true) ∨ ts = us → e.Aligned Term.SameValue f →
    (visitAll a ps ts e).value.Agree (visitAll a ps us f).value
  | [], _, _, _, _, .nil, _, hef | [], _, _, _, _, .cons _ _, _, hef => ⟨rfl, hef⟩
  | _ :: _, _, _, _, _, .nil, _, hef => ⟨rfl, hef⟩
  | p :: ps, t :: ts, u :: us, e, f, .cons htu htus, hp, hef => by
    have hhead : (∀ v ∈ p.vars, v.isBuiltIn = true) ∨ t = u :=
      hp.imp (fun h v hv => h v (List.mem_append_left _ hv)) fun h => by injection h
    have htail : (∀ v ∈ Term.allVars ps, v.isBuiltIn = true) ∨ ts = us :=
      hp.imp (fun h v hv => h v (List.mem_append_right _ hv)) fun h => by injection h
    obtain ⟨hok, henv⟩ := visit_agree a p t u htu hhead hef
    rw [visitAll, visitAll, Traced.value_bind, Traced.value_bind, ← hok]
    split
    · exact visitAll_agree a ps htus htail henv
    · exact ⟨hok, henv⟩
end

end Matching

/-! ## Substitution -/

namespace Term

mutual
/-- Substituting under environments that are aligned by value gives terms that
are alike. -/
theorem substitute_alike {e f : Environment} (hef : e.Aligned SameValue f) :
    ∀ (t : Term) (o p : Origin), (t.substitute e o).Alike (t.substitute f p)
  | .var v, o, p => by
    rw [substitute_var, substitute_var]
    rcases hef.get?_cases v with ⟨he, hf⟩ | ⟨b, c, he, hf, hbound⟩
    · rw [he, hf]
      exact .refl _
    · rw [he, hf]
      exact hbound.alike
  | .seq q ts, o, p => by
    obtain ⟨r, hr⟩ := substitute_seq e o q ts
    obtain ⟨r', hr'⟩ := substitute_seq f p q ts
    rw [hr, hr']
    exact .seq (substituteAll_alike hef ts o p 0) r r'
  | .literal _, _, _ | .grounded _ _, _, _ | .boxed _ _, _, _ => by
    simp only [substitute_literal, substitute_grounded, substitute_boxed]
    exact .refl _

theorem substituteAll_alike {e f : Environment} (hef : e.Aligned SameValue f) :
    ∀ (ts : List Term) (o p : Origin) (i : Nat),
      List.Forall₂ Alike (substituteAll e o i ts) (substituteAll f p i ts)
  | [], _, _, _ => .nil
  | t :: ts, o, p, i => by
    rw [substituteAll_cons, substituteAll_cons]
    exact .cons (substitute_alike hef t (o.sub i) (p.sub i)) (substituteAll_alike hef ts o p (i + 1))
end

end Term

/-! ## Main statement -/

/-- Whatever was live, matching after a rollback is matching in the captured
environment. -/
theorem Matching.into_restore_agree (a : Acceptance) (p t : Term) (live captured : Environment) :
    (into a p t (live.restore captured.snapshot)).value.Agree (into a p t captured).value := by
  have haligned := (Environment.aligned_restore live captured).mono Term.StandsFor.sameValue
  exact visit_agree a p t t (.refl t) (.inr rfl) haligned

/-- **Matching and substitution respect equality.** Where all filters of a
pattern are built in, matching it against equal targets, or one target, in
environments that are aligned by value gives the same answer and leaves such
environments; and every term becomes alike terms under them. Which of the entries
that look like the captured ones a rollback keeps changes no match, whatever the
filters are. All of this holds over any equality that values of callers bring. -/
theorem Matching.match_congr (a : Acceptance) (p t u : Term) (e f : Environment)
    (hp : ∀ v ∈ p.vars, v.isBuiltIn = true) (htu : t.SameValue u)
    (hef : e.Aligned Term.SameValue f) :
    (into a p t e).value.Agree (into a p u f).value ∧
    (∀ (r : Term) (o o' : Origin), (r.substitute e o).Alike (r.substitute f o')) ∧
    ∀ (q s : Term) (live : Environment),
      (into a q s (live.restore e.snapshot)).value.Agree (into a q s e).value := by
  refine ⟨?_, ?_, ?_⟩
  · exact visit_agree a p t u htu (.inl hp) hef
  · exact Term.substitute_alike hef
  · exact fun q s live => into_restore_agree a q s live e

end Congruence

namespace Matching

/-- A number that occurs twice, and another variable. -/
def twiceAndOther : Term :=
  .seq default [.var ((Variable.named "x").withFilter .number), .var (.named "x"),
    .var (.named "y")]

/-- Two terms, and a variable. -/
def pairAndVariable (t u : Term) : Term := .seq default [t, u, .var (.named "z")]

/-- A NaN, and the other variable bound to a third one, written with or without a
filter. -/
def nanAndVariable (filter : Option Filter) : Environment :=
  ⟨[(.named "w", .literal (.float ⟨0x7ff8000000000000⟩)),
    (.named "y", .var ⟨.named ⟨"z"⟩, filter⟩)]⟩

/-- Two zeros are matched in either order, whichever of the variables of one identity is
bound. The number is bound to the zero that comes first, and the other variable stays bound
to what it was bound to. -/
theorem match_congr_zeros :
    (∀ v ∈ twiceAndOther.vars, v.isBuiltIn = true) ∧
    (pairAndVariable .plusZero .minusZero).SameValue (pairAndVariable .minusZero .plusZero) ∧
    (nanAndVariable none).Aligned Term.SameValue (nanAndVariable (some .sequence)) ∧
    (into default twiceAndOther (pairAndVariable .minusZero .plusZero)
      (nanAndVariable (some .sequence))).value.ok = true ∧
    (into default twiceAndOther (pairAndVariable .plusZero .minusZero)
      (nanAndVariable none)).value.env.entries =
        (nanAndVariable none).entries ++ [((Variable.named "x").withFilter .number, .plusZero)] ∧
    (into default twiceAndOther (pairAndVariable .minusZero .plusZero)
      (nanAndVariable (some .sequence))).value.env.entries =
        (nanAndVariable (some .sequence)).entries ++
          [((Variable.named "x").withFilter .number, .minusZero)] := by
  have hp : ∀ v ∈ twiceAndOther.vars, v.isBuiltIn = true := by decide
  have htu : (pairAndVariable .plusZero .minusZero).SameValue
      (pairAndVariable .minusZero .plusZero) := .inr (by decide)
  have hef : (nanAndVariable none).Aligned Term.SameValue (nanAndVariable (some .sequence)) :=
    .cons ⟨rfl, .inl rfl⟩ (.cons ⟨rfl, .inr (by decide)⟩ .nil)
  obtain ⟨⟨hok, -⟩, -⟩ := match_congr default _ _ _ _ _ hp htu hef
  exact ⟨hp, htu, hef, hok.symm.trans (by decide), by decide, by decide⟩

end Matching

end TermRules

/-
TermRules.Proofs.TruthValues — expressions of truth values, simplified by rules.

Six rules simplify negations, conjunctions and disjunctions, and look at the first operand
only. Outermost may so discard a second operand that it never looked at, while innermost
works out both operands first. One step from any expression that is no truth value leads to
an expression of the same value with fewer connectives, under innermost with exactly one
fewer (`progress`), and a truth value is a normal form. Whatever is discarded, the value is
found within as many steps as there are connectives. `normalize_expression`.
-/
import TermRules.Proofs.Derivations

namespace TermRules.Booleans

/-! ## Expressions and their rules -/

/-- The connectives of two operands. -/
inductive Connective where
  | and
  | or

namespace Connective

def name : Connective → String
  | .and => "and"
  | .or => "or"

def value : Connective → Bool → Bool → Bool
  | .and, a, b => a && b
  | .or, a, b => a || b

/-- The first operand that leaves the decision to the second. -/
def neutral : Connective → Bool
  | .and => true
  | .or => false

/-- Any other first operand is the value itself. -/
theorem value_eq (c : Connective) (a b : Bool) :
    c.value a b = if a = c.neutral then b else a := by
  cases c <;> cases a <;> rfl

end Connective

/-- A closed expression. -/
inductive Expression where
  | const (b : Bool)
  | not (e : Expression)
  | join (c : Connective) (a b : Expression)

/-- A truth value as a term. -/
def truth : Bool → Term
  | true => .symbol "T"
  | false => .symbol "F"

namespace Expression

def toTerm : Expression → Term
  | const b => truth b
  | not e => .seq default [.symbol "not", e.toTerm]
  | join c a b => .seq default [.symbol c.name, a.toTerm, b.toTerm]

def value : Expression → Bool
  | const b => b
  | not e => !e.value
  | join c a b => c.value a.value b.value

/-- The number of connectives in an expression. -/
def connectives : Expression → Nat
  | const _ => 0
  | not e => e.connectives + 1
  | join _ a b => a.connectives + b.connectives + 1

theorem unplaced_toTerm (e : Expression) : e.toTerm.unplaced = e.toTerm := by
  induction e with
  | const b => cases b <;> rfl
  | not e ih =>
    show Term.seq default [.symbol "not", e.toTerm.unplaced] = _
    rw [ih]
    rfl
  | join c a b iha ihb =>
    show Term.seq default [.symbol c.name, a.toTerm.unplaced, b.toTerm.unplaced] = _
    rw [iha, ihb]
    rfl

/-- An expression with connectives is a sequence. -/
theorem exists_toTerm_eq_seq {e : Expression} (h : 0 < e.connectives) :
    ∃ ts, e.toTerm = .seq default ts := by
  cases e with
  | const b => cases h
  | not e => exact ⟨_, rfl⟩
  | join c a b => exact ⟨_, rfl⟩

end Expression

/-- Simplification by the first operand. -/
def templates : List TemplateRule :=
  let x := Term.var (.named "x")
  let not t := Term.seq default [.symbol "not", t]
  let and t u := Term.seq default [.symbol "and", t, u]
  let or t u := Term.seq default [.symbol "or", t, u]
  [⟨not (truth true), truth false⟩,
    ⟨not (truth false), truth true⟩,
    ⟨and (truth true) x, x⟩,
    ⟨and (truth false) x, truth false⟩,
    ⟨or (truth true) x, truth true⟩,
    ⟨or (truth false) x, x⟩]

/-- The set of these rules, sealed so that only the lemmas on its results unfold it. -/
@[irreducible] def rules : RuleSet Term := .ofTemplates default (some "boolean") templates

theorem rules_placeBlind : rules.PlaceBlind := by
  rw [rules]
  exact RuleSet.placeBlind_ofTemplates Acceptance.placeBlind_default _ _

/-! ## What the rules give -/

section Results

variable (o : Origin)

theorem result?_symbol (s : String) : (rules.result? o (.symbol s)).value = none := by
  rw [rules, RuleSet.value_result?_ofTemplates]
  rfl

theorem result?_not (b : Bool) :
    (rules.result? o (.seq default [.symbol "not", truth b])).value = some (truth !b) := by
  rw [rules, RuleSet.value_result?_ofTemplates]
  cases b <;> rfl

theorem result?_join (c : Connective) (b : Bool) (u : Term) :
    (rules.result? o (.seq default [.symbol c.name, truth b, u])).value =
      some (if b = c.neutral then u else truth b) := by
  rw [rules, RuleSet.value_result?_ofTemplates]
  cases c <;> cases b <;> rfl

/-- No rule looks into an operand. -/
theorem result?_not_seq (p : Origin) (ts : List Term) :
    (rules.result? o (.seq default [.symbol "not", .seq p ts])).value = none := by
  rw [rules, RuleSet.value_result?_ofTemplates]
  rfl

theorem result?_join_seq (c : Connective) (p : Origin) (ts : List Term) (u : Term) :
    (rules.result? o (.seq default [.symbol c.name, .seq p ts, u])).value = none := by
  rw [rules, RuleSet.value_result?_ofTemplates]
  cases c <;> rfl

end Results

theorem irreducible_symbol (s : String) : ¬ rules.Reducible (.symbol s) :=
  RuleSet.not_reducible_of_not_seq rfl (result?_symbol default s)

theorem irreducible_truth (b : Bool) : ¬ rules.Reducible (truth b) := by
  cases b <;> exact irreducible_symbol _

/-! ## One step -/

/-- A step leads from the first expression to the second, which has the same value and
fewer connectives, under innermost one fewer. -/
structure Simplifies (settings : NormalizeSettings) (e e' : Expression) : Prop where
  leads : (Normalizer.mk rules settings).Leads 1 e.toTerm e'.toTerm
  value : e'.value = e.value
  fewer : e'.connectives < e.connectives
  innermost : settings.strategy = .innermost → e'.connectives + 1 = e.connectives

section Steps

variable {settings : NormalizeSettings}

theorem simplifies_not (b : Bool) : Simplifies settings (.not (.const b)) (.const !b) where
  leads := by
    refine Normalizer.leads_of_result? rules_placeBlind (fun _ => ?_) (result?_not default b) rfl
    simp only [List.forall_mem_cons]
    exact ⟨irreducible_symbol "not", irreducible_truth b, nofun⟩
  value := rfl
  fewer := Nat.zero_lt_one
  innermost _ := rfl

/-- A truth value as the first operand is enough for outermost; innermost needs the second
one to be a truth value, too. -/
theorem simplifies_join (c : Connective) (v : Bool) {b : Expression}
    (hb : settings.strategy = .innermost → ∃ w, b = .const w) :
    Simplifies settings (.join c (.const v) b) (if v = c.neutral then b else .const v) where
  leads := by
    have happly : (if v = c.neutral then b else .const v).toTerm =
        if v = c.neutral then b.toTerm else truth v := apply_ite _ _ _ _
    refine Normalizer.leads_of_result? rules_placeBlind (fun hs => ?_)
      (result?_join default c v b.toTerm) (congrArg Term.unplaced happly.symm)
    obtain ⟨w, rfl⟩ := hb hs
    simp only [List.forall_mem_cons]
    exact ⟨irreducible_symbol _, irreducible_truth v, irreducible_truth w, nofun⟩
  value := by
    rw [Expression.value, Connective.value_eq]
    exact apply_ite _ _ _ _
  fewer := by
    rw [apply_ite Expression.connectives]
    simp only [Expression.connectives]
    split <;> omega
  innermost hs := by
    obtain ⟨w, rfl⟩ := hb hs
    rw [apply_ite Expression.connectives]
    simp only [Expression.connectives, ite_self]

variable {a a' b b' : Expression}

theorem Simplifies.connectives_pos (h : Simplifies settings a a') : 0 < a.connectives :=
  Nat.zero_lt_of_lt h.fewer

theorem Simplifies.not (h : Simplifies settings a a') :
    Simplifies settings (.not a) (.not a') where
  leads := by
    refine h.leads.element_one rules_placeBlind [.symbol "not"] [] ?_ fun _ => ?_
    · exact fun _ hx => List.mem_singleton.1 hx ▸ irreducible_symbol "not"
    · obtain ⟨ts, hts⟩ := a.exists_toTerm_eq_seq h.connectives_pos
      rw [hts]
      exact result?_not_seq default default ts
  value := congrArg Bool.not h.value
  fewer := Nat.succ_lt_succ h.fewer
  innermost hs := congrArg (· + 1) (h.innermost hs)

theorem Simplifies.left (h : Simplifies settings a a') (c : Connective) (b : Expression) :
    Simplifies settings (.join c a b) (.join c a' b) where
  leads := by
    refine h.leads.element_one rules_placeBlind [.symbol c.name] [b.toTerm] ?_ fun _ => ?_
    · exact fun _ hx => List.mem_singleton.1 hx ▸ irreducible_symbol c.name
    · obtain ⟨ts, hts⟩ := a.exists_toTerm_eq_seq h.connectives_pos
      rw [hts]
      exact result?_join_seq default c default ts b.toTerm
  value := congrArg (c.value · b.value) h.value
  fewer := Nat.succ_lt_succ (Nat.add_lt_add_right h.fewer _)
  innermost hs := by
    have hone := h.innermost hs
    simp only [Expression.connectives]
    omega

theorem Simplifies.right (h : Simplifies settings b b') (hs : settings.strategy = .innermost)
    (c : Connective) (v : Bool) :
    Simplifies settings (.join c (.const v) b) (.join c (.const v) b') where
  leads := by
    refine h.leads.element_one rules_placeBlind [.symbol c.name, truth v] [] ?_
      fun houter => nomatch hs.symm.trans houter
    simp only [List.forall_mem_cons]
    exact ⟨irreducible_symbol c.name, irreducible_truth v, nofun⟩
  value := congrArg (c.value v) h.value
  fewer := Nat.succ_lt_succ (Nat.add_lt_add_left h.fewer _)
  innermost hs := congrArg (0 + · + 1) (h.innermost hs)

/-- An expression that is no truth value can be simplified. -/
theorem progress (settings : NormalizeSettings) (e : Expression) :
    (∃ b, e = .const b) ∨ ∃ e', Simplifies settings e e' := by
  induction e with
  | const b => exact .inl ⟨b, rfl⟩
  | not e ih =>
    obtain ⟨b, rfl⟩ | ⟨e', h⟩ := ih
    · exact .inr ⟨_, simplifies_not b⟩
    · exact .inr ⟨_, h.not⟩
  | join c a b iha ihb =>
    obtain ⟨v, rfl⟩ | ⟨a', ha⟩ := iha
    · cases hs : settings.strategy with
      | outermost => exact .inr ⟨_, simplifies_join c v fun hinner => nomatch hs.symm.trans hinner⟩
      | innermost =>
        obtain hw | ⟨b', hb⟩ := ihb
        · exact .inr ⟨_, simplifies_join c v fun _ => hw⟩
        · exact .inr ⟨_, hb.right hs c v⟩
    · exact .inr ⟨_, ha.left c b⟩

end Steps

/-! ## Whole runs -/

/-- Steps lead from an expression to its value, no more than it has connectives, and under
innermost as many. -/
theorem leads_value (settings : NormalizeSettings) (e : Expression) :
    ∃ k ≤ e.connectives, (Normalizer.mk rules settings).Leads k e.toTerm (truth e.value) ∧
      (settings.strategy = .innermost → k = e.connectives) := by
  induction hsize : e.connectives using Nat.strongRecOn generalizing e with
  | ind size ih =>
    subst hsize
    obtain ⟨b, rfl⟩ | ⟨e', h⟩ := progress settings e
    · exact ⟨0, Nat.le_refl 0, fun _ => rfl, fun _ => rfl⟩
    · obtain ⟨k, hk, hleads, hexact⟩ := ih _ h.fewer e' rfl
      rw [h.value] at hleads
      refine ⟨1 + k, ?_, h.leads.trans rules_placeBlind hleads, fun hs => ?_⟩
      · have hfewer := h.fewer
        omega
      · rw [hexact hs, Nat.add_comm, h.innermost hs]

/-- **Expressions are worked out.** A limit of as many steps as a closed expression has
connectives is enough under either strategy to reach its truth value, wherever its
sequences were built; innermost takes exactly as many steps, and outermost no more. -/
theorem normalize_expression (e : Expression) (settings : NormalizeSettings) (o : Origin)
    (t : Term) (ht : t.unplaced = e.toTerm) (hlimit : e.connectives ≤ settings.maxSteps) :
    ∃ k ≤ e.connectives,
      ((Normalizer.mk rules settings).normalize o t).value = .ok ⟨truth e.value, k⟩ ∧
      (settings.strategy = .innermost → k = e.connectives) := by
  obtain ⟨k, hk, hleads, hexact⟩ := leads_value settings e
  have hplaced : e.toTerm.unplaced = t.unplaced := by rw [e.unplaced_toTerm, ht]
  obtain ⟨u, hvalue, hu⟩ := (hleads.congr rules_placeBlind hplaced rfl).normalize_ok
    rules_placeBlind (irreducible_truth _) (Nat.le_trans hk hlimit) o
  have hnotSeq : (truth e.value).isSeq = false := by cases e.value <;> rfl
  obtain rfl := Term.eq_of_unplaced hnotSeq hu.symm
  exact ⟨k, hk, hvalue, hexact⟩

/-- A disjunction that is decided before its second operand is looked at. -/
def decidedEarly : Expression :=
  .join .or (.not (.const false)) (.join .and (.not (.const true)) (.const true))

/-- Innermost takes four steps to the value, and outermost no more. -/
theorem normalize_expression_decidedEarly :
    decidedEarly.toTerm.unplaced = decidedEarly.toTerm ∧ decidedEarly.connectives ≤ 4 ∧
    (∃ k ≤ 4, ((Normalizer.mk rules { maxSteps := 4 }).normalize default
      decidedEarly.toTerm).value = .ok ⟨.symbol "T", k⟩) ∧
    ((Normalizer.mk rules { maxSteps := 4, strategy := .innermost }).normalize default
      decidedEarly.toTerm).value = .ok ⟨.symbol "T", 4⟩ := by
  have ht := decidedEarly.unplaced_toTerm
  have hlimit : decidedEarly.connectives ≤ 4 := by decide
  obtain ⟨k, hk, houter, -⟩ :=
    normalize_expression decidedEarly { maxSteps := 4 } default _ ht hlimit
  obtain ⟨j, -, hinner, hexact⟩ := normalize_expression decidedEarly
    { maxSteps := 4, strategy := .innermost } default _ ht hlimit
  obtain rfl : j = 4 := hexact rfl
  exact ⟨ht, hlimit, ⟨k, hk, houter⟩, hinner⟩

end TermRules.Booleans

/-
TermRules.Proofs.Numerals — sums and products of numerals, by rules.

A numeral is zero with a number of successors around it. Four rules add and multiply by
recursion on the first operand. What the second operand is does not matter to them, and so
a sum can be taken apart while that is still a product to be worked out: this is what
outermost does, under more and more successors. Innermost works the product out first and
then takes the sum apart. Either way a sum with a numeral as its first operand takes one
step for each of its successors and one more (`leads_sum`), and under successors the same
steps are taken as outside of them (`leads_iterate`), so the two inductions for products come
to the same count (`leads_product`). `normalize_product`.
-/
import Mathlib.Logic.Function.Iterate
import TermRules.Proofs.Derivations

namespace TermRules.Peano

/-! ## Numerals and their rules -/

def zero : Term := .symbol "Z"

def succ (t : Term) : Term := .seq default [.symbol "S", t]

def plus (t u : Term) : Term := .seq default [.symbol "+", t, u]

def times (t u : Term) : Term := .seq default [.symbol "*", t, u]

/-- Zero with so many successors around it. -/
def numeral : Nat → Term
  | 0 => zero
  | n + 1 => succ (numeral n)

/-- Addition and multiplication by recursion on the first operand. -/
def templates : List TemplateRule :=
  let x := Term.var (.named "x")
  let y := Term.var (.named "y")
  [⟨plus zero y, y⟩,
    ⟨plus (succ x) y, succ (plus x y)⟩,
    ⟨times zero y, zero⟩,
    ⟨times (succ x) y, plus y (times x y)⟩]

/-- The set of these rules, sealed so that only the lemmas on its results unfold it. -/
@[irreducible] def rules : RuleSet Term := .ofTemplates default (some "peano") templates

theorem rules_placeBlind : rules.PlaceBlind := by
  rw [rules]
  exact RuleSet.placeBlind_ofTemplates Acceptance.placeBlind_default _ _

/-! ## What the rules give -/

section Results

variable (o p : Origin) (t u : Term)

theorem result?_symbol (s : String) : (rules.result? o (.symbol s)).value = none := by
  rw [rules, RuleSet.value_result?_ofTemplates]
  rfl

theorem result?_succ : (rules.result? o (.seq p [.symbol "S", t])).value = none := by
  rw [rules, RuleSet.value_result?_ofTemplates]
  rfl

theorem result?_plus_zero : (rules.result? o (plus zero u)).value = some u := by
  rw [rules, RuleSet.value_result?_ofTemplates]
  rfl

theorem result?_plus_succ : (rules.result? o (plus (succ t) u)).value =
    some (.seq o [.symbol "S", .seq (o.sub 1) [.symbol "+", t, u]]) := by
  rw [rules, RuleSet.value_result?_ofTemplates]
  rfl

theorem result?_times_zero : (rules.result? o (times zero u)).value = some zero := by
  rw [rules, RuleSet.value_result?_ofTemplates]
  rfl

theorem result?_times_succ : (rules.result? o (times (succ t) u)).value =
    some (.seq o [.symbol "+", u, .seq (o.sub 2) [.symbol "*", t, u]]) := by
  rw [rules, RuleSet.value_result?_ofTemplates]
  rfl

end Results

theorem irreducible_symbol (s : String) : ¬ rules.Reducible (.symbol s) :=
  RuleSet.not_reducible_of_not_seq rfl (result?_symbol default s)

/-- A numeral is a normal form. -/
theorem irreducible_numeral (n : Nat) : ¬ rules.Reducible (numeral n) := by
  induction n with
  | zero => exact irreducible_symbol "Z"
  | succ n ih =>
    refine RuleSet.not_reducible_seq (result?_succ default default _) ?_
    simp only [List.forall_mem_cons]
    exact ⟨irreducible_symbol "S", ih, nofun⟩

theorem numeral_add (m n : Nat) : numeral (n + m) = succ^[m] (numeral n) := by
  induction m with
  | zero => rfl
  | succ m ih => rw [Function.iterate_succ_apply', ← ih, ← Nat.add_assoc, numeral]

theorem unplaced_numeral (n : Nat) : (numeral n).unplaced = numeral n := by
  induction n with
  | zero => rfl
  | succ n ih =>
    show Term.seq default [.symbol "S", (numeral n).unplaced] = numeral (n + 1)
    rw [ih]
    rfl

/-! ## Counted steps -/

section Steps

variable {settings : NormalizeSettings} {k : Nat} {t u : Term}

/-- Under a successor the same steps are taken as outside of it. -/
theorem leads_succ (h : (Normalizer.mk rules settings).Leads k t u) :
    (Normalizer.mk rules settings).Leads k (succ t) (succ u) :=
  h.element rules_placeBlind [.symbol "S"] []
    (fun _ hx => List.mem_singleton.1 hx ▸ irreducible_symbol "S")
    (fun _ x => result?_succ default default x)

theorem leads_iterate (h : (Normalizer.mk rules settings).Leads k t u) (m : Nat) :
    (Normalizer.mk rules settings).Leads k (succ^[m] t) (succ^[m] u) := by
  induction m with
  | zero => exact h
  | succ m ih =>
    rw [Function.iterate_succ_apply', Function.iterate_succ_apply']
    exact leads_succ ih

/-- Innermost works out the second operand of a sum first. -/
theorem leads_plus (hs : settings.strategy = .innermost) (m : Nat)
    (h : (Normalizer.mk rules settings).Leads k t u) :
    (Normalizer.mk rules settings).Leads k (plus (numeral m) t) (plus (numeral m) u) := by
  refine h.element rules_placeBlind [.symbol "+", numeral m] [] ?_ ?_
  · simp only [List.forall_mem_cons]
    exact ⟨irreducible_symbol "+", irreducible_numeral m, nofun⟩
  · intro houter
    rw [hs] at houter
    cases houter

/-- A rule for two operands is applied to a numeral and anything by outermost, and by
innermost to a numeral and a normal form. -/
theorem leads_operation {name : String} (m : Nat)
    (hu : settings.strategy = .innermost → ¬ rules.Reducible u) {r r' : Term}
    (hr : (rules.result? default (.seq default [.symbol name, numeral m, u])).value = some r)
    (hplaced : r.unplaced = r'.unplaced) :
    (Normalizer.mk rules settings).Leads 1 (.seq default [.symbol name, numeral m, u]) r' := by
  refine Normalizer.leads_of_result? rules_placeBlind (fun hs => ?_) hr hplaced
  simp only [List.forall_mem_cons]
  exact ⟨irreducible_symbol name, irreducible_numeral m, hu hs, nofun⟩

/-- A sum takes one step for each successor of its first operand and one more, and puts
these around the second one, which innermost must have worked out. -/
theorem leads_sum (m : Nat) (hu : settings.strategy = .innermost → ¬ rules.Reducible u) :
    (Normalizer.mk rules settings).Leads (m + 1) (plus (numeral m) u) (succ^[m] u) := by
  induction m with
  | zero => exact leads_operation 0 hu (result?_plus_zero _ u) rfl
  | succ m ih =>
    have hfirst : (Normalizer.mk rules settings).Leads 1 (plus (numeral (m + 1)) u)
        (succ (plus (numeral m) u)) :=
      leads_operation (m + 1) hu (result?_plus_succ _ (numeral m) u) rfl
    rw [Function.iterate_succ_apply', Nat.add_comm]
    exact hfirst.trans rules_placeBlind (leads_succ ih)

/-- The steps of a product, counted. -/
theorem leads_product (settings : NormalizeSettings) (n m : Nat) :
    (Normalizer.mk rules settings).Leads (n * (m + 2) + 1) (times (numeral n) (numeral m))
      (numeral (n * m)) := by
  have hm : settings.strategy = .innermost → ¬ rules.Reducible (numeral m) :=
    fun _ => irreducible_numeral m
  induction n with
  | zero =>
    rw [Nat.zero_mul, Nat.zero_mul]
    exact leads_operation 0 hm (result?_times_zero _ (numeral m)) rfl
  | succ n ih =>
    have hfirst : (Normalizer.mk rules settings).Leads 1 (times (numeral (n + 1)) (numeral m))
        (plus (numeral m) (times (numeral n) (numeral m))) :=
      leads_operation (n + 1) hm (result?_times_succ _ (numeral n) (numeral m)) rfl
    rw [Nat.succ_mul, Nat.succ_mul, numeral_add m (n * m)]
    cases hs : settings.strategy with
    | outermost =>
      -- the sum is taken apart around the product that is left
      have hsum : (Normalizer.mk rules settings).Leads (m + 1)
          (plus (numeral m) (times (numeral n) (numeral m)))
          (succ^[m] (times (numeral n) (numeral m))) :=
        leads_sum m fun hinner => nomatch hs.symm.trans hinner
      have hcount : n * (m + 2) + (m + 2) + 1 = 1 + (m + 1 + (n * (m + 2) + 1)) := by omega
      rw [hcount]
      exact hfirst.trans rules_placeBlind (hsum.trans rules_placeBlind (leads_iterate ih m))
    | innermost =>
      -- the product that is left is worked out inside of the sum
      have hsum : (Normalizer.mk rules settings).Leads (m + 1)
          (plus (numeral m) (numeral (n * m))) (succ^[m] (numeral (n * m))) :=
        leads_sum m fun _ => irreducible_numeral (n * m)
      have hcount : n * (m + 2) + (m + 2) + 1 = 1 + (n * (m + 2) + 1 + (m + 1)) := by omega
      rw [hcount]
      exact hfirst.trans rules_placeBlind ((leads_plus hs m ih).trans rules_placeBlind hsum)

end Steps

/-! ## Main statement -/

/-- **Products of numerals.** Under either strategy the product of two numerals, wherever
its sequences were built, becomes the numeral of the product in exactly `n * (m + 2) + 1`
steps if the limit allows as many; otherwise it is exceeded. -/
theorem normalize_product (n m : Nat) (settings : NormalizeSettings) (o : Origin) (t : Term)
    (ht : t.unplaced = times (numeral n) (numeral m)) :
    (n * (m + 2) + 1 ≤ settings.maxSteps →
      ∃ u, ((Normalizer.mk rules settings).normalize o t).value = .ok ⟨u, n * (m + 2) + 1⟩ ∧
        u.unplaced = numeral (n * m)) ∧
    (settings.maxSteps < n * (m + 2) + 1 →
      ∃ u, ((Normalizer.mk rules settings).normalize o t).value =
        .error ⟨settings.maxSteps, u⟩) := by
  have hproduct : (times (numeral n) (numeral m)).unplaced = t.unplaced := by
    rw [ht]
    show Term.seq default [.symbol "*", (numeral n).unplaced, (numeral m).unplaced] = _
    rw [unplaced_numeral, unplaced_numeral]
    rfl
  have hleads := (leads_product settings n m).congr rules_placeBlind hproduct rfl
  refine ⟨fun hlimit => ?_, fun hlimit => hleads.normalize_error hlimit o⟩
  obtain ⟨u, hvalue, hu⟩ := hleads.normalize_ok rules_placeBlind (irreducible_numeral _) hlimit o
  exact ⟨u, hvalue, hu.trans (unplaced_numeral _)⟩

/-- Two times three, its sequences built at places of their own. -/
def twoTimesThree : Term :=
  .seq ⟨[0]⟩ [.symbol "*", .seq ⟨[1]⟩ [.symbol "S", .seq ⟨[2]⟩ [.symbol "S", zero]],
    .seq ⟨[3]⟩ [.symbol "S", .seq ⟨[4]⟩ [.symbol "S", .seq ⟨[5]⟩ [.symbol "S", zero]]]]

/-- Eleven steps are enough for it, and ten are not. -/
theorem normalize_product_twoTimesThree :
    twoTimesThree.unplaced = times (numeral 2) (numeral 3) ∧
    (∃ u, ((Normalizer.mk rules { maxSteps := 11, strategy := .innermost }).normalize ⟨[7]⟩
      twoTimesThree).value = .ok ⟨u, 11⟩ ∧ u.unplaced = numeral 6) ∧
    ∃ u, ((Normalizer.mk rules { maxSteps := 10 }).normalize ⟨[7]⟩ twoTimesThree).value =
      .error ⟨10, u⟩ := by
  have ht : twoTimesThree.unplaced = times (numeral 2) (numeral 3) := by decide
  obtain ⟨henough, -⟩ :=
    normalize_product 2 3 { maxSteps := 11, strategy := .innermost } ⟨[7]⟩ twoTimesThree ht
  obtain ⟨-, hshort⟩ := normalize_product 2 3 { maxSteps := 10 } ⟨[7]⟩ twoTimesThree ht
  exact ⟨ht, henough (by decide), hshort (by decide)⟩

end TermRules.Peano

/-
TermRules.Proofs.Reporting — the trace of a run tells what the run did.

Everything here is said of the reports, in the words of `Report`, which is all that is
read of a run. They come from several functions around recursive calls, so that a log is
well nested is a fact about the whole recursion. `Rule.Logs` says what the log
of a dispatch is without running it: the tries of the rules in order, each
followed by the whole log of the rule that is tried, and after the last one a
match or the lack of it. The log of a set inside of another is there in one
piece, at every depth, between two reports of the outer set; and a rule has one
log at most (`Logs.unique`). `logs_apply`: a set of pattern rules reports it.
This rests on the rollback: every rule is tried on the very environment that the
set was given, so what it reports does not depend on the rules before it.

A run of the normalizer reports a chain of steps. `reports_run` lays out its
log step by step: what was reported while the step was looked for, then the
step; at the end the search that found nothing, or found a step that was not
taken, and then the result. With both, `trace_faithful` reads off the reports of
either part of the engine alone, as long as the rules do not report in its name.
-/
import TermRules.Proofs.MatchingWalk
import TermRules.Proofs.Normalization
import TermRules.Proofs.Wording

namespace TermRules

variable {R : Type}

/-! ## Who reports -/

/-- Whether that part of the engine speaks in the report. -/
def Report.isFrom (source : String) (report : Report) : Bool := report.source = source

/-- No report comes from two parts of the engine. -/
theorem Report.isFrom_of_ne {report : Report} {source other : String}
    (h : report.isFrom source = true) (hne : source ≠ other) : report.isFrom other = false := by
  obtain rfl : report.source = source := of_decide_eq_true h
  exact decide_eq_false hne

/-- The reports of a computation that come from one part of the engine. -/
def Traced.reportsFrom {α : Type} (source : String) (x : Traced α) : List Report :=
  x.reports.filter (Report.isFrom source)

/-- What comes of a leaf alone: its result, and what is reported meanwhile. -/
def Leaf.told (o : Origin) (t : Term) (e : Environment) (l : Leaf R) : Option R × List Report :=
  ((l.toRule.apply o t e).value.result, (l.toRule.apply o t e).reports)

/-- What comes of each leaf, without what is reported. -/
def muted (told : Leaf R → Option R × List Report) (l : Leaf R) : Option R × List Report :=
  ((told l).1, [])

/-- Wherever the leaf runs, nothing is reported in the name of that part. -/
def Leaf.SilentAs (source : String) (l : Leaf R) : Prop :=
  ∀ o t e, ∀ report ∈ (l.toRule.apply o t e).reports, report.isFrom source = false

/-! ## The log of a dispatch -/

/-- The tries of the rules of a set, numbered from `i` on, each followed by what
is reported while it lasts. -/
def tries (set : Option String) (t : Term) : (i : Nat) → List (List Report) → List Report
  | _, [] => []
  | i, log :: logs => .tryingRule set i t :: log ++ tries set t (i + 1) logs

namespace Rule

/-- The log of a rule, with its result, given what comes of each leaf. -/
inductive Logs (t : Term) (told : Leaf R → Option R × List Report) :
    Rule R → Option R → List Report → Prop where
  | leaf (l : Leaf R) : Logs t told l.toRule (told l).1 (told l).2
  /-- The rules before some rule give nothing and this one gives the result. -/
  | matched {set : Option String} {before : List (Rule R × List Report)} {rule : Rule R}
      {after : List (Rule R)} {r : R} {log : List Report}
      (failed : ∀ x ∈ before, Logs t told x.1 none x.2) (found : Logs t told rule (some r) log) :
      Logs t told (.nested set (before.map Prod.fst ++ rule :: after)) (some r)
        (tries set t 0 (before.map Prod.snd ++ [log]) ++ [.ruleMatched set before.length t])
  /-- All rules are tried and none gives anything. -/
  | exhausted {set : Option String} {tried : List (Rule R × List Report)}
      (failed : ∀ x ∈ tried, Logs t told x.1 none x.2) :
      Logs t told (.nested set (tried.map Prod.fst)) none
        (tries set t 0 (tried.map Prod.snd) ++ [.noRuleMatched set t])

section Log

variable {t : Term} {told : Leaf R → Option R × List Report} {set : Option String}

/-- The log of the rules of a set from the `i`-th on. -/
def LogsFrom (t : Term) (told : Leaf R → Option R × List Report) (set : Option String) (i : Nat)
    (rules : List (Rule R)) : Option R → List Report → Prop
  | some r, log => ∃ (before : List (Rule R × List Report)) (rule : Rule R) (after : List (Rule R))
      (last : List Report), rules = before.map Prod.fst ++ rule :: after ∧
      (∀ x ∈ before, x.1.Logs t told none x.2) ∧ rule.Logs t told (some r) last ∧
      log = tries set t i (before.map Prod.snd ++ [last]) ++
        [.ruleMatched set (i + before.length) t]
  | none, log => ∃ tried : List (Rule R × List Report), rules = tried.map Prod.fst ∧
      (∀ x ∈ tried, x.1.Logs t told none x.2) ∧
      log = tries set t i (tried.map Prod.snd) ++ [.noRuleMatched set t]

theorem logsFrom_nil (i : Nat) : LogsFrom t told set i [] none [.noRuleMatched set t] :=
  ⟨[], rfl, by simp, rfl⟩

theorem LogsFrom.hit {rule : Rule R} {r : R} {log : List Report}
    (h : rule.Logs t told (some r) log) (i : Nat) (rules : List (Rule R)) :
    LogsFrom t told set i (rule :: rules) (some r)
      (.tryingRule set i t :: log ++ [.ruleMatched set i t]) :=
  ⟨[], rule, rules, log, rfl, by simp, h, by simp [tries]⟩

theorem LogsFrom.miss {rule : Rule R} {rules : List (Rule R)} {result : Option R}
    {log rest : List Report} {i : Nat} (h : rule.Logs t told none log)
    (hrest : LogsFrom t told set (i + 1) rules result rest) :
    LogsFrom t told set i (rule :: rules) result (.tryingRule set i t :: log ++ rest) := by
  cases result with
  | none =>
    obtain ⟨tried, rfl, hfailed, rfl⟩ := hrest
    exact ⟨(rule, log) :: tried, rfl, List.forall_mem_cons.2 ⟨h, hfailed⟩, by simp [tries]⟩
  | some r =>
    obtain ⟨before, found, after, last, rfl, hfailed, hfound, rfl⟩ := hrest
    refine ⟨(rule, log) :: before, found, after, last, rfl,
      List.forall_mem_cons.2 ⟨h, hfailed⟩, hfound, ?_⟩
    simp [tries, Nat.add_assoc, Nat.add_comm 1]

theorem LogsFrom.nested {rules : List (Rule R)} {result : Option R} {log : List Report}
    (h : LogsFrom t told set 0 rules result log) : Logs t told (.nested set rules) result log := by
  cases result with
  | none =>
    obtain ⟨tried, rfl, hfailed, rfl⟩ := h
    exact .exhausted hfailed
  | some r =>
    obtain ⟨before, found, after, last, rfl, hfailed, hfound, rfl⟩ := h
    rw [Nat.zero_add]
    exact .matched hfailed hfound

theorem Logs.of_leaf {l : Leaf R} {result : Option R} {log : List Report}
    (h : l.toRule.Logs t told result log) : result = (told l).1 ∧ log = (told l).2 := by
  generalize hrule : l.toRule = rule at h
  cases h with
  | leaf l' =>
    obtain rfl : l = l' := by
      cases l
      cases l'
      cases hrule
      rfl
    exact ⟨rfl, rfl⟩
  | matched => cases hrule
  | exhausted => cases hrule

theorem Logs.of_nested {rules : List (Rule R)} {result : Option R} {log : List Report}
    (h : Logs t told (.nested set rules) result log) : LogsFrom t told set 0 rules result log := by
  generalize hrule : Rule.nested set rules = rule at h
  cases h with
  | leaf l => cases hrule
  | @matched _ before found after r last hfailed hfound =>
    cases hrule
    exact ⟨before, found, after, last, rfl, hfailed, hfound, by rw [Nat.zero_add]⟩
  | exhausted hfailed =>
    cases hrule
    exact ⟨_, rfl, hfailed, rfl⟩

/-- The first rule gives the result, or it gives none and the others go on. -/
theorem LogsFrom.cons_cases {i : Nat} {rule : Rule R} {rules : List (Rule R)} {result : Option R}
    {log : List Report} (h : LogsFrom t told set i (rule :: rules) result log) :
    (∃ r last, result = some r ∧ rule.Logs t told (some r) last ∧
      log = .tryingRule set i t :: last ++ [.ruleMatched set i t]) ∨
    ∃ last rest, rule.Logs t told none last ∧ LogsFrom t told set (i + 1) rules result rest ∧
      log = .tryingRule set i t :: last ++ rest := by
  cases result with
  | none =>
    obtain ⟨tried, htried, hfailed, rfl⟩ := h
    cases tried with
    | nil => cases htried
    | cons x tried =>
      cases htried
      obtain ⟨hx, hfailed⟩ := List.forall_mem_cons.1 hfailed
      exact .inr ⟨x.2, _, hx, ⟨tried, rfl, hfailed, rfl⟩, by simp [tries]⟩
  | some r =>
    obtain ⟨before, found, after, last, hrules, hfailed, hfound, rfl⟩ := h
    cases before with
    | nil =>
      cases hrules
      exact .inl ⟨r, last, rfl, hfound, by simp [tries]⟩
    | cons x before =>
      cases hrules
      obtain ⟨hx, hfailed⟩ := List.forall_mem_cons.1 hfailed
      refine .inr ⟨x.2, _, hx, ⟨before, found, after, last, rfl, hfailed, hfound, rfl⟩, ?_⟩
      simp [tries, Nat.add_assoc, Nat.add_comm 1]

mutual
/-- A rule has one result and one log. -/
theorem Logs.unique : ∀ (rule : Rule R) {result result' : Option R} {log log' : List Report},
    rule.Logs t told result log → rule.Logs t told result' log' → result = result' ∧ log = log'
  | .composite p c, _, _, _, _, h, h' => by
    obtain ⟨rfl, rfl⟩ := Logs.of_leaf (l := ⟨p, c⟩) h
    obtain ⟨rfl, rfl⟩ := Logs.of_leaf (l := ⟨p, c⟩) h'
    exact ⟨rfl, rfl⟩
  | .nested set rules, _, _, _, _, h, h' => LogsFrom.unique rules h.of_nested h'.of_nested

theorem LogsFrom.unique : ∀ (rules : List (Rule R)) {set : Option String} {i : Nat}
    {result result' : Option R} {log log' : List Report},
    LogsFrom t told set i rules result log → LogsFrom t told set i rules result' log' →
      result = result' ∧ log = log'
  | [], _, _, result, result', _, _, h, h' => by
    cases result <;> cases result' <;> simp_all [LogsFrom]
  | rule :: rules, _, _, _, _, _, _, h, h' => by
    rcases h.cons_cases with ⟨r, last, rfl, hr, rfl⟩ | ⟨last, rest, hr, hrest, rfl⟩
    · rcases h'.cons_cases with ⟨r', last', rfl, hr', rfl⟩ | ⟨last', rest', hr', -, -⟩
      · obtain ⟨hresult, rfl⟩ := Logs.unique rule hr hr'
        exact ⟨hresult, rfl⟩
      · cases (Logs.unique rule hr hr').1
    · rcases h'.cons_cases with ⟨r', last', rfl, hr', rfl⟩ | ⟨last', rest', hr', hrest', rfl⟩
      · cases (Logs.unique rule hr hr').1
      · obtain ⟨-, rfl⟩ := Logs.unique rule hr hr'
        obtain ⟨hresult, rfl⟩ := LogsFrom.unique rules hrest hrest'
        exact ⟨hresult, rfl⟩
end

theorem Logs.iff {rule : Rule R} {result : Option R} {log : List Report}
    (h : rule.Logs t told result log) (result' : Option R) (log' : List Report) :
    rule.Logs t told result' log' ↔ result' = result ∧ log' = log := by
  refine ⟨fun h' => Logs.unique rule h' h, ?_⟩
  rintro ⟨rfl, rfl⟩
  exact h

end Log

mutual
/-- A rule whose leaves only bind more reports its log. -/
theorem logs_apply : ∀ (rule : Rule R), (∀ l ∈ rule.leaves, l.predicate.Extends) →
    ∀ (o : Origin) (t : Term) (e : Environment),
      rule.Logs t (Leaf.told o t e) (rule.apply o t e).value.result (rule.apply o t e).reports
  | .composite p c, _, _, _, _ => .leaf ⟨p, c⟩
  | .nested set rules, hl, o, t, e => (logs_attemptAll rules hl set 0 o t e e (.refl e)).nested

/-- A set that finds what begins with `e` reports the log of its rules on `e`. -/
theorem logs_attemptAll : ∀ (rules : List (Rule R)),
    (∀ l ∈ allLeaves rules, l.predicate.Extends) →
    ∀ (set : Option String) (i : Nat) (o : Origin) (t : Term) (e live : Environment),
      e.Begins live →
      LogsFrom t (Leaf.told o t e) set i rules
        (attemptAll set e.snapshot i rules o t live).value.result
        (attemptAll set e.snapshot i rules o t live).reports
  | [], _, set, i, o, t, e, live, _ => logsFrom_nil i
  | rule :: rules, hl, set, i, o, t, e, live, hlive => by
    have hrule : ∀ l ∈ rule.leaves, l.predicate.Extends :=
      fun l hmem => hl l (List.mem_append_left _ hmem)
    have hrules : ∀ l ∈ allLeaves rules, l.predicate.Extends :=
      fun l hmem => hl l (List.mem_append_right _ hmem)
    have hlog := logs_apply rule hrule o t e
    have hrest := logs_attemptAll rules hrules set (i + 1) o t e (rule.apply o t e).value.env
      (apply_flatten rule hrule o t e).2.2
    rw [attemptAll, Environment.restore_of_begins hlive]
    simp only [Traced.value_bind, Traced.reports_bind, Traced.reports_emit, Event.report?_eq,
      Option.toList_some, List.singleton_append]
    cases hresult : (rule.apply o t e).value.result with
    | some r =>
      rw [hresult] at hlog
      have hhit : LogsFrom t (Leaf.told o t e) set i (rule :: rules) (some r) _ :=
        .hit hlog i rules
      simpa [hresult] using hhit
    | none =>
      rw [hresult] at hlog
      exact LogsFrom.miss hlog hrest
end

theorem mem_allLeaves {rules : List (Rule R)} {l : Leaf R} :
    l ∈ allLeaves rules ↔ ∃ rule ∈ rules, l ∈ rule.leaves := by
  induction rules with
  | nil => simp [allLeaves]
  | cons rule rules ih => simp [allLeaves, ih]

/-- The tries of a set stay where only the reports of sets are kept. -/
theorem filter_tries (set : Option String) (t : Term) (i : Nat) (logs : List (List Report)) :
    (tries set t i logs).filter (Report.isFrom "eval::rule_set") =
      tries set t i (logs.map (List.filter (Report.isFrom "eval::rule_set"))) := by
  induction logs generalizing i with
  | nil => rfl
  | cons log logs ih =>
    have htrying : (Report.tryingRule set i t).isFrom "eval::rule_set" = true := rfl
    simp [tries, ih, htrying]

/-- The reports of the sets alone are the log of a dispatch whose leaves say
nothing, if these do not report in the name of a set. -/
theorem Logs.filter {t : Term} {told : Leaf R → Option R × List Report} {rule : Rule R}
    {result : Option R} {log : List Report} (h : rule.Logs t told result log)
    (hl : ∀ l ∈ rule.leaves, ∀ report ∈ (told l).2, report.isFrom "eval::rule_set" = false) :
    rule.Logs t (muted told) result
      (log.filter (Report.isFrom "eval::rule_set")) := by
  induction h with
  | leaf l =>
    have hnone : (told l).2.filter (Report.isFrom "eval::rule_set") = [] := by
      rw [List.filter_eq_nil_iff]
      intro report hreport
      simp [hl l (by simp [Leaf.toRule, leaves]) report hreport]
    rw [hnone]
    exact .leaf l
  | @matched set before rule after r log failed found ihfailed ihfound =>
    have hbefore : ∀ x ∈ before.map fun x : Rule R × List Report =>
        (x.1, x.2.filter (Report.isFrom "eval::rule_set")),
        x.1.Logs t (muted told) none x.2 := List.forall_mem_map.2 fun x hx =>
      ihfailed x hx fun l hmem =>
        hl l (mem_allLeaves.2 ⟨x.1, List.mem_append_left _ (List.mem_map_of_mem hx), hmem⟩)
    have hfound := ihfound fun l hmem =>
      hl l (mem_allLeaves.2 ⟨rule, List.mem_append_right _ List.mem_cons_self, hmem⟩)
    have hmatched : (Report.ruleMatched set before.length t).isFrom "eval::rule_set" = true := rfl
    have hlogs : Logs t (muted told) (.nested set (_ ++ rule :: after)) (some r) _ :=
      .matched hbefore hfound
    simpa [filter_tries, Function.comp_def, hmatched] using hlogs
  | @exhausted set tried failed ihfailed =>
    have htried : ∀ x ∈ tried.map fun x : Rule R × List Report =>
        (x.1, x.2.filter (Report.isFrom "eval::rule_set")),
        x.1.Logs t (muted told) none x.2 := List.forall_mem_map.2 fun x hx =>
      ihfailed x hx fun l hmem => hl l (mem_allLeaves.2 ⟨x.1, List.mem_map_of_mem hx, hmem⟩)
    have hnone : (Report.noRuleMatched set t).isFrom "eval::rule_set" = true := rfl
    have hlogs : Logs t (muted told) (.nested set _) none _ := .exhausted htried
    simpa [filter_tries, Function.comp_def, hnone] using hlogs

end Rule

/-! ## The trace of a normalization -/

/-- What a run reports before the step with number `k`: for each earlier one, what
is reported while it is looked for, and then that it is taken. -/
def Normalizer.account (n : Normalizer) (o : Origin) (terms : Nat → Term) (taken k : Nat) :
    List Report :=
  (List.range k).flatMap fun i =>
    (n.step? (o.turn i) (terms i)).reports ++ [.stepTaken (taken + i) (terms i) (terms (i + 1))]

/-- The number of steps that a normalization took. -/
def stepCount : Except StepLimitExceeded NormalForm → Nat
  | .ok r => r.steps
  | .error x => x.limit

/-- What a normalization reports last. -/
def lastReport : Except StepLimitExceeded NormalForm → Report
  | .ok r => .normalFormReached r.steps r.term
  | .error x => .stepLimitExceeded x.limit x.term

namespace Normalizer

/-- One more step in front. -/
theorem account_succ (n : Normalizer) (o : Origin) (terms : Nat → Term) (taken k : Nat) :
    n.account o terms taken (k + 1) =
      (n.step? (o.turn 0) (terms 0)).reports ++ .stepTaken taken (terms 0) (terms 1) ::
        n.account (o.sub 1) (fun i => terms (i + 1)) (taken + 1) k := by
  simp [account, List.range_succ_eq_map, List.flatMap_map, Origin.turn_succ, Nat.add_assoc,
    Nat.add_comm 1]

/-- A sequence of terms with another one in front. -/
def precededBy (t : Term) (terms : Nat → Term) : Nat → Term
  | 0 => t
  | i + 1 => terms i

/-- What a run reports: the steps that it takes, the search for one more, and
how it ends. -/
theorem reports_run (n : Normalizer) (left : Nat) (o : Origin) (taken : Nat) (t : Term) :
    ∃ (k : Nat) (terms : Nat → Term), terms 0 = t ∧
      (∀ i < k, (n.step? (o.turn i) (terms i)).value = some (terms (i + 1))) ∧
      (n.run o left taken t).reports = n.account o terms taken k ++
        (n.step? (o.turn k) (terms k)).reports ++ [lastReport (n.run o left taken t).value] ∧
      ((n.run o left taken t).value = .ok ⟨terms k, taken + k⟩ ∧
          (n.step? (o.turn k) (terms k)).value = none ∨
        (n.run o left taken t).value = .error ⟨n.settings.maxSteps, terms k⟩ ∧ k = left ∧
          (n.step? (o.turn k) (terms k)).value ≠ none) := by
  have hturn : o.turn 0 = o.sub 0 := rfl
  induction left generalizing o taken t with
  | zero =>
    refine ⟨0, fun _ => t, rfl, fun i hi => absurd hi i.not_lt_zero, ?_⟩
    rw [run, hturn]
    simp only [Traced.value_bind, Traced.reports_bind]
    cases (n.step? (o.sub 0) t).value with
    | none => exact ⟨rfl, .inl ⟨rfl, rfl⟩⟩
    | some t' => exact ⟨rfl, .inr ⟨rfl, trivial, Option.some_ne_none t'⟩⟩
  | succ left ih =>
    cases hstep : (n.step? (o.sub 0) t).value with
    | none =>
      refine ⟨0, fun _ => t, rfl, fun i hi => absurd hi i.not_lt_zero, ?_⟩
      rw [run, hturn]
      simp only [Traced.value_bind, Traced.reports_bind, hstep]
      exact ⟨rfl, .inl ⟨rfl, trivial⟩⟩
    | some t' =>
      obtain ⟨k, terms, hstart, hsteps, hreports, hend⟩ := ih (o.sub 1) (taken + 1) t' rfl
      rw [Origin.turn_succ, Nat.add_assoc, Nat.add_comm 1] at hend
      refine ⟨k + 1, precededBy t terms, rfl, ?_, ?_, ?_⟩
      · intro i hi
        cases i with
        | zero => exact hstep.trans (congrArg some hstart.symm)
        | succ i =>
          rw [← Origin.turn_succ]
          exact hsteps i (by omega)
      · rw [account_succ, run, ← Origin.turn_succ]
        simp only [Traced.value_bind, Traced.reports_bind, hstep, hreports, hturn, hstart,
          precededBy, Traced.reports_emit, Event.report?_eq, Option.toList_some,
          List.append_assoc, List.cons_append, List.nil_append]
      · rw [value_run_succ hstep]
        exact hend.imp_right fun h => ⟨h.1, congrArg Nat.succ h.2.1, h.2.2⟩

/-- The terms that a normalization with that result goes through. -/
structure GoesThrough (n : Normalizer) (o : Origin) (t : Term)
    (result : Except StepLimitExceeded NormalForm) (terms : Nat → Term) : Prop where
  start : terms 0 = t
  /-- Each step leads from one of them to the next. -/
  step : ∀ i < stepCount result, (n.step? (o.turn i) (terms i)).value = some (terms (i + 1))
  last : terms (stepCount result) = ending result
  /-- Where there is an error, as many steps as allowed were taken and one more was found. -/
  limit : ∀ x, result = .error x →
    x.limit = n.settings.maxSteps ∧ (n.step? (o.turn x.limit) x.term).value ≠ none

theorem reports_normalize (n : Normalizer) (o : Origin) (t : Term) :
    ∃ terms, n.GoesThrough o t (n.normalize o t).value terms ∧
      (n.normalize o t).reports = n.account o terms 0 (stepCount (n.normalize o t).value) ++
        (n.step? (o.turn (stepCount (n.normalize o t).value))
          (ending (n.normalize o t).value)).reports ++ [lastReport (n.normalize o t).value] := by
  obtain ⟨k, terms, hstart, hsteps, hreports, hend⟩ := n.reports_run n.settings.maxSteps o 0 t
  refine ⟨terms, ?_⟩
  unfold normalize
  rcases hend with ⟨hvalue, -⟩ | ⟨hvalue, rfl, hmore⟩
  · rw [Nat.zero_add] at hvalue
    rw [hreports, hvalue]
    exact ⟨⟨hstart, hsteps, rfl, nofun⟩, rfl⟩
  · rw [hreports, hvalue]
    refine ⟨⟨hstart, hsteps, rfl, ?_⟩, rfl⟩
    rintro x ⟨⟩
    exact ⟨rfl, hmore⟩

end Normalizer

/-! ## What stays silent -/

namespace Rule

variable {report : Report}

mutual
/-- Whatever is reported in a dispatch comes from the sets or from a leaf. -/
theorem mem_reports_apply : ∀ (rule : Rule R) (o : Origin) (t : Term)
    (e : Environment), report ∈ (rule.apply o t e).reports →
      report.isFrom "eval::rule_set" = true ∨
        ∃ l ∈ rule.leaves, ∃ e', report ∈ (l.toRule.apply o t e').reports
  | .composite p c, _, _, e, hreport => .inr ⟨⟨p, c⟩, by simp [leaves], e, hreport⟩
  | .nested set rules, o, t, e, hreport =>
    mem_reports_attemptAll rules set e.snapshot 0 o t e hreport

theorem mem_reports_attemptAll : ∀ (rules : List (Rule R)) (set : Option String)
    (backup : Snapshot) (i : Nat) (o : Origin) (t : Term) (e : Environment),
    report ∈ (attemptAll set backup i rules o t e).reports →
      report.isFrom "eval::rule_set" = true ∨
        ∃ l ∈ allLeaves rules, ∃ e', report ∈ (l.toRule.apply o t e').reports
  | [], set, backup, i, o, t, e, hreport => by
    rw [attemptAll] at hreport
    obtain rfl : report = .noRuleMatched set t := by simpa using hreport
    exact .inl rfl
  | rule :: rules, set, backup, i, o, t, e, hreport => by
    have hrule := mem_reports_apply rule o t (e.restore backup)
    have hrules := mem_reports_attemptAll rules set backup (i + 1) o t
      (rule.apply o t (e.restore backup)).value.env
    rw [attemptAll] at hreport
    simp only [Traced.reports_bind, Traced.reports_emit, Event.report?_eq, Option.toList_some,
      List.singleton_append, List.mem_cons, List.mem_append] at hreport
    rcases hreport with rfl | hreport | hreport
    · exact .inl rfl
    · refine (hrule hreport).imp_right fun ⟨l, hl, hmem⟩ => ⟨l, ?_, hmem⟩
      exact List.mem_append_left _ hl
    · cases hresult : (rule.apply o t (e.restore backup)).value.result with
      | some r =>
        rw [hresult] at hreport
        obtain rfl : report = .ruleMatched set i t := by simpa using hreport
        exact .inl rfl
      | none =>
        rw [hresult] at hreport
        refine (hrules hreport).imp_right fun ⟨l, hl, hmem⟩ => ⟨l, ?_, hmem⟩
        exact List.mem_append_right _ hl
end

end Rule

theorem Traced.mem_reports_orElse {α : Type} {report : Report} {x : Traced (Option α)}
    {y : Unit → Traced (Option α)} (h : report ∈ (x.orElse y).reports) :
    report ∈ x.reports ∨ report ∈ (y ()).reports := by
  unfold orElse at h
  rw [reports_bind, List.mem_append] at h
  cases hx : x.value with
  | some a => simp_all
  | none => simpa [hx] using h

namespace Strategy

variable (s : Strategy) {f : Origin → Term → Traced (Option Term)} {report : Report}

mutual
/-- Whatever a search reports is reported somewhere by what it searches with. -/
theorem mem_reports_reduceFirst : ∀ (t : Term) (o : Origin),
    report ∈ (s.reduceFirst f o t).reports → ∃ p u, report ∈ (f p u).reports
  | .seq o' items, o, hreport => by
    have helement := mem_reports_reduceElement items o 0
    cases s with
    | outermost =>
      rw [reduceFirst] at hreport
      rcases Traced.mem_reports_orElse hreport with hreport | hreport
      · exact ⟨_, _, hreport⟩
      · exact helement (by simpa using hreport)
    | innermost =>
      rw [reduceFirst] at hreport
      rcases Traced.mem_reports_orElse hreport with hreport | hreport
      · exact helement (by simpa using hreport)
      · exact ⟨_, _, hreport⟩
  | .literal _, o, hreport | .grounded _ _, o, hreport | .boxed _ _, o, hreport
  | .var _, o, hreport => ⟨_, _, hreport⟩

theorem mem_reports_reduceElement : ∀ (ts : List Term) (o : Origin) (i : Nat),
    report ∈ (s.reduceElement f o i ts).reports → ∃ p u, report ∈ (f p u).reports
  | [], _, _, hreport => by simp [reduceElement] at hreport
  | t :: ts, o, i, hreport => by
    rw [reduceElement, Traced.reports_bind, List.mem_append] at hreport
    rcases hreport with hreport | hreport
    · exact mem_reports_reduceFirst t (o.sub i) hreport
    · cases hvalue : (s.reduceFirst f (o.sub i) t).value with
      | some t' => simp [hvalue] at hreport
      | none => exact mem_reports_reduceElement ts o (i + 1) (by simpa [hvalue] using hreport)
end

end Strategy

/-- If the leaves do not report in the name of the normalizer, neither does the
search for a step. -/
theorem Normalizer.filter_step? {n : Normalizer}
    (hn : ∀ l ∈ n.rules.leaves, l.SilentAs "eval::normalize") (o : Origin) (t : Term) :
    (n.step? o t).reports.filter (Report.isFrom "eval::normalize") = [] := by
  rw [List.filter_eq_nil_iff]
  intro report hreport
  obtain ⟨p, u, hreport⟩ := n.settings.strategy.mem_reports_reduceFirst t o hreport
  rw [RuleSet.result?, Traced.reports_map] at hreport
  rcases Rule.mem_reports_apply _ p u _ hreport with hset | ⟨l, hl, e, hleaf⟩
  · simp [Report.isFrom_of_ne hset (by decide : _ ≠ "eval::normalize")]
  · simp [hn l hl p u e report hleaf]

theorem Normalizer.filter_account {n : Normalizer}
    (hn : ∀ l ∈ n.rules.leaves, l.SilentAs "eval::normalize") (o : Origin) (terms : Nat → Term)
    (taken k : Nat) :
    (n.account o terms taken k).filter (Report.isFrom "eval::normalize") =
      (List.range k).map fun i => .stepTaken (taken + i) (terms i) (terms (i + 1)) := by
  have hstep : ∀ i u u', (Report.stepTaken i u u').isFrom "eval::normalize" = true :=
    fun _ _ _ => rfl
  rw [account, List.filter_flatMap, List.map_eq_flatMap]
  simp [filter_step? hn, hstep]

theorem isFrom_lastReport (result : Except StepLimitExceeded NormalForm) :
    (lastReport result).isFrom "eval::normalize" = true := by
  cases result with
  | ok r => rfl
  | error x => rfl

/-! ## Pattern rules -/

theorem Variable.mem_reports_accepts {a : Acceptance} {v : Variable} {t : Term} {report : Report}
    (h : report ∈ (v.accepts a t).reports) : ∃ key u, report ∈ (a.test key u).reports := by
  unfold accepts at h
  split at h
  · simp at h
  · rename_i f _
    cases f with
    | custom name key => exact ⟨key, t, h⟩
    | _ => simp [Filter.accepts] at h

namespace Matching

variable {a : Acceptance} {report : Report}

theorem mem_reports_meet {v : Variable} {t : Term} {e : Environment}
    (h : report ∈ (meet a v t e).reports) : ∃ key u, report ∈ (a.test key u).reports := by
  unfold meet at h
  split at h
  · simp at h
  · rw [Traced.reports_bind, List.mem_append] at h
    rcases h with h | h
    · exact v.mem_reports_accepts h
    · split at h
      · simp at h
      · simp at h

/-- What a match reports beside its start comes from the custom filters. -/
theorem mem_reports_visit {p t : Term} {e : Environment} (h : report ∈ (visit a p t e).reports) :
    ∃ key u, report ∈ (a.test key u).reports := by
  rw [visit_eq_judgeAll] at h
  generalize encounters p t = xs at h
  induction xs generalizing e with
  | nil => simp [judgeAll] at h
  | cons x xs ih =>
    rw [judgeAll, Traced.reports_bind, List.mem_append] at h
    rcases h with h | h
    · cases hvar : x.pattern.var? with
      | none => simp [judge_of_var?_eq_none hvar] at h
      | some v =>
        rw [Encounter.judge, Term.var?_eq_some_iff.1 hvar] at h
        exact mem_reports_meet h
    · split at h
      · exact ih h
      · simp at h

end Matching

/-- A pattern rule reports in no other name than those of matching and of
pattern rules, unless a custom filter or its application does. -/
theorem Leaf.silentAs_pattern {a : Acceptance} {c : Application R} {source : String}
    (ha : ∀ key u, ∀ report ∈ (a.test key u).reports, report.isFrom source = false)
    (hc : ∀ o t e, ∀ report ∈ (c.compute o t e).reports, report.isFrom source = false)
    (hmatching : source ≠ "eval::pattern") (hrules : source ≠ "eval::rules") (p : Term) :
    Leaf.SilentAs source ⟨.pattern a p, c⟩ := by
  intro o t e report hreport
  rw [toRule, Rule.apply, Traced.reports_bind, List.mem_append] at hreport
  rcases hreport with htest | hcompute
  · simp only [Predicate.pattern, Matching.into, Traced.reports_bind, Traced.reports_emit,
      Traced.reports_pure, Event.report?_eq, Option.toList_some, List.append_nil,
      List.mem_append, List.mem_singleton] at htest
    rcases htest with (rfl | hvisit) | rfl
    · have hfrom : (Report.matching p t e.length).isFrom "eval::pattern" = true := rfl
      exact Report.isFrom_of_ne hfrom hmatching.symm
    · obtain ⟨key, u, hfilter⟩ := Matching.mem_reports_visit hvisit
      exact ha key u report hfilter
    · have hfrom : ∀ ok, (Report.tested p t ok).isFrom "eval::rules" = true := fun _ => rfl
      exact Report.isFrom_of_ne (hfrom _) hrules.symm
  · split at hcompute
    · rw [Traced.reports_bind, Traced.reports_pure, List.append_nil] at hcompute
      exact hc _ _ _ report hcompute
    · simp at hcompute

/-- **The trace is faithful to the run.** A dispatch of a tree of sets of pattern
rules reports, word by word, the one log that it can have: each set the tries of its
rules in order, with the number of each from zero on, and then either the match of the
one that gave the result or that there was none, with all that is reported in a try
directly after it. Without what the leaves say the reports of the sets are such a log by
themselves. A normalization takes its steps along a chain of terms from the given
one to the one that it ends with. It reports each of them once, under its number and
with the texts of both its ends, between the searches for them, and after the last
search, whose find is dropped if the limit is exceeded, how it ends, with the number of
steps or the limit and the text of the term. Nothing else is reported in the name of the
normalizer. -/
theorem trace_faithful {s : RuleSet R} (hs : ∀ l ∈ s.leaves, ∃ a p, l.predicate = .pattern a p)
    (n : Normalizer) (o : Origin) (t : Term) (e : Environment) :
    (∀ result log, s.toRule.Logs t (Leaf.told o t e) result log ↔
      result = (s.applyIn o t e).value.result ∧ log = (s.applyIn o t e).reports) ∧
    ((∀ l ∈ s.leaves, l.SilentAs "eval::rule_set") →
      ∀ result log, s.toRule.Logs t (muted (Leaf.told o t e)) result log ↔
        result = (s.applyIn o t e).value.result ∧
          log = (s.applyIn o t e).reportsFrom "eval::rule_set") ∧
    ∃ terms, n.GoesThrough o t (n.normalize o t).value terms ∧
      (n.normalize o t).reports = n.account o terms 0 (stepCount (n.normalize o t).value) ++
        (n.step? (o.turn (stepCount (n.normalize o t).value))
          (Normalizer.ending (n.normalize o t).value)).reports ++
        [lastReport (n.normalize o t).value] ∧
      ((∀ l ∈ n.rules.leaves, l.SilentAs "eval::normalize") →
        (n.normalize o t).reportsFrom "eval::normalize" =
          ((List.range (stepCount (n.normalize o t).value)).map fun i =>
            .stepTaken i (terms i) (terms (i + 1))) ++ [lastReport (n.normalize o t).value]) := by
  have hextends : ∀ l ∈ s.leaves, l.predicate.Extends := by
    intro l hl
    obtain ⟨a, p, hp⟩ := hs l hl
    rw [hp]
    exact Predicate.extends_pattern a p
  have hlogs : s.toRule.Logs t (Leaf.told o t e) (s.applyIn o t e).value.result
      (s.applyIn o t e).reports := Rule.logs_apply s.toRule hextends o t e
  refine ⟨hlogs.iff, fun hsilent => ?_, ?_⟩
  · exact (hlogs.filter fun l hl report hreport => hsilent l hl o t e report hreport).iff
  · obtain ⟨terms, hterms, hreports⟩ := n.reports_normalize o t
    refine ⟨terms, hterms, hreports, fun hsilent => ?_⟩
    rw [Traced.reportsFrom, hreports, List.filter_append, List.filter_append,
      Normalizer.filter_account hsilent, Normalizer.filter_step? hsilent]
    simp [isFrom_lastReport]

/-- Calls of one function become calls of another, and these, by a set of their
own, their argument. -/
def unwrapping : RuleSet Term where
  name := some "outer"
  rules := [.nested (some "inner") [TemplateRule.toRule default
      ⟨.seq default [.symbol "g", .var (.named "x")], .var (.named "x")⟩],
    TemplateRule.toRule default ⟨.seq default [.symbol "f", .var (.named "x")],
      .seq default [.symbol "g", .var (.named "x")]⟩]

/-- A call of a function. -/
def callOf (name : String) : Term := .seq default [.symbol name, .symbol "a"]

/-- The inner set is tried between the two tries of the outer one, and the numbers and
names in the reports are those of the set that speaks. Normalizing takes one step if no
more is allowed, and says nothing of the other that it found. -/
theorem trace_faithful_unwrapping :
    (∀ l ∈ unwrapping.leaves, ∃ a p, l.predicate = .pattern a p) ∧
    unwrapping.toRule.Logs (callOf "f")
      (muted (Leaf.told default (callOf "f") .empty))
      (some (.seq default [.symbol "g", .symbol "a"]))
      [⟨.trace, "eval::rule_set", [("message", "Trying rule"), ("rule_set", "outer"),
          ("index", "0"), ("term", "(f a)")]⟩,
        ⟨.trace, "eval::rule_set", [("message", "Trying rule"), ("rule_set", "inner"),
          ("index", "0"), ("term", "(f a)")]⟩,
        ⟨.trace, "eval::rule_set", [("message", "No rule matched"), ("rule_set", "inner"),
          ("term", "(f a)")]⟩,
        ⟨.trace, "eval::rule_set", [("message", "Trying rule"), ("rule_set", "outer"),
          ("index", "1"), ("term", "(f a)")]⟩,
        ⟨.debug, "eval::rule_set", [("message", "Rule matched"), ("rule_set", "outer"),
          ("index", "1"), ("term", "(f a)")]⟩] ∧
    (Normalizer.normalize ⟨unwrapping, { maxSteps := 1 }⟩ default (callOf "f")).reportsFrom
        "eval::normalize" =
      [⟨.trace, "eval::normalize", [("step", "0"), ("from", "(f a)"), ("to", "(g a)")]⟩,
        ⟨.debug, "eval::normalize", [("message", "Step limit exceeded"), ("limit", "1"),
          ("term", "(g a)")]⟩] := by
  have hleaves : ∀ l ∈ unwrapping.leaves, ∃ (p : Term) (u : Term),
      l = ⟨.pattern default p, .template u⟩ := by
    intro l hl
    simp only [unwrapping, TemplateRule.toRule, RuleSet.leaves, Rule.allLeaves, Rule.leaves,
      List.append_nil, List.cons_append, List.nil_append, List.mem_cons, List.not_mem_nil,
      or_false] at hl
    rcases hl with rfl | rfl
    · exact ⟨_, _, rfl⟩
    · exact ⟨_, _, rfl⟩
  have hpattern : ∀ l ∈ unwrapping.leaves, ∃ a p, l.predicate = .pattern a p := by
    intro l hl
    obtain ⟨p, u, rfl⟩ := hleaves l hl
    exact ⟨default, p, rfl⟩
  have hsilent : ∀ source : String, source ≠ "eval::pattern" → source ≠ "eval::rules" →
      ∀ l ∈ unwrapping.leaves, l.SilentAs source := by
    intro source hmatching hrules l hl
    obtain ⟨p, u, rfl⟩ := hleaves l hl
    refine Leaf.silentAs_pattern ?_ ?_ hmatching hrules p
    · exact fun _ _ _ hreport => by cases hreport
    · exact fun _ _ _ _ hreport => by cases hreport
  obtain ⟨-, hlog, terms, hterms, -, hsteps⟩ := trace_faithful hpattern
    ⟨unwrapping, { maxSteps := 1 }⟩ default (callOf "f") .empty
  have hvalue : (Normalizer.normalize ⟨unwrapping, { maxSteps := 1 }⟩ default (callOf "f")).value =
      .error ⟨1, .seq ⟨[0]⟩ [.symbol "g", .symbol "a"]⟩ :=
    (Normalizer.normalize_eq_error_iff _ _ _ _ _).2
      ⟨rfl, rfl, (Normalizer.isSome_step? ⟨unwrapping, {}⟩ default _).1 rfl⟩
  refine ⟨hpattern, (hlog (hsilent _ (by decide) (by decide)) _ _).2 ⟨rfl, rfl⟩, ?_⟩
  have hfirst := hterms.start
  have hlast := hterms.last
  rw [hvalue] at hlast
  rw [hsteps (hsilent _ (by decide) (by decide)), hvalue]
  change [Report.stepTaken 0 (terms 0) (terms 1), _] = _
  rw [hfirst, show terms 1 = _ from hlast]
  rfl

end TermRules

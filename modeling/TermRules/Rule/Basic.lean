/-
TermRules.Rule.Basic — rules, and sets that try them in order.

A predicate decides whether a rule applies and may bind variables on the way;
an application computes the result and runs only after its predicate
succeeded. A rule pairs the two, or is itself a set of rules. A set tries its
rules in order, each on the environment that the set was given, and the first
one that matches gives the result and leaves its environment. When none
matches, the environment is rolled back.
-/
import TermRules.Trace.Basic

namespace TermRules

/-- A test of a term in an environment, which it may change. -/
structure Predicate where
  test : Term → Environment → Traced Attempt

/-- The computation of a result, given where to build its nodes. -/
structure Application (R : Type) where
  compute : Origin → Term → Environment → Traced R

/-- What becomes of a term under a rule: a result if the rule matched, and the
environment afterwards. -/
structure Outcome (R : Type) where
  result : Option R
  env : Environment

/-- A way to turn some terms into results. -/
inductive Rule (R : Type) where
  /-- Computes its result on the terms that pass the predicate. -/
  | composite (predicate : Predicate) (application : Application R)
  /-- Behaves as a set of rules with an optional name. -/
  | nested (name : Option String) (rules : List (Rule R))

/-- Rules in the order in which they are tried. -/
structure RuleSet (R : Type) where
  name : Option String
  rules : List (Rule R)

namespace Application

variable {R S : Type}

/-- The application whose results go through a function. -/
def map (f : R → S) (c : Application R) : Application S :=
  ⟨fun o t e => f <$> c.compute o t e⟩

end Application

namespace Rule

variable {R S : Type}

mutual
/-- The rule whose results go through a function. -/
def map (f : R → S) : Rule R → Rule S
  | .composite p c => .composite p (c.map f)
  | .nested name rules => .nested name (mapAll f rules)

/-- The rules whose results go through a function. -/
def mapAll (f : R → S) : List (Rule R) → List (Rule S)
  | [] => []
  | rule :: rules => map f rule :: mapAll f rules
end

mutual
/-- Applies a rule to a term in an environment. -/
def apply : Rule R → Origin → Term → Environment → Traced (Outcome R)
  | .composite p c, o, t, e => do
    let attempt ← p.test t e
    if attempt.ok then
      let result ← c.compute o t attempt.env
      return ⟨some result, attempt.env⟩
    else return ⟨none, attempt.env⟩
  | .nested name rules, o, t, e => attemptAll name e.snapshot 0 rules o t e

/-- Tries the rules of a set from the `i`-th on, rolling back to `backup` before
each of them and after the last. -/
def attemptAll (name : Option String) (backup : Snapshot) (i : Nat) :
    List (Rule R) → Origin → Term → Environment → Traced (Outcome R)
  | [], _, t, e => do
    .emit (.noRuleMatched name t)
    return ⟨none, e.restore backup⟩
  | rule :: rules, o, t, e => do
    .emit (.tryingRule name i t)
    let outcome ← rule.apply o t (e.restore backup)
    match outcome.result with
    | some _ =>
      .emit (.ruleMatched name i t)
      return outcome
    | none => attemptAll name backup (i + 1) rules o t outcome.env
end

end Rule

namespace RuleSet

variable {R : Type}

def length (s : RuleSet R) : Nat := s.rules.length

def isEmpty (s : RuleSet R) : Bool := s.rules.isEmpty

/-- The set with one more rule, tried after all others. -/
def add (s : RuleSet R) (rule : Rule R) : RuleSet R := { s with rules := s.rules ++ [rule] }

/-- The set as a rule of another set. -/
def toRule (s : RuleSet R) : Rule R := .nested s.name s.rules

/-- Applies the set to a term in the caller's environment. -/
def applyIn (s : RuleSet R) (o : Origin) (t : Term) (e : Environment) : Traced (Outcome R) :=
  s.toRule.apply o t e

/-- Applies the set to a term in an environment of its own. -/
def result? (s : RuleSet R) (o : Origin) (t : Term) : Traced (Option R) :=
  Outcome.result <$> s.applyIn o t .empty

/-- Applies the set to a term; one that no rule matches gives `default`. -/
def resultOr (s : RuleSet R) (o : Origin) (t : Term) (default : R) : Traced R :=
  (Option.getD · default) <$> s.result? o t

/-- Applies the set to a term in the caller's environment; when no rule matches
the result is `default`. -/
def applyInOr (s : RuleSet R) (o : Origin) (t : Term) (e : Environment) (default : R) :
    Traced (R × Environment) := do
  let outcome ← s.applyIn o t e
  return (outcome.result.getD default, outcome.env)

/-- Reduces a term; one that no rule matches is kept. -/
def reduce (s : RuleSet Term) (o : Origin) (t : Term) : Traced Term := s.resultOr o t t

/-- Applies the set to independent terms, each in an environment of its own. -/
def results (s : RuleSet R) (o : Origin) (i : Nat) : List Term → Traced (List (Option R))
  | [] => pure []
  | t :: ts => do
    let result ← s.result? (o.sub i) t
    return result :: (← results s o (i + 1) ts)

/-- Whether the work on independent terms is handed out to workers, whose events
nobody here listens to. A single term is worked on in place. -/
def handsOut : List Term → Bool
  | _ :: _ :: _ => true
  | _ => false

def inspect (s : RuleSet R) : String :=
  "RuleSet \x7b name: " ++
    (match s.name with
      | some name => "Some(" ++ quoted name ++ ")"
      | none => "None") ++
    ", rules: " ++ toString s.length ++ " \x7d"

end RuleSet

end TermRules

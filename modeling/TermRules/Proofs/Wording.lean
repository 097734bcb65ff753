/-
TermRules.Proofs.Wording — the words in which a run is reported.

Who follows a run does not see its events. What is handed out are reports: the part
of the engine that speaks, how important it is, and fields with their texts, in which
a number is written in decimal and a term as it is displayed. What is proved of a trace
is therefore said of the reports. They are written down here for each thing that can
happen, apart from the events: a report that lost a field, or wrote another number into
it, would still come from an event of the right kind. `Event.report?_eq` ties the two
together, for all events at once.
-/
import TermRules.Trace.Basic

namespace TermRules

namespace Report

/-- How a rule set is called in its reports. -/
def nameOf (set : Option String) : String := set.getD "<anonymous>"

/-! ## Matching and substitution -/

def matching (pattern value : Term) (bound : Nat) : Report where
  level := .trace
  source := "eval::pattern"
  fields := [("pattern", pattern.display), ("value", value.display), ("bound", toString bound)]

def tested (pattern term : Term) (matched : Bool) : Report where
  level := .trace
  source := "eval::rules"
  fields := [("pattern", pattern.display), ("term", term.display), ("matched", toString matched)]

def fixpointReached (round : Nat) : Report where
  level := .trace
  source := "eval::rewrite"
  fields := [("message", "Fixpoint reached"), ("round", toString round)]

/-! ## Sets of rules -/

def tryingRule (set : Option String) (index : Nat) (term : Term) : Report where
  level := .trace
  source := "eval::rule_set"
  fields := [("message", "Trying rule"), ("rule_set", nameOf set), ("index", toString index),
    ("term", term.display)]

def ruleMatched (set : Option String) (index : Nat) (term : Term) : Report where
  level := .debug
  source := "eval::rule_set"
  fields := [("message", "Rule matched"), ("rule_set", nameOf set), ("index", toString index),
    ("term", term.display)]

def noRuleMatched (set : Option String) (term : Term) : Report where
  level := .trace
  source := "eval::rule_set"
  fields := [("message", "No rule matched"), ("rule_set", nameOf set), ("term", term.display)]

/-! ## Normalization -/

/-- A step, with its number, from one term to another. -/
def stepTaken (index : Nat) (before after : Term) : Report where
  level := .trace
  source := "eval::normalize"
  fields := [("step", toString index), ("from", before.display), ("to", after.display)]

def stepLimitExceeded (limit : Nat) (term : Term) : Report where
  level := .debug
  source := "eval::normalize"
  fields := [("message", "Step limit exceeded"), ("limit", toString limit), ("term", term.display)]

def normalFormReached (steps : Nat) (result : Term) : Report where
  level := .debug
  source := "eval::normalize"
  fields := [("message", "Normal form reached"), ("steps", toString steps),
    ("result", result.display)]

/-! ## Settings -/

def settingsLoaded (path : String) (settings : Settings) : Report where
  level := .debug
  source := "config"
  fields := [("message", "Loaded engine config"), ("path", path), ("config", settings.inspect)]

end Report

/-- **Every event of the engine has its report**, and what is observed of a caller's
rules has none. -/
@[simp] theorem Event.report?_eq (event : Event) : event.report? = match event with
    | .matching pattern value bound => some (.matching pattern value bound)
    | .tested pattern term matched => some (.tested pattern term matched)
    | .fixpointReached round => some (.fixpointReached round)
    | .tryingRule set index term => some (.tryingRule set index term)
    | .ruleMatched set index term => some (.ruleMatched set index term)
    | .noRuleMatched set term => some (.noRuleMatched set term)
    | .stepTaken index before after => some (.stepTaken index before after)
    | .stepLimitExceeded limit term => some (.stepLimitExceeded limit term)
    | .normalFormReached steps result => some (.normalFormReached steps result)
    | .settingsLoaded path settings => some (.settingsLoaded path settings)
    | .predicateRan .. | .applicationRan .. => none := by
  cases event <;> rfl

end TermRules

/-
TermRules.Trace.Event — what a run reports about itself.

An event keeps the terms it is about and is put into words only when someone
reads it: `report?` for the events of the engine, `remark?` for those of the
rules a caller asked to be observed.
-/
import TermRules.Environment
import TermRules.Settings

namespace TermRules

inductive Level where
  | trace
  | debug
deriving DecidableEq

/-- Something that happened in a run. -/
inductive Event where
  /-- A pattern is about to be matched in an environment of that many entries. -/
  | matching (pattern value : Term) (bound : Nat)
  /-- A pattern test of a rule ended. -/
  | tested (pattern term : Term) (matched : Bool)
  /-- A round of repeated substitution found nothing to replace. -/
  | fixpointReached (round : Nat)
  | tryingRule (set : Option String) (index : Nat) (term : Term)
  | ruleMatched (set : Option String) (index : Nat) (term : Term)
  | noRuleMatched (set : Option String) (term : Term)
  | stepTaken (index : Nat) (before after : Term)
  | stepLimitExceeded (limit : Nat) (term : Term)
  | normalFormReached (steps : Nat) (result : Term)
  | settingsLoaded (path : String) (settings : Settings)
  /-- An observed predicate ran on a term, from that environment. -/
  | predicateRan (label : String) (term : Term) (env : Environment) (ok : Bool)
  /-- An observed application ran on a term in that environment. -/
  | applicationRan (label : String) (term : Term) (env : Environment)

/-- An event in words: how important it is, which part speaks, and its fields. -/
structure Report where
  level : Level
  source : String
  fields : List (String × String)

namespace Event

/-- The label of a rule set; one without a name has a stand-in. -/
def setLabel (name : Option String) : String := name.getD "<anonymous>"

/-- The report of an event of the engine. -/
def report? : Event → Option Report
  | .matching pattern value bound => some ⟨.trace, "eval::pattern",
      [("pattern", pattern.display), ("value", value.display), ("bound", toString bound)]⟩
  | .tested pattern term matched => some ⟨.trace, "eval::rules",
      [("pattern", pattern.display), ("term", term.display), ("matched", toString matched)]⟩
  | .fixpointReached round => some ⟨.trace, "eval::rewrite",
      [("message", "Fixpoint reached"), ("round", toString round)]⟩
  | .tryingRule set index term => some ⟨.trace, "eval::rule_set",
      [("message", "Trying rule"), ("rule_set", setLabel set), ("index", toString index),
        ("term", term.display)]⟩
  | .ruleMatched set index term => some ⟨.debug, "eval::rule_set",
      [("message", "Rule matched"), ("rule_set", setLabel set), ("index", toString index),
        ("term", term.display)]⟩
  | .noRuleMatched set term => some ⟨.trace, "eval::rule_set",
      [("message", "No rule matched"), ("rule_set", setLabel set), ("term", term.display)]⟩
  | .stepTaken index before after => some ⟨.trace, "eval::normalize",
      [("step", toString index), ("from", before.display), ("to", after.display)]⟩
  | .stepLimitExceeded limit term => some ⟨.debug, "eval::normalize",
      [("message", "Step limit exceeded"), ("limit", toString limit), ("term", term.display)]⟩
  | .normalFormReached steps result => some ⟨.debug, "eval::normalize",
      [("message", "Normal form reached"), ("steps", toString steps), ("result", result.display)]⟩
  | .settingsLoaded path settings => some ⟨.debug, "config",
      [("message", "Loaded engine config"), ("path", path), ("config", settings.inspect)]⟩
  | .predicateRan .. | .applicationRan .. => none

/-- The remark of an observed rule. -/
def remark? : Event → Option String
  | .predicateRan label term env ok => some
      ("test " ++ label ++ " " ++ term.display ++ " " ++ env.display ++ " " ++ toString ok)
  | .applicationRan label term env => some
      ("compute " ++ label ++ " " ++ term.display ++ " " ++ env.display)
  | _ => none

end Event

end TermRules

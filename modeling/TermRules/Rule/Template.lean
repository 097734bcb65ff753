/-
TermRules.Rule.Template — the applications that rules are built from, and the rules
that turn a pattern into a template.

What is computed may look at the term, at the bindings of the predicate, or at
neither. New nodes are built at the place that the application is handed.
-/
import TermRules.Rule.Predicate
import TermRules.Substitution

namespace TermRules

namespace Application

/-- The term itself. -/
def input : Application Term := ⟨fun _ t _ => pure t⟩

/-- The same result for every term. -/
def const {R : Type} (r : R) : Application R := ⟨fun _ _ _ => pure r⟩

/-- A template with its bound variables replaced. -/
def template (u : Term) : Application Term := ⟨fun o _ e => pure (u.substitute e o)⟩

/-- A template with bound variables replaced over and over, for a number of
rounds at most. -/
def fixpoint (u : Term) (rounds : Nat) : Application Term := ⟨fun o _ e => u.fixpoint e o rounds⟩

/-- The term bound to a variable. -/
def value? (v : Variable) : Application (Option Term) := ⟨fun _ _ e => pure (e.get? v)⟩

/-- The term bound to the first named variable of that name. -/
def valueNamed? (name : String) : Application (Option Term) :=
  ⟨fun _ _ e => pure (e.getNamed? name)⟩

/-- The number of bindings. -/
def bindingCount : Application Term := ⟨fun _ _ e => pure (.long (Int64.ofNat e.length))⟩

/-- The bindings as a sequence of pairs of a variable and its term. -/
def bindingList : Application Term :=
  ⟨fun o _ e => pure (.seq o (e.entries.mapIdx fun i entry =>
    .seq (o.sub i) [.var entry.1, entry.2]))⟩

/-- The term reduced by a set of rules, or kept. -/
def reduce (s : RuleSet Term) : Application Term := ⟨fun o t _ => s.reduce o t⟩

/-- The application under observation: each run is reported, as it starts, with
the environment it is given. -/
def observed {R : Type} (label : String) (c : Application R) : Application R :=
  ⟨fun o t e => do
    .emit (.applicationRan label t e)
    c.compute o t e⟩

end Application

/-! ## Rules of a pattern and a template -/

/-- Turns the terms that match `pattern` into `template`, under the bindings
of the match. -/
structure TemplateRule where
  pattern : Term
  template : Term

namespace TemplateRule

/-- The rule of a pattern and a template. -/
def toRule [OwnEquality] (a : Acceptance) (r : TemplateRule) : Rule Term :=
  .composite (.pattern a r.pattern) (.template r.template)

/-- The structure of a pattern test. -/
def inspectPattern (p : Term) : String := "PatternPredicate \x7b pattern: " ++ p.inspect ++ " \x7d"

def inspect (r : TemplateRule) : String :=
  "CompositeRule \x7b predicate: " ++ inspectPattern r.pattern ++
    ", application: Template \x7b term: " ++ r.template.inspect ++ " \x7d \x7d"

end TemplateRule

end TermRules

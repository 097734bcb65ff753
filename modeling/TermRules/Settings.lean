/-
TermRules.Settings — what a caller can configure about normalization.
-/

namespace TermRules

/-- Where the next position to reduce is looked for. -/
inductive Strategy where
  /-- The whole term first, then its elements from left to right. -/
  | outermost
  /-- The elements from left to right, then the whole term. -/
  | innermost
deriving DecidableEq, Inhabited

namespace Strategy

def inspect : Strategy → String
  | .outermost => "Outermost"
  | .innermost => "Innermost"

/-- The name of a strategy in a configuration. -/
def ofName? : String → Option Strategy
  | "outermost" => some .outermost
  | "innermost" => some .innermost
  | _ => none

end Strategy

/-- How many steps a normalization may take, and in which order it looks. -/
structure NormalizeSettings where
  maxSteps : Nat := 10000
  strategy : Strategy := .outermost
deriving DecidableEq

/-- All settings of the engine. -/
structure Settings where
  normalize : NormalizeSettings := {}
deriving DecidableEq

def Settings.inspect (s : Settings) : String :=
  "EngineConfig \x7b normalize: NormalizeConfig \x7b max_steps: " ++
    toString s.normalize.maxSteps ++ ", strategy: " ++ s.normalize.strategy.inspect ++ " \x7d \x7d"

end TermRules

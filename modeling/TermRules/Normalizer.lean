/-
TermRules.Normalizer — reducing a term until no rule applies anywhere in it.

A step finds the first position, in the order of the strategy, at which the
rules give a result, and puts the result there; the sequences around it are
built anew with their other elements kept. Normalization takes steps until
there is none to take. A step that would exceed the limit is looked for but not
taken: then the term before it comes back as an error.
-/
import TermRules.Rule.Basic
import TermRules.Settings

namespace TermRules

/-- Rules were still applicable after `limit` steps, which had led to `term`. -/
structure StepLimitExceeded where
  limit : Nat
  term : Term

def StepLimitExceeded.message (x : StepLimitExceeded) : String :=
  "no normal form within " ++ toString x.limit ++ " steps (last term: " ++ x.term.display ++ ")"

/-- A term in normal form and the number of steps that led to it. -/
structure NormalForm where
  term : Term
  steps : Nat

namespace Traced

/-- The first computation if it gives something, else the second. -/
def orElse {α : Type} (x : Traced (Option α)) (y : Unit → Traced (Option α)) :
    Traced (Option α) := do
  match ← x with
  | some a => return some a
  | none => y ()

end Traced

namespace Strategy

mutual
/-- Reduces the first position of a term at which `f` gives a result. -/
def reduceFirst (s : Strategy) (f : Origin → Term → Traced (Option Term)) :
    Origin → Term → Traced (Option Term)
  | o, .seq o' items =>
    match s with
    | .outermost => (f o (.seq o' items)).orElse fun _ =>
      Option.map (.seq o) <$> reduceElement s f o 0 items
    | .innermost => (Option.map (.seq o) <$> reduceElement s f o 0 items).orElse fun _ =>
      f o (.seq o' items)
  | o, t => f o t

/-- Reduces inside the first element, from the `i`-th on, in which `f` gives a
result somewhere. -/
def reduceElement (s : Strategy) (f : Origin → Term → Traced (Option Term)) (o : Origin)
    (i : Nat) : List Term → Traced (Option (List Term))
  | [] => pure none
  | t :: ts => do
    match ← reduceFirst s f (o.sub i) t with
    | some t' => return some (t' :: ts)
    | none => Option.map (t :: ·) <$> reduceElement s f o (i + 1) ts
end

end Strategy

/-- Rules with the settings under which they are driven. -/
structure Normalizer where
  rules : RuleSet Term
  settings : NormalizeSettings

namespace Normalizer

/-- One step, if any position can be reduced. -/
def step? (n : Normalizer) (o : Origin) (t : Term) : Traced (Option Term) :=
  n.settings.strategy.reduceFirst (fun o t => n.rules.result? o t) o t

/-- Takes up to `left` more steps after the `taken` ones that led to the term.
The first of them builds its nodes in one part of the place, and all others
build theirs in another. -/
def run (n : Normalizer) :
    (o : Origin) → (left taken : Nat) → Term → Traced (Except StepLimitExceeded NormalForm)
  | o, left, taken, t => do
    match ← n.step? (o.sub 0) t with
    | none =>
      .emit (.normalFormReached taken t)
      return .ok ⟨t, taken⟩
    | some t' =>
      match left with
      | 0 =>
        .emit (.stepLimitExceeded n.settings.maxSteps t)
        return .error ⟨n.settings.maxSteps, t⟩
      | left + 1 =>
        .emit (.stepTaken taken t t')
        n.run (o.sub 1) left (taken + 1) t'
termination_by structural _ left => left

/-- Reduces a term to its normal form, within the limit on steps. -/
def normalize (n : Normalizer) (o : Origin) (t : Term) :
    Traced (Except StepLimitExceeded NormalForm) :=
  n.run o n.settings.maxSteps 0 t

/-- The terms of up to `k` more steps, each taken from the term before it,
after the `taken` ones that led to the term. -/
def walk (n : Normalizer) (o : Origin) (taken : Nat) : (k : Nat) → Term → Traced (List Term)
  | 0, _ => pure []
  | k + 1, t => do
    match ← n.step? (o.sub taken) t with
    | none => return []
    | some t' => return t' :: (← n.walk o (taken + 1) k t')

end Normalizer

end TermRules

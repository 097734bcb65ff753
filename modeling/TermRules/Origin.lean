/-
TermRules.Origin — where in a computation a node was built.

Nodes are values here, so "the same node" needs a name: each sequence and each
grounded atom carries the origin at which it was built. A computation that
builds several nodes is handed one origin and splits it with `sub`, one part
for each of its own parts, so two nodes share an origin only if one of them is
a copy of the other.
-/

namespace TermRules

/-- A place in a computation: the choices that lead to it, latest first. -/
structure Origin where
  path : List Nat
deriving DecidableEq, Inhabited

namespace Origin

/-- The `i`-th part of a place. -/
def sub (o : Origin) (i : Nat) : Origin := ⟨i :: o.path⟩

/-- The part of a place that a path of choices leads to. -/
def down : Origin → List Nat → Origin
  | o, [] => o
  | o, i :: path => (o.sub i).down path

/-- Whether the second place is the first one or a part of it, at whatever depth. -/
def Covers (o p : Origin) : Prop := ∃ path, o.down path = p

theorem path_down (o : Origin) (path : List Nat) : (o.down path).path = path.reverse ++ o.path := by
  induction path generalizing o with
  | nil => rfl
  | cons i path ih => rw [down, ih, sub, List.reverse_cons, List.append_assoc]; rfl

theorem covers_iff_suffix {o p : Origin} : o.Covers p ↔ o.path <:+ p.path := by
  refine ⟨?_, ?_⟩
  · rintro ⟨path, rfl⟩
    exact ⟨path.reverse, (path_down o path).symm⟩
  · rintro ⟨front, hfront⟩
    refine ⟨front.reverse, ?_⟩
    have hpath : (o.down front.reverse).path = p.path := by
      rw [path_down, List.reverse_reverse, hfront]
    cases p
    exact congrArg Origin.mk hpath

instance (o p : Origin) : Decidable (o.Covers p) := decidable_of_iff _ covers_iff_suffix.symm

end Origin

end TermRules

/-
TermRules.Environment — what variables are bound to, and rolling that back.

An environment is a list of entries in the order in which they were made. A
variable is bound once: binding it again only compares. A snapshot is a copy of
the entries; restoring it keeps the live entries, cut to the snapshot's length,
when they still begin with the captured variables bound to shared terms, and
puts the captured entries back otherwise. Main statements: `get?_push`, and
`restore_snapshot_of_append`.
-/
import TermRules.Term.Display
import TermRules.Term.Equality

namespace TermRules

/-- An environment: variables with the terms they are bound to, oldest first. -/
structure Environment where
  entries : List (Variable × Term)

/-- A captured environment. -/
structure Snapshot where
  entries : List (Variable × Term)

/-- Whether a test succeeded, and the environment it leaves, which on failure
may hold what was bound before the failure showed. -/
structure Attempt where
  ok : Bool
  env : Environment

namespace Environment

def empty : Environment := ⟨[]⟩

instance : EmptyCollection Environment := ⟨empty⟩

def length (e : Environment) : Nat := e.entries.length

def isEmpty (e : Environment) : Bool := e.entries.isEmpty

/-- The term bound to a variable. -/
def get? (e : Environment) (v : Variable) : Option Term :=
  (e.entries.find? fun entry => entry.1 == v).map (·.2)

/-- The term bound to the first named variable of that name. -/
def getNamed? (e : Environment) (name : String) : Option Term :=
  (e.entries.find? fun entry => entry.1.name? = some name).map (·.2)

def contains (e : Environment) (v : Variable) : Bool := (e.get? v).isSome

/-- The environment with one more entry at its end. -/
def push (e : Environment) (v : Variable) (t : Term) : Environment := ⟨e.entries ++ [(v, t)]⟩

/-- Binds a variable. One that is bound already keeps its term, and the attempt
succeeds only if that term equals the new one. -/
def bind [OwnEquality] (e : Environment) (v : Variable) (t : Term) : Attempt :=
  match e.get? v with
  | some bound => ⟨bound == t, e⟩
  | none => ⟨true, e.push v t⟩

/-- Binds in order and stops at the first failure. -/
def bindAll [OwnEquality] (e : Environment) : List (Variable × Term) → Attempt
  | [] => ⟨true, e⟩
  | (v, t) :: rest =>
    let attempt := e.bind v t
    if attempt.ok then attempt.env.bindAll rest else attempt

@[simp] theorem get?_empty (v : Variable) : empty.get? v = none := rfl

/-- Variables of one identity are bound to the same term. -/
theorem get?_congr (e : Environment) {v w : Variable} (h : v.id = w.id) :
    e.get? v = e.get? w := by
  simp [get?, Variable.beq_def, h]

/-- Pushing an unbound variable binds it and leaves all others as they were. -/
theorem get?_push {e : Environment} {v : Variable} (h : e.get? v = none) (t : Term) (w : Variable) :
    (e.push v t).get? w = if v.id = w.id then some t else e.get? w := by
  simp only [get?, push, List.find?_append, List.find?_singleton, Variable.beq_iff]
  simp only [get?, Option.map_eq_none_iff, List.find?_eq_none, Variable.beq_iff] at h
  split
  · rename_i hvw
    have hnone : e.entries.find? (fun entry => entry.1 == w) = none := by
      simp only [List.find?_eq_none, Variable.beq_iff]
      intro entry hentry hid
      exact h entry hentry (hid.trans hvw.symm)
    simp [hnone]
  · simp

theorem contains_push {e : Environment} {v : Variable} (h : e.get? v = none) (t : Term)
    (w : Variable) :
    (e.push v t).contains w = true ↔ e.contains w = true ∨ v.id = w.id := by
  rw [contains, get?_push h, contains]
  split <;> simp_all

/-! ## Comparison -/

/-- The same variables in the same order, bound to equal terms. -/
def sameEntries [OwnEquality] : List (Variable × Term) → List (Variable × Term) → Bool
  | [], [] => true
  | (v, t) :: es, (w, u) :: fs => v == w && t == u && sameEntries es fs
  | _, _ => false

instance [OwnEquality] : BEq Environment := ⟨fun e f => sameEntries e.entries f.entries⟩

/-! ## Rollback -/

def snapshot (e : Environment) : Snapshot := ⟨e.entries⟩

/-- Whether the live entries begin with the captured variables, each bound to a
shared term. -/
def startsWith : (live captured : List (Variable × Term)) → Bool
  | _, [] => true
  | [], _ :: _ => false
  | (v, t) :: live, (w, u) :: captured =>
    v == w && t.sharedWith u && startsWith live captured

/-- Rolls back to a snapshot. -/
def restore (e : Environment) (s : Snapshot) : Environment :=
  if startsWith e.entries s.entries then ⟨e.entries.take s.entries.length⟩ else ⟨s.entries⟩

/-- Rolling back what was only appended gives back the captured environment,
whatever its terms are. -/
theorem restore_snapshot_of_append (e : Environment) (more : List (Variable × Term)) :
    restore ⟨e.entries ++ more⟩ e.snapshot = e := by
  simp [restore, snapshot]

/-! ## Text -/

def display (e : Environment) : String :=
  "\x7b" ++ ", ".intercalate (e.entries.map fun entry =>
    entry.1.display ++ " = " ++ entry.2.display) ++ "\x7d"

/-- The structure of a list of entries under the name of what holds it. -/
def inspectEntries (holder : String) (entries : List (Variable × Term)) : String :=
  holder ++ " \x7b entries: " ++ bracketed (entries.map fun entry =>
    "(" ++ entry.1.inspect ++ ", " ++ entry.2.inspect ++ ")") ++ " \x7d"

def inspect (e : Environment) : String := inspectEntries "Bindings" e.entries

end Environment

namespace Snapshot

def length (s : Snapshot) : Nat := s.entries.length

def isEmpty (s : Snapshot) : Bool := s.entries.isEmpty

instance [OwnEquality] : BEq Snapshot := ⟨fun s t => Environment.sameEntries s.entries t.entries⟩

def inspect (s : Snapshot) : String := Environment.inspectEntries "Snapshot" s.entries

end Snapshot

end TermRules

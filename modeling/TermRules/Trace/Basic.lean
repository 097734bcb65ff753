/-
TermRules.Trace.Basic — computations that report what happens in them.

A `Trace` is a list of events whose concatenation takes constant time: it is
kept as the function that puts the events in front of others. `toList` is its
content and determines it (`toList_inj`). `Traced` is a value with the trace of
the computation that made it; running one computation after another
concatenates their traces (`events_bind`), and with them what is read of them, the
reports (`reports_bind`).
-/
import TermRules.Trace.Event

namespace TermRules

/-- A list of events, as the function that puts them in front of others. -/
structure Trace where
  onto : List Event → List Event
  onto_eq : ∀ es, onto es = onto [] ++ es

namespace Trace

/-- The events, oldest first. -/
def toList (t : Trace) : List Event := t.onto []

def empty : Trace := ⟨fun es => es, fun _ => rfl⟩

def single (e : Event) : Trace := ⟨fun es => e :: es, fun _ => rfl⟩

instance : Append Trace where
  append t u := ⟨fun es => t.onto (u.onto es), fun es => by
    rw [t.onto_eq (u.onto es), t.onto_eq (u.onto []), u.onto_eq es, List.append_assoc]⟩

@[simp] theorem toList_empty : empty.toList = [] := rfl

@[simp] theorem toList_single (e : Event) : (single e).toList = [e] := rfl

@[simp] theorem toList_append (t u : Trace) : (t ++ u).toList = t.toList ++ u.toList :=
  t.onto_eq (u.onto [])

theorem toList_inj {t u : Trace} : t.toList = u.toList ↔ t = u := by
  refine ⟨fun h => ?_, fun h => h ▸ rfl⟩
  obtain ⟨f, hf⟩ := t
  obtain ⟨g, hg⟩ := u
  have : f = g := funext fun es => by rw [hf, hg]; exact congrArg (· ++ es) h
  subst this
  rfl

end Trace

/-- A value and the trace of the computation that made it. -/
structure Traced (α : Type) where
  value : α
  trace : Trace

namespace Traced

variable {α β : Type}

/-- The events of a computation, oldest first. -/
def events (x : Traced α) : List Event := x.trace.toList

/-- What the engine reports of a computation, oldest first. -/
def reports (x : Traced α) : List Report := x.events.filterMap Event.report?

instance : Monad Traced where
  pure a := ⟨a, .empty⟩
  bind x f :=
    let y := f x.value
    ⟨y.value, x.trace ++ y.trace⟩

/-- Reports one event. -/
def emit (e : Event) : Traced Unit := ⟨(), .single e⟩

/-- Two computations are the same when their values and their events are. -/
@[ext] theorem ext {x y : Traced α} (hv : x.value = y.value) (he : x.events = y.events) :
    x = y := by
  obtain ⟨_, t⟩ := x
  obtain ⟨_, u⟩ := y
  obtain rfl : t = u := Trace.toList_inj.1 he
  cases hv
  rfl

@[simp] theorem value_pure (a : α) : (pure a : Traced α).value = a := rfl

@[simp] theorem events_pure (a : α) : (pure a : Traced α).events = [] := rfl

@[simp] theorem value_bind (x : Traced α) (f : α → Traced β) :
    (x >>= f).value = (f x.value).value := rfl

@[simp] theorem events_bind (x : Traced α) (f : α → Traced β) :
    (x >>= f).events = x.events ++ (f x.value).events :=
  Trace.toList_append _ _

@[simp] theorem value_map (f : α → β) (x : Traced α) : (f <$> x).value = f x.value := rfl

@[simp] theorem events_map (f : α → β) (x : Traced α) : (f <$> x).events = x.events := by
  simp [Functor.map, events]

@[simp] theorem value_emit (e : Event) : (emit e).value = () := rfl

@[simp] theorem events_emit (e : Event) : (emit e).events = [e] := rfl

@[simp] theorem reports_pure (a : α) : (pure a : Traced α).reports = [] := rfl

@[simp] theorem reports_bind (x : Traced α) (f : α → Traced β) :
    (x >>= f).reports = x.reports ++ (f x.value).reports := by
  rw [reports, events_bind, List.filterMap_append, reports, reports]

@[simp] theorem reports_map (f : α → β) (x : Traced α) : (f <$> x).reports = x.reports := by
  rw [reports, events_map, reports]

@[simp] theorem reports_emit (e : Event) : (emit e).reports = e.report?.toList := by
  rw [reports, events_emit]
  cases h : e.report? <;> simp [h]

instance : LawfulMonad Traced := LawfulMonad.mk' Traced
  (fun _ => ext rfl (by simp [Functor.map, events]))
  (fun _ _ => ext rfl (by simp))
  (fun _ _ _ => ext rfl (by simp))

end Traced

end TermRules

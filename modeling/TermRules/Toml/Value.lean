/-
TermRules.Toml.Value — the values and tables of a TOML document, and where in
the text they stand.

Nothing is said twice in a table. A dotted key creates the tables on its way and may
only pass through tables that such keys created, not through those that have a header
or braces of their own. A header passes through any table, and through the last of an
array of tables. A table created on the way has no span of its own.
-/
import TermRules.Binary64
import TermRules.Toml.Cursor

namespace TermRules.Toml

/-- A key as the document spells it. -/
structure Key where
  name : String
  span : Span

/-- A value without parts. Dates and times count by their kind alone. -/
inductive Scalar where
  | string (s : String)
  | integer (n : Int)
  | float (x : Binary64)
  | boolean (b : Bool)
  | datetime

/-- How a table came about, which decides who may still add to it. -/
structure TableKind where
  /-- No header names the table and no braces enclose it. -/
  implicit : Bool
  /-- A dotted key created the table. -/
  dotted : Bool
  /-- The table is written in braces, or inside of one that is. -/
  inline : Bool
deriving DecidableEq

/-- What a key can hold. -/
inductive Item where
  | scalar (span : Span) (value : Scalar)
  | array (span : Span) (items : List Item)
  /-- A table; one that only dotted keys or longer headers name has no span. -/
  | table (kind : TableKind) (span : Option Span) (entries : List (Key × Item))
  /-- The tables of `[[…]]` headers of one name, each with its entries. -/
  | tables (span : Option Span) (items : List Item)

/-- The text that an item stands for, if it has one of its own. -/
def Item.span? : Item → Option Span
  | .scalar span _ | .array span _ => some span
  | .table _ span _ | .tables span _ => span

/-! ## Tables under construction -/

namespace TableKind

/-- The kind of a table with a header of its own. -/
def headed : TableKind := ⟨false, false, false⟩

/-- The kind of a table in braces. -/
def braces : TableKind := ⟨false, false, true⟩

end TableKind

/-- A table under construction. -/
structure Table where
  kind : TableKind
  span : Option Span
  entries : List (Key × Item)

namespace Table

/-- A table in braces, with nothing in it so far. -/
def openBraces : Table := ⟨.braces, none, []⟩

def toItem (t : Table) : Item := .table t.kind t.span t.entries

def find? (t : Table) (name : String) : Option Item :=
  (t.entries.find? fun entry => entry.1.name = name).map (·.2)

/-- Puts an item in the place of the one under its key, or at the end. -/
def put (t : Table) (key : Key) (item : Item) : Table :=
  if (t.find? key.name).isSome then
    { t with entries := t.entries.map fun entry =>
        if entry.1.name = key.name then (entry.1, item) else entry }
  else { t with entries := t.entries ++ [(key, item)] }

def remove (t : Table) (name : String) : Table :=
  { t with entries := t.entries.filter fun entry => entry.1.name != name }

/-- Edits the table at the end of a path, creating the tables on the way. The
path is that of a dotted key or of a header, in a document or in braces. -/
def descend {α : Type} (dotted inline : Bool) (edit : StateT Table Option α) :
    List Key → StateT Table Option α
  | [] => edit
  | key :: path => fun t =>
    let into (child : Table) (back : Item → Item) := do
      let (a, child) ← descend dotted inline edit path child
      return (a, t.put key (back child.toItem))
    match t.find? key.name with
    | none => into ⟨⟨true, dotted, inline⟩, none, []⟩ id
    | some (.table kind span entries) =>
      if kind.inline = inline ∧ (dotted → kind.implicit) then into ⟨kind, span, entries⟩ id
      else none
    | some (.tables span items) =>
      match items.getLast? with
      | some (.table kind lastSpan entries) =>
        into ⟨kind, lastSpan, entries⟩ fun child => .tables span (items.dropLast ++ [child])
      | _ => none
    | some _ => none

/-- Adds a value under a dotted key: the path to the table and the key in it.
A table made by dotted keys takes only entries of such keys, and no other table
takes them directly. -/
def addEntry (inline : Bool) (path : List Key) (key : Key) (item : Item) :
    StateT Table Option Unit :=
  descend true inline (fun t =>
    if t.kind.dotted = path.isEmpty ∨ (t.find? key.name).isSome then none
    else some ((), t.put key item)) path

end Table

end TermRules.Toml

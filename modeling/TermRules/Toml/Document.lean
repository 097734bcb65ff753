/-
TermRules.Toml.Document — a document as one table.

Entries go to the table that the last header opened. When the next header
comes, that table is put where its own header says. A header in single brackets
may reopen a table that so far was only passed through; one in double brackets
adds to an array of tables. The span of a table with a header reaches from the
header to the end of its last value.
-/
import TermRules.Toml.Line

namespace TermRules.Toml

/-- Where a table belongs: under a key of the table at the end of a path. -/
structure Home where
  path : List Key
  key : Key
  /-- Whether the key holds an array of tables. -/
  isArray : Bool

/-- A document that is read up to some line. -/
structure Draft where
  /-- The tables that are complete. -/
  root : Table
  /-- The table that entries go to. -/
  current : Table
  /-- Where the current table belongs, unless it is the root itself. -/
  home : Option Home

namespace Draft

/-- Nothing read so far. -/
def start : Draft :=
  let root : Table := ⟨.headed, none, []⟩
  ⟨root, root, none⟩

/-- The text from the first to the last of some tables. -/
def spanOver (items : List Item) : Option Span := do
  let first ← (← items.head?).span?
  let last ← (← items.getLast?).span?
  return ⟨first.start, last.stop⟩

/-- The current table put under its key, which has to be new or, for an array
of tables, hold one. -/
def place (current : Table) (key : Key) (isArray : Bool) : StateT Table Option Unit := fun parent =>
  match parent.find? key.name with
  | none => some ((), parent.put key
      (if isArray then .tables current.span [current.toItem] else current.toItem))
  | some (.tables _ items) =>
    let items := items ++ [current.toItem]
    if isArray then some ((), parent.put key (.tables (spanOver items) items)) else none
  | some _ => none

/-- The root with the current table put where it belongs. -/
def settle (d : Draft) : Option Table :=
  match d.home with
  | none => some d.current
  | some home => (·.2) <$> Table.descend false false (place d.current home.key home.isArray)
      home.path d.root

/-- Adds an entry to the current table, which then reaches to its end. -/
def addEntry (d : Draft) (path : List Key) (key : Key) (item : Item) : Option Draft := do
  let span := match d.current.span, item.span? with
    | some whole, some added => some ⟨whole.start, added.stop⟩
    | whole, _ => whole
  let (_, current) ← Table.addEntry false path key item { d.current with span }
  return { d with current }

/-- Takes what is under a key that a header names: nothing, or a table that was
only passed through, whose entries stay. -/
def reopen (key : Key) : StateT Table Option (List (Key × Item)) := fun parent =>
  match parent.find? key.name with
  | none => some ([], parent)
  | some (.table kind _ entries) =>
    if kind.implicit && !kind.dotted && !kind.inline then some (entries, parent.remove key.name)
    else none
  | some _ => none

/-- Checks that a key may hold one more table of an array. -/
def checkArray (key : Key) : StateT Table Option Unit := fun parent =>
  match parent.find? key.name with
  | none | some (.tables _ _) => some ((), parent)
  | some _ => none

/-- Opens the table of a header in single brackets. -/
def openTable (d : Draft) (path : List Key) (key : Key) (span : Span) : Option Draft := do
  let (entries, root) ← Table.descend false false (reopen key) path (← d.settle)
  return ⟨root, ⟨.headed, some span, entries⟩, some ⟨path, key, false⟩⟩

/-- Opens a new table of a header in double brackets. -/
def openArrayTable (d : Draft) (path : List Key) (key : Key) (span : Span) : Option Draft := do
  let (_, root) ← Table.descend false false (checkArray key) path (← d.settle)
  return ⟨root, ⟨.headed, some span, []⟩, some ⟨path, key, true⟩⟩

/-- Takes in one more line. -/
def add (d : Draft) : Line → Option Draft
  | .entry path key item => d.addEntry path key item
  | .header path key span => d.openTable path key span
  | .arrayHeader path key span => d.openArrayTable path key span

end Draft

/-- The table of a whole document; nothing if the text is no document. -/
def document? (text : String) : Option Table := do
  let lines ← Line.lines.run? text
  let draft ← lines.foldlM Draft.add Draft.start
  draft.settle

end TermRules.Toml

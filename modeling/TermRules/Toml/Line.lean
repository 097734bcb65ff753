/-
TermRules.Toml.Line — the lines of a document: headers and keys with values.

Arrays may spread over lines and end in a comma, tables in braces may not.
Either kind nests to a depth below eighty. The tables in braces are put
together here, those of headers in `Toml.Document`.
-/
import TermRules.Toml.Datetime
import TermRules.Toml.Number
import TermRules.Toml.Text

namespace TermRules.Toml

open Reader

/-- A line that says something. -/
inductive Line where
  /-- A value under a dotted key; the path is all of the key but its last part. -/
  | entry (path : List Key) (key : Key) (item : Item)
  /-- A header in single brackets. -/
  | header (path : List Key) (key : Key) (span : Span)
  /-- A header in double brackets. -/
  | arrayHeader (path : List Key) (key : Key) (span : Span)

namespace Line

/-- A dotted key as the path to its last part. -/
def splitKey (keys : List Key) : Reader (List Key × Key) :=
  match keys.getLast? with
  | some key => return (keys.dropLast, key)
  | none => failure

def boolean : Reader Bool :=
  (text "true".toList *> return true) <|> (text "false".toList *> return false)

def scalar : Reader Scalar :=
  .string <$> Text.string <|> .boolean <$> boolean <|>
    (Datetime.datetime *> return .datetime) <|> .float <$> Number.float <|>
    .integer <$> Number.integer

/-- A key with its value, in a line or in braces. -/
def keyed (value : Reader Item) : Reader (List Key × Key × Item) := do
  let (path, key) ← splitKey (← Text.dottedKey)
  text ['=']
  Text.blanks
  return (path, key, ← value)

def array (value : Reader Item) : Reader (List Item) := do
  text ['[']
  let items ← optional? (separated (Text.gaps *> value <* Text.gaps) (text [',']))
  if items.isSome then
    let _ ← optional? (text [','])
  Text.gaps
  text [']']
  return items.getD []

/-- A table in braces, put together from its keys and values. -/
def inlineTable (value : Reader Item) : Reader (List (Key × Item)) := do
  text ['\x7b']
  let entries ← optional? (separated (keyed value <* Text.blanks) (text [',']))
  Text.blanks
  text ['\x7d']
  let add := (entries.getD []).forM fun (path, key, item) => Table.addEntry true path key item
  match add Table.openBraces with
  | some (_, table) => return table.entries
  | none => failure

/-- A value with up to `depth` arrays and tables around its innermost parts. -/
def value : (depth : Nat) → Reader Item
  | 0 => (fun (span, s) => .scalar span s) <$> spanned scalar
  | depth + 1 =>
    (fun (span, items) => .array span items) <$> spanned (array (value depth)) <|>
    (fun (span, entries) => .table .braces (some span) entries) <$>
      spanned (inlineTable (value depth)) <|>
    (fun (span, s) => .scalar span s) <$> spanned scalar

def entryLine : Reader Line := do
  let (path, key, item) ← keyed (value 79)
  return .entry path key item

def headerLine : Reader Line := do
  let (span, keys) ← spanned (text ['['] *> Text.dottedKey <* text [']'])
  let (path, key) ← splitKey keys
  return .header path key span

def arrayHeaderLine : Reader Line := do
  let (span, keys) ← spanned (text ['[', '['] *> Text.dottedKey <* text [']', ']'])
  let (path, key) ← splitKey keys
  return .arrayHeader path key span

/-- A line, which may say nothing. -/
def line : Reader (Option Line) :=
  Text.blanks *> optional? (arrayHeaderLine <|> headerLine <|> entryLine) <* Text.lineEnd

/-- All lines of a document, after a byte order mark if there is one. -/
def lines : Reader (List Line) := do
  let _ ← optional? (text ['\ufeff'])
  return (← many line).filterMap id

end Line

end TermRules.Toml

/-
TermRules.Toml.Text — blanks, comments, strings and keys of a document.

A basic string knows escapes, a literal one does not. Either kind may span
lines between tripled quotes: then a line break right after the opening is
dropped, every line break counts as a line feed, and up to two quotes may stand
before the closing three. In a basic string of several lines a backslash at the
end of a line drops all blanks up to the next character.
-/
import TermRules.Toml.Value

namespace TermRules.Toml

open Reader

namespace Text

/-! ## Blanks and comments -/

def isBlank (c : Char) : Bool := c = ' ' || c = '\t'

def blanks : Reader Unit := do
  let _ ← chars isBlank

/-- A line feed, with or without a carriage return before it. -/
def lineBreak : Reader Unit := text ['\n'] <|> text ['\r', '\n']

/-- Characters of a comment: no control but the tab. -/
def isPlain (c : Char) : Bool := c = '\t' || (' ' ≤ c && c != '\x7f')

def comment : Reader Unit := do
  text ['#']
  let _ ← chars isPlain

/-- The end of a line, after blanks and a comment. -/
def lineEnd : Reader Unit := do
  blanks
  let _ ← optional? comment
  lineBreak <|> atEnd

/-- Blanks, line breaks and comments, as they may stand inside an array. -/
def gaps : Reader Unit := do
  let _ ← many ((do let _ ← chars1 isBlank) <|> lineBreak <|> (comment *> (lineBreak <|> atEnd)))

/-! ## Strings -/

/-- The character whose code point has so many hexadecimal digits. -/
def codePoint (count : Nat) : Reader Char := do
  let digits ← (List.replicate count ()).mapM fun _ => char Digit.isHexadecimal
  let n := Digit.valueOf 16 digits
  if n.isValidChar then return .ofNat n else failure

/-- The character of an escape. -/
def escape : Reader Char := do
  text ['\\']
  match ← char fun _ => true with
  | 'b' => return '\x08'
  | 't' => return '\t'
  | 'n' => return '\n'
  | 'f' => return '\x0c'
  | 'r' => return '\r'
  | '"' => return '"'
  | '\\' => return '\\'
  | 'u' => codePoint 4
  | 'U' => codePoint 8
  | _ => failure

/-- A character that stands for itself in a basic string. -/
def isBasic (c : Char) : Bool := isPlain c && c != '"' && c != '\\'

/-- A character that stands for itself in a literal string. -/
def isLiteral (c : Char) : Bool := isPlain c && c != '\''

def basic : Reader String := do
  text ['"']
  let content ← many (char isBasic <|> escape)
  text ['"']
  return .ofList content

def literal : Reader String := do
  text ['\'']
  let content ← chars isLiteral
  text ['\'']
  return .ofList content

/-- A backslash at the end of a line, with the blanks it drops. -/
def lineContinuation : Reader Unit := do
  text ['\\']
  blanks
  lineBreak
  let _ ← many ((do let _ ← chars1 isBlank) <|> lineBreak)

/-- One or two quotes inside a string of several lines. -/
def innerQuotes (quote : Char) : Reader (List Char) := do
  let quotes ← chars1 (· = quote)
  if quotes.length < 3 then return quotes else failure

/-- The closing quotes of a string of several lines; those in excess belong to
the string. -/
def closingQuotes (quote : Char) : Reader (List Char) := do
  let quotes ← chars1 (· = quote)
  if 3 ≤ quotes.length ∧ quotes.length ≤ 5 then return quotes.drop 3 else failure

/-- A string of several lines out of pieces. -/
def multiline (quote : Char) (piece : Reader (List Char)) : Reader String := do
  text [quote, quote, quote]
  let _ ← optional? lineBreak
  let content ← many ((lineBreak *> return ['\n']) <|> innerQuotes quote <|> piece)
  let excess ← closingQuotes quote
  return .ofList (content.flatten ++ excess)

def multilineBasic : Reader String :=
  multiline '"' (chars1 isBasic <|> (lineContinuation *> return []) <|> ((fun c => [c]) <$> escape))

def multilineLiteral : Reader String := multiline '\'' (chars1 isLiteral)

/-- Any string; three quotes open one of several lines. -/
def string : Reader String := multilineBasic <|> basic <|> multilineLiteral <|> literal

/-! ## Keys -/

def isBareKey (c : Char) : Bool := c.isAlphanum || c = '_' || c = '-'

/-- A single key: bare, or a string on one line. -/
def simpleKey : Reader Key := do
  let (span, name) ← spanned (basic <|> literal <|> String.ofList <$> chars1 isBareKey)
  return ⟨name, span⟩

/-- Keys joined by dots, with blanks around each; fewer than eighty of them. -/
def dottedKey : Reader (List Key) := do
  let keys ← separated (blanks *> simpleKey <* blanks) (text ['.'])
  if keys.length < 80 then return keys else failure

end Text

end TermRules.Toml

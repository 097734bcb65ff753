/-
TermRules.Toml.Cursor — reading a text from left to right.

A reader takes a cursor, which knows how many bytes lie behind it, to a value
and the cursor after it, or fails. Choices go back to where they started. What
counts as a digit depends on the base, and `Digit.valueOf` is the value of a numeral
in any of them.
-/

namespace TermRules.Toml

/-- The bytes from `start` up to `stop`, which is outside. -/
structure Span where
  start : Nat
  stop : Nat
deriving DecidableEq, Inhabited

/-- A position in a text, counted in bytes, and the text from there on. -/
structure Cursor where
  position : Nat
  rest : List Char

/-- A way to read a value at a cursor. -/
abbrev Reader (α : Type) := StateT Cursor Option α

namespace Reader

variable {α β : Type}

/-- The next character, without taking it. -/
def peek? : Reader (Option Char) := fun c => some (c.rest.head?, c)

/-- A character of a class. -/
def char (p : Char → Bool) : Reader Char := fun c =>
  match c.rest with
  | [] => none
  | x :: rest => if p x then some (x, ⟨c.position + x.utf8Size, rest⟩) else none

/-- All characters of a class that come next. -/
def chars (p : Char → Bool) : Reader (List Char) := fun c =>
  let taken := c.rest.takeWhile p
  some (taken, ⟨taken.foldl (· + ·.utf8Size) c.position, c.rest.dropWhile p⟩)

/-- At least one character of a class. -/
def chars1 (p : Char → Bool) : Reader (List Char) := do
  return (← char p) :: (← chars p)

/-- Exactly this text. -/
def text : List Char → Reader Unit
  | [] => pure ()
  | x :: xs => do
    let _ ← char (· = x)
    text xs

/-- Nothing is left. -/
def atEnd : Reader Unit := fun c => if c.rest.isEmpty then some ((), c) else none

def optional? (r : Reader α) : Reader (Option α) := (some <$> r) <|> pure none

/-- As many as there are, stopping also when one takes no text. -/
def manyFrom (r : Reader α) (c : Cursor) : List α × Cursor :=
  match r c with
  | none => ([], c)
  | some (a, c') =>
    if c'.rest.length < c.rest.length then
      let (as, c'') := manyFrom r c'
      (a :: as, c'')
    else ([a], c')
termination_by c.rest.length

def many (r : Reader α) : Reader (List α) := fun c => some (manyFrom r c)

/-- One or more, with separators between them. -/
def separated (r : Reader α) (separator : Reader β) : Reader (List α) := do
  return (← r) :: (← many (separator *> r))

/-- A value with the bytes it was read from. -/
def spanned (r : Reader α) : Reader (Span × α) := fun c => do
  let (a, c') ← r c
  return ((⟨c.position, c'.position⟩, a), c')

/-- The value of a whole text. -/
def run? (r : Reader α) (text : String) : Option α :=
  (·.1) <$> (r <* atEnd) ⟨0, text.toList⟩

end Reader

/-! ## Digits of the bases that numbers are written in -/

namespace Digit

def isHexadecimal (c : Char) : Bool :=
  c.isDigit || ('a' ≤ c && c ≤ 'f') || ('A' ≤ c && c ≤ 'F')

def isOctal (c : Char) : Bool := '0' ≤ c && c ≤ '7'

def isBinary (c : Char) : Bool := c = '0' || c = '1'

/-- The value of a digit in the bases up to sixteen. -/
def value (c : Char) : Nat :=
  if c.isDigit then c.toNat - '0'.toNat
  else if c.isLower then c.toNat - 'a'.toNat + 10
  else c.toNat - 'A'.toNat + 10

/-- The value of a numeral. -/
def valueOf (base : Nat) (digits : List Char) : Nat :=
  digits.foldl (fun n c => n * base + value c) 0

end Digit

end TermRules.Toml

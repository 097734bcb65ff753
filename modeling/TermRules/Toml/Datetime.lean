/-
TermRules.Toml.Datetime — dates and times of a document.

A date, a time, or a date and a time with an optional offset. The day has to
exist in its month, and a minute may have a sixty-first second.
-/
import TermRules.Toml.Cursor

namespace TermRules.Toml

open Reader

namespace Datetime

/-- Exactly so many digits, as a number. -/
def digits : Nat → Reader Nat
  | 0 => pure 0
  | n + 1 => do
    let d ← char Char.isDigit
    return Digit.value d * Nat.pow 10 n + (← digits n)

/-- Exactly so many digits, between two bounds. -/
def within (n low high : Nat) : Reader Nat := do
  let value ← digits n
  if low ≤ value ∧ value ≤ high then return value else failure

def isLeapYear (year : Nat) : Bool := year % 4 = 0 && (year % 100 != 0 || year % 400 = 0)

def daysIn (year month : Nat) : Nat :=
  if month = 2 then if isLeapYear year then 29 else 28
  else if month ∈ [4, 6, 9, 11] then 30
  else 31

def date : Reader Unit := do
  let year ← digits 4
  text ['-']
  let month ← within 2 1 12
  text ['-']
  let day ← within 2 1 31
  if day ≤ daysIn year month then return () else failure

def time : Reader Unit := do
  let _ ← within 2 0 23
  text [':']
  let _ ← within 2 0 59
  text [':']
  let _ ← within 2 0 60
  let _ ← optional? (char (· = '.') *> chars1 Char.isDigit)

def offset : Reader Unit := do
  match ← peek? with
  | some 'Z' | some 'z' => let _ ← char fun _ => true
  | some '+' | some '-' =>
    let _ ← char fun _ => true
    let _ ← within 2 0 23
    text [':']
    let _ ← within 2 0 59
  | _ => failure

/-- What separates a date from a time. -/
def separator : Reader Unit := do
  let _ ← char fun c => c = 'T' || c = 't' || c = ' '

/-- A date with or without a time, or a time alone. -/
def datetime : Reader Unit :=
  (date *> (separator *> time *> (offset <|> pure ()) <|> pure ())) <|> time

end Datetime

end TermRules.Toml

/-
TermRules.Toml.Number — integers and floating point numbers of a document.

Digits may be grouped by single underscores. Integers are decimal without
leading zeros and with an optional sign, or hexadecimal, octal or binary behind
a marker and without a sign; they have to fit in 64 bits. A floating point
number is the double nearest to what is written; one that rounds up to infinity
is refused.
-/
import TermRules.Toml.Value

namespace TermRules.Toml

open Reader

namespace Number

/-- Digits of a class in groups between single underscores. -/
def grouped (p : Char → Bool) : Reader (List Char) := do
  let first ← chars1 p
  let groups ← many (char (· = '_') *> chars1 p)
  return first ++ groups.flatten

/-- A decimal numeral without leading zeros. -/
def numeral : Reader (List Char) := do
  let digits ← grouped Char.isDigit
  if digits.length > 1 && digits.head? = some '0' then failure else return digits

/-- Whether a minus stands in front. -/
def sign : Reader Bool := do
  match ← peek? with
  | some '-' => char (· = '-') *> return true
  | some '+' => char (· = '+') *> return false
  | _ => return false

/-- A numeral in a base behind its marker. -/
def marked (marker : Char) (base : Nat) (p : Char → Bool) : Reader Int := do
  text ['0', marker]
  return Digit.valueOf base (← grouped p)

def decimalInteger : Reader Int := do
  let negative ← sign
  let n := Digit.valueOf 10 (← numeral)
  return if negative then -n else n

/-- An integer that fits in 64 bits. -/
def integer : Reader Int := do
  let n ← marked 'x' 16 Digit.isHexadecimal <|> marked 'o' 8 Digit.isOctal <|>
    marked 'b' 2 Digit.isBinary <|> decimalInteger
  if -0x8000000000000000 ≤ n ∧ n < 0x8000000000000000 then return n else failure

/-- The double nearest to `digits * 10 ^ exponent`. Beyond four hundred places
either way nothing but zero or infinity is near. -/
def nearest (negative : Bool) (digits : Nat) (exponent : Int) : Binary64 :=
  let place := (Nat.toDigits 10 digits).length + exponent
  let magnitude : Float :=
    if digits = 0 ∨ place < -400 then 0.0
    else if 400 < place then 1.0 / 0.0
    else .ofScientific digits (exponent < 0) exponent.natAbs
  ⟨(if negative then -magnitude else magnitude).toBits⟩

/-- An exponent with its letter. -/
def exponentPart : Reader Int := do
  let _ ← char fun c => c = 'e' || c = 'E'
  let negative ← sign
  let n := Digit.valueOf 10 (← grouped Char.isDigit)
  return if negative then -n else n

def fractionPart : Reader (List Char) := char (· = '.') *> grouped Char.isDigit

/-- A finite number with a fraction, an exponent or both. -/
def finite : Reader Binary64 := do
  let negative ← sign
  let whole ← numeral
  let fraction ← optional? fractionPart
  let exponent ← if fraction.isSome then optional? exponentPart else some <$> exponentPart
  let digits := whole ++ fraction.getD []
  let x := nearest negative (Digit.valueOf 10 digits) (exponent.getD 0 - (fraction.getD []).length)
  if x.isInfinite && !x.negative then failure else return x

/-- An infinity or a NaN by name. -/
def named : Reader Binary64 := do
  let negative ← sign
  let bits : UInt64 ← (text "inf".toList *> return 0x7ff0000000000000) <|>
    (text "nan".toList *> return 0x7ff8000000000000)
  return ⟨if negative then bits ||| 0x8000000000000000 else bits⟩

def float : Reader Binary64 := finite <|> named

end Number

end TermRules.Toml

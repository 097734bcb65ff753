/-
TermRules.Decimal.Layout — how the text of a floating point number is laid out.

The digits are the shortest ones that read back. A `NumberStyle` says which
numbers are written positionally; all others get one digit before the point
and an exponent. A positional number always shows a digit after the point, and
a NaN is written without a sign.
-/
import TermRules.Decimal.Shortest

namespace TermRules

/-- Which numbers are written positionally: those at least `10 ^ lowest` and
below `10 ^ highest`; an absent end is no limit. -/
structure NumberStyle where
  lowest : Option Int
  highest : Option Int

namespace NumberStyle

/-- Numbers inside a term: positional from `0.0001` to below `10 ^ 16`. -/
def inTerm : NumberStyle := ⟨some (-4), some 16⟩

/-- Numbers quoted by a configuration error: always positional. -/
def inMessage : NumberStyle := ⟨none, none⟩

/-- Whether a decimal with `point` digits before its point is positional. -/
def isPositional (s : NumberStyle) (point : Int) : Bool :=
  s.lowest.all (· < point) && s.highest.all (point ≤ ·)

end NumberStyle

namespace Decimal

/-- The digits with the decimal point after the first `point` of them. -/
def positional (digits : List Char) (point : Int) : List Char :=
  let whole := digits.take point.toNat ++ List.replicate (point.toNat - digits.length) '0'
  let part := List.replicate (-point).toNat '0' ++ digits.drop point.toNat
  (if whole.isEmpty then ['0'] else whole) ++ '.' :: (if part.isEmpty then ['0'] else part)

/-- One digit before the point, the others after it, and the exponent. -/
def scientific (digits : List Char) (point : Int) : List Char :=
  let rest := digits.drop 1
  digits.take 1 ++ (if rest.isEmpty then [] else '.' :: rest) ++
    'e' :: (toString (point - 1)).toList

/-- The text of a positive decimal. -/
def render (s : NumberStyle) (d : Decimal) : List Char :=
  let digits := Nat.toDigits 10 d.digits
  let point := digits.length + d.exponent
  if s.isPositional point then positional digits point else scientific digits point

end Decimal

/-- The text of a number in a style. -/
def Binary64.render (s : NumberStyle) (x : Binary64) : String :=
  if x.isNaN then "NaN"
  else
    let magnitude :=
      if x.isInfinite then "inf".toList
      else if x.isZero then "0.0".toList
      else x.shortestDecimal.render s
    String.ofList (if x.negative then '-' :: magnitude else magnitude)

end TermRules

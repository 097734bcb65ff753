/-
TermRules.Term.Display — the two texts of a term.

`display` is what a user reads: symbols bare, strings quoted, sequences between
parentheses. `inspect` spells out the structure, names every layer and shows
the filters of variables.
-/
import TermRules.Decimal.Layout
import TermRules.Term.Basic

namespace TermRules

/-- A number as terms show it. -/
def Binary64.display (x : Binary64) : String := x.render .inTerm

/-- Texts between brackets, separated by commas. -/
def bracketed (texts : List String) : String := "[" ++ ", ".intercalate texts ++ "]"

namespace Literal

def display : Literal → String
  | .symbol s => s.display
  | .bool b => toString b
  | .long n => toString n.toInt
  | .float x => x.display
  | .str s => quoted s
  | .nil => "()"

def inspect : Literal → String
  | .symbol s => "Symbol(" ++ s.inspect ++ ")"
  | .bool b => "Bool(" ++ toString b ++ ")"
  | .long n => "Long(" ++ toString n.toInt ++ ")"
  | .float x => "Float(" ++ x.display ++ ")"
  | .str s => "Str(" ++ quoted s ++ ")"
  | .nil => "Nil"

end Literal

namespace Payload

def inspect : Payload → String
  | .byte n => toString n.toNat
  | .word n => toString n.toNat
  | .long n => toString n.toInt
  | .float x => x.display
  | .text s => quoted s
  | .bytes bs => bracketed (bs.map fun b => toString b.toNat)
  | .point x y => "Point \x7b x: " ++ toString x.toInt ++ ", y: " ++ toString y.toInt ++ " \x7d"
  | .unit => "()"

end Payload

namespace Term

mutual
/-- The structure of a term, layer by layer. -/
def inspect : Term → String
  | .literal l => "Atom(" ++ l.inspect ++ ")"
  | .grounded _ v => "Atom(Grounded(Grounded(" ++ v.inspect ++ ")))"
  | .boxed _ t => "Atom(Grounded(Grounded(" ++ inspect t ++ ")))"
  | .var v => "Var(" ++ v.inspect ++ ")"
  | .seq _ items => "Seq(" ++ bracketed (inspectAll items) ++ ")"

def inspectAll : List Term → List String
  | [] => []
  | t :: ts => inspect t :: inspectAll ts
end

mutual
/-- The text of a term for a reader. -/
def display : Term → String
  | .literal l => l.display
  | .grounded _ v => "Grounded(" ++ v.inspect ++ ")"
  | .boxed _ t => "Grounded(" ++ inspect t ++ ")"
  | .var v => v.display
  | .seq _ items => "(" ++ " ".intercalate (displayAll items) ++ ")"

def displayAll : List Term → List String
  | [] => []
  | t :: ts => display t :: displayAll ts
end

end Term

end TermRules

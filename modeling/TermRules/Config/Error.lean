/-
TermRules.Config.Error — why a configuration is refused, and in which words.

A document that does not fit is shown with the line at fault: the line below it
points at the offending text with carets.
-/
import TermRules.Decimal.Layout
import TermRules.Text.Quoted
import TermRules.Toml.Value

namespace TermRules.Config

/-- What is wrong with a part of a configuration. -/
inductive Complaint where
  | unknownField (name : String) (known : List String)
  | unknownVariant (name : String) (known : List String)
  /-- A number of steps below zero. -/
  | negative (n : Int)
  | wrongType (found expected : String)

namespace Complaint

/-- Names to choose from. -/
def alternatives (names : List String) : String :=
  " or ".intercalate (names.map fun name => "`" ++ name ++ "`")

def text : Complaint → String
  | .unknownField name known => "unknown field `" ++ name ++ "`, expected " ++ alternatives known
  | .unknownVariant name known =>
    "unknown variant `" ++ name ++ "`, expected " ++ alternatives known
  | .negative n => "invalid value: integer `" ++ toString n ++ "`, expected usize"
  | .wrongType found expected => "invalid type: " ++ found ++ ", expected " ++ expected

end Complaint

/-- A complaint about a part of a text. -/
structure Misfit where
  span : Toml.Span
  complaint : Complaint

namespace Misfit

/-- The characters of which each begins before that many bytes. -/
def takeBytes : Nat → List Char → List Char
  | 0, _ => []
  | _ + 1, [] => []
  | n + 1, c :: cs => c :: takeBytes (n + 1 - c.utf8Size) cs

/-- The characters after the last line feed. -/
def lastLine (cs : List Char) : List Char := (cs.reverse.takeWhile (· != '\n')).reverse

/-- The message, with the line at fault under its number. -/
def message (source : String) (m : Misfit) : String :=
  let before := takeBytes m.span.start source.toList
  let column := (lastLine before).length
  let number := before.count '\n' + 1
  let line := lastLine before ++ (source.toList.drop before.length).takeWhile (· != '\n')
  let width := (m.span.stop - m.span.start).min ((String.ofList line).utf8ByteSize - column)
  let margin := "".pushn ' ' ((toString number).length + 1) ++ "|"
  "invalid engine config: TOML parse error at line " ++ toString number ++ ", column " ++
    toString (column + 1) ++ "\n" ++ margin ++ "\n" ++ toString number ++ " | " ++
    String.ofList line ++ "\n" ++ margin ++ "".pushn ' ' (column + 1) ++
    "".pushn '^' (width.max 1) ++ "\n" ++ m.complaint.text ++ "\n"

end Misfit

/-- Why a file could not be read as text. -/
inductive ReadFailure where
  | missing
  | isDirectory
  | invalidEncoding

def ReadFailure.message : ReadFailure → String
  | .missing => "No such file or directory (os error 2)"
  | .isDirectory => "Is a directory (os error 21)"
  | .invalidEncoding => "stream did not contain valid UTF-8"

/-- Why there are no settings. -/
inductive Error where
  | unreadable (path : String) (failure : ReadFailure)
  /-- The text is no document, or its strategy is neither a name nor a table of
  one name with nothing under it. -/
  | malformed
  | misfit (source : String) (m : Misfit)

/-- The message of an error; what exactly is malformed is not told. -/
def Error.message? : Error → Option String
  | .unreadable path failure =>
    some ("failed to read config file '" ++ path ++ "': " ++ failure.message)
  | .malformed => none
  | .misfit source m => some (m.message source)

end TermRules.Config

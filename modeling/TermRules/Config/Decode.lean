/-
TermRules.Config.Decode — settings from the text of a configuration.

Every setting may be left out and unknown ones are refused, in the order of the
text. The settings of normalization are a table, or an array that gives them
without names. A strategy is its name, or a table with the name as its only key
and nothing under it. A complaint points at the key if that is unknown, at the
value otherwise; a table without a text of its own is pointed at by its key.
-/
import TermRules.Config.Error
import TermRules.Settings
import TermRules.Toml.Document
import TermRules.Trace.Basic

namespace TermRules.Config

open Toml (Item Key Scalar Span)

/-- A part of the decoding: nothing is told about what is malformed. -/
abbrev Decoded (α : Type) := Except (Option Misfit) α

def refuse {α : Type} (span : Span) (complaint : Complaint) : Decoded α :=
  .error (some ⟨span, complaint⟩)

/-- The fields of the settings of normalization. -/
def normalizeFields : List String := ["max_steps", "strategy"]

/-- A scalar as complaints name it. -/
def describeScalar : Scalar → String
  | .string s => "string " ++ quoted s
  | .integer n => "integer `" ++ toString n ++ "`"
  | .float x => "floating point `" ++ x.render .inMessage ++ "`"
  | .boolean b => "boolean `" ++ toString b ++ "`"
  | .datetime => "map"

/-- An item as complaints about its type name it. -/
def describe : Item → String
  | .scalar _ s => describeScalar s
  | .array _ _ | .tables _ _ => "sequence"
  | .table _ _ _ => "map"

/-- The span of an item, or the one to point at in its stead. -/
def spanOr (fallback : Span) (item : Item) : Span := item.span?.getD fallback

def maxSteps (fallback : Span) : Item → Decoded Nat
  | .scalar span (.integer n) => if 0 ≤ n then .ok n.toNat else refuse span (.negative n)
  | item => refuse (spanOr fallback item) (.wrongType (describe item) "usize")

/-- The strategy of a name. -/
def strategyNamed (span : Span) (name : String) : Decoded Strategy :=
  match Strategy.ofName? name with
  | some s => .ok s
  | none => refuse span (.unknownVariant name ["outermost", "innermost"])

/-- Whether nothing stands in an item. -/
def isEmpty : Item → Bool
  | .table _ _ entries => entries.isEmpty
  | .array _ items | .tables _ items => items.isEmpty
  | .scalar _ _ => false

/-- A strategy; only an unknown name is told. -/
def strategy : Item → Decoded Strategy
  | .scalar span (.string name) => strategyNamed span name
  | .table _ _ [(key, content)] => do
    let chosen ← strategyNamed key.span key.name
    if isEmpty content then return chosen else .error none
  | _ => .error none

/-- One field of the settings of normalization. -/
def normalizeField (s : NormalizeSettings) (key : Key) (item : Item) :
    Decoded NormalizeSettings :=
  match key.name with
  | "max_steps" => return { s with maxSteps := ← maxSteps key.span item }
  | "strategy" => return { s with strategy := ← strategy item }
  | name => refuse key.span (.unknownField name normalizeFields)

/-- The settings of normalization in order, without names; more are ignored. -/
def normalizeArray (fallback : Span) (items : List Item) : Decoded NormalizeSettings := do
  let s : NormalizeSettings := {}
  match items with
  | [] => return s
  | [steps] => return { s with maxSteps := ← maxSteps fallback steps }
  | steps :: chosen :: _ =>
    let maxSteps ← maxSteps fallback steps
    return { maxSteps, strategy := ← strategy chosen }

def normalizeSettings (fallback : Span) : Item → Decoded NormalizeSettings
  | .table _ _ entries =>
    entries.foldlM (fun s (key, item) => normalizeField s key item) {}
  | item@(.array _ items) => normalizeArray (spanOr fallback item) items
  | item@(.tables _ items) => normalizeArray (spanOr fallback item) items
  | .scalar span .datetime =>
    refuse span (.unknownField "$__toml_private_datetime" normalizeFields)
  | .scalar span s => refuse span (.wrongType (describeScalar s) "struct NormalizeConfig")

/-- The settings in a document. -/
def settings (root : Toml.Table) : Decoded Settings :=
  root.entries.foldlM (fun s (key, item) =>
    match key.name with
    | "normalize" => return { s with normalize := ← normalizeSettings key.span item }
    | name => refuse key.span (.unknownField name ["normalize"])) {}

/-- The settings in a text. -/
def ofText (text : String) : Except Error Settings :=
  match Toml.document? text with
  | none => .error .malformed
  | some root =>
    match settings root with
    | .ok s => .ok s
    | .error none => .error .malformed
    | .error (some misfit) => .error (.misfit text misfit)

/-- The settings in a file, given what reading it came to. A success is
reported. -/
def load (path : String) (content : Except ReadFailure ByteArray) :
    Traced (Except Error Settings) :=
  match content with
  | .error failure => return .error (.unreadable path failure)
  | .ok bytes =>
    match String.fromUTF8? bytes with
    | none => return .error (.unreadable path .invalidEncoding)
    | some text =>
      match ofText text with
      | .error e => return .error e
      | .ok s => do
        .emit (.settingsLoaded path s)
        return .ok s

end TermRules.Config

import RouteTree.Settings.Basic
import RouteTree.Toml.Document

/-!
# Settings from a TOML text

A text read on its own is taken strictly: every known name has a value of its own type, unknown
names are passed over, and what is not mentioned keeps its default. The documentation settings may
also be written as an array of their values in order.
-/

namespace RouteTree

/-- Why there are no settings. -/
inductive SettingsError where
  /-- The file is not there. -/
  | missingFile
  /-- The text is no TOML document. -/
  | malformed
  /-- A name has a value that does not fit it. -/
  | unfit
deriving DecidableEq, Repr

open Toml (Value)

namespace Settings

def stringOf? : Value → Option String
  | .string s => some s
  | _ => none

def stringsOf? : Value → Option (List String)
  | .array items => items.mapM stringOf?
  | _ => none

/-- A number of levels: an integer that is not negative. -/
def naturalOf? : Value → Option Nat
  | .integer (.ofNat n) => some n
  | _ => none

/-- The value of a name, or its default if it is not there; `none` if it does not fit. -/
def entryOr? {α β : Type} (read : β → Option α) (default : α) (found? : Option β) : Option α :=
  match found? with
  | none => some default
  | some v => read v

end Settings

namespace DocumentationSettings

/-- The settings whose entries are found by position or by name; the first argument says what is at
a position and the second what has a name. -/
def ofEntries? {β : Type} (read : β → Option String) (entry : Nat → String → Option β) :
    Option DocumentationSettings := do
  let default : DocumentationSettings := {}
  let indent ← Settings.entryOr? read default.indent (entry 0 "indent")
  let jsonAccept ← Settings.entryOr? read default.jsonAccept (entry 1 "json_accept")
  let jsonRenderer ← Settings.entryOr? read default.jsonRenderer (entry 2 "json_renderer")
  return { indent, jsonAccept, jsonRenderer }

/-- Documentation settings as a table or as an array. A date is a table of no known names. -/
def ofToml? : Value → Option DocumentationSettings
  | .table entries => ofEntries? Settings.stringOf? fun _ name => entries.lookup name
  | .array items => ofEntries? Settings.stringOf? fun position _ => items[position]?
  | .datetime _ => some {}
  | _ => none

end DocumentationSettings

namespace Settings

def ofTable? (entries : List (String × Value)) : Option Settings := do
  let default : Settings := {}
  let requestMethods ← entryOr? stringsOf? default.requestMethods (entries.lookup "request_methods")
  let maxDepth ← entryOr? naturalOf? default.maxDepth (entries.lookup "max_depth")
  let documentation ←
    entryOr? DocumentationSettings.ofToml? default.documentation (entries.lookup "documentation")
  return { requestMethods, maxDepth, documentation }

/-- The settings that a TOML text gives. -/
def ofToml (s : String) : Except SettingsError Settings :=
  match Toml.parse? s with
  | none => throw .malformed
  | some entries =>
    match ofTable? entries with
    | none => throw .unfit
    | some settings => return settings

end Settings

end RouteTree

import RouteTree.Number.Shortest
import RouteTree.Settings.Environment

/-!
# Layered settings

The defaults lie at the bottom, a file over them if one is named, the environment on top. File and
environment are laid over each other first, so that a position in a list counts in the list of the
file and never in the default one. What lies on top in the end is converted to what it is for: a
scalar becomes a text by being written out, and a number of levels by being counted. Lists and
tables do not become scalars, nor scalars lists or tables.
-/

namespace RouteTree

/-- The file that settings are read from. -/
inductive SettingsFile where
  /-- None was named. -/
  | unnamed
  | missing
  | holding (content : String)
deriving DecidableEq, Repr

namespace Raw

def textOf? : Raw → Option String
  | .text s => some s
  | .boolean b => some (if b then "true" else "false")
  | .integer i => some (toString i)
  | .float x => some x.text
  | .nothing | .list _ | .table _ => none

def textsOf? : Raw → Option (List String)
  | .list items => items.mapM textOf?
  | _ => none

/-- The greatest number of levels. -/
def maxCount : Nat := UInt64.size - 1

/-- A count in words or digits. -/
def countOfText? (s : String) : Option Nat :=
  match s.toLower with
  | "true" | "on" | "yes" => some 1
  | "false" | "off" | "no" => some 0
  | _ =>
    let digits := match s.toList with
      | '+' :: cs => cs
      | cs => cs
    let n := Number.Binary64.digitsValue digits
    if digits.isEmpty || !digits.all Char.isDigit || maxCount < n then none else some n

def countOf? : Raw → Option Nat
  | .text s => countOfText? s
  | .boolean b => some (if b then 1 else 0)
  | .integer (.ofNat n) => some n
  | .integer (.negSucc _) => none
  | .float x => some (x.toNatWithin maxCount)
  | .nothing | .list _ | .table _ => none

def documentationOf? : Raw → Option DocumentationSettings
  | .table entries => DocumentationSettings.ofEntries? textOf? fun _ name => entries.lookup name
  | .list items => DocumentationSettings.ofEntries? textOf? fun position _ => items[position]?
  | _ => none

/-- The settings that all layers together give. -/
def settings? (v : Raw) : Option Settings := do
  let default : Settings := {}
  let requestMethods ←
    Settings.entryOr? textsOf? default.requestMethods (v.entries.lookup "request_methods")
  let maxDepth ← Settings.entryOr? countOf? default.maxDepth (v.entries.lookup "max_depth")
  let documentation ←
    Settings.entryOr? documentationOf? default.documentation (v.entries.lookup "documentation")
  return { requestMethods, maxDepth, documentation }

/-- Lays values over their places in order. -/
def setAll (root : Raw) (layer : List (String × Raw)) : Raw :=
  layer.foldl (fun root (place, v) => root.setAt place v) root

end Raw

namespace Settings

/-- The settings as the lowest layer. -/
def toRaw (s : Settings) : Raw :=
  .table [
    ("request_methods", .list (s.requestMethods.map .text)),
    ("max_depth", .integer s.maxDepth),
    ("documentation", .table [
      ("indent", .text s.documentation.indent),
      ("json_accept", .text s.documentation.jsonAccept),
      ("json_renderer", .text s.documentation.jsonRenderer)])]

/-- The layer of a file. -/
def fileLayer : SettingsFile → Except SettingsError (List (String × Raw))
  | .unnamed => return []
  | .missing => throw .missingFile
  | .holding content =>
    match (Toml.parse? content).bind fun entries => Raw.ofToml? (.table entries) with
    | some (.table entries) => return entries
    | _ => throw .malformed

/-- The settings from all sources. -/
def load (file : SettingsFile) (environment : List (String × String)) :
    Except SettingsError Settings := do
  let given := ((Raw.table []).setAll (← fileLayer file)).setAll (Environment.layer environment)
  match (({} : Settings).toRaw.setAll given.entries).settings? with
  | none => throw .unfit
  | some settings => return settings

end Settings

end RouteTree

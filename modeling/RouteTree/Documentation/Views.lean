import RouteTree.Documentation.OfTree
import RouteTree.Router.Basic

/-!
# Serving documentation

The documentation of a tree is served at one path by two views: the outline for every client, and
JSON for those that accept it.
-/

namespace RouteTree.Documenter

/-- The view that answers with the outline. -/
def outlineView (d : Documenter) (serial : Nat) (doc : Documentation) : Handler where
  serial
  name := "api_documentation"
  call _ := doc.outlineText
  kind := d.servingKind
  description := some "API documentation."

/-- The view that answers with JSON. -/
def jsonView (d : Documenter) (serial : Nat) (doc : Documentation) : Handler where
  serial
  name := "api_documentation_json"
  call _ := doc.jsonText
  kind := d.servingKind
  description := some "API documentation as JSON."

def outlineOptions : ViewOptions := { methods := some .get }

def jsonOptions (s : DocumentationSettings) : ViewOptions :=
  { methods := some .get, accept := some s.jsonAccept, renderer := some s.jsonRenderer }

/-- Serves the documentation of `t` at `path`. The views get the serial numbers `serial` and
`serial + 1`, which no other handler should have. The router is not called before the documentation
has come to an end. -/
def registerViews {σ : Type} (d : Documenter) (r : Router σ) (t : Tree) (path : String)
    (serial : Nat) : Option (Service σ Unit) := do
  let result ← (d.document t).run
  return do
    let doc ← .ofExcept id result
    .ofRouter do
      r.addRoute path path
      r.addView path (d.outlineView serial doc) outlineOptions
      r.addView path (d.jsonView (serial + 1) doc) (jsonOptions d.settings.documentation)

end RouteTree.Documenter

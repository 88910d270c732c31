import RouteTree.Text.Json
import RouteTree.Text.Outline
import Std.Data.ExtTreeMap

/-!
# Documentation

The documentation of a tree: for every route and every label of methods on it, what the view says
about itself. It has two forms, an outline for readers and JSON for programs, both sorted by route
and by label.
-/

namespace RouteTree

/-- What a view says about itself. A field is absent if nothing is declared for it. -/
structure ViewDoc where
  description : String := ""
  required : Option String := none
  optional : Option String := none
  unlimited : Option String := none
  returns : Option String := none
deriving DecidableEq, Inhabited, Repr

namespace ViewDoc

/-- The fields that are present, with their names. -/
def fields (d : ViewDoc) : List (String × String) :=
  [("required", d.required), ("optional", d.optional), ("unlimited", d.unlimited),
    ("returns", d.returns)].filterMap fun (name, text?) => text?.map (name, ·)

def toJson (d : ViewDoc) : Text.Json :=
  .object (("description", .string d.description) ::
    d.fields.map fun (name, text) => (name, .string text))

/-- The labels below a view: its description, unless empty, and its fields. -/
def toOutline (d : ViewDoc) : List Text.Outline :=
  (if d.description.isEmpty then [] else [.node d.description []]) ++
    d.fields.map fun (name, text) => .node (name ++ ": " ++ text) []

end ViewDoc

/-- The views of a route by their labels. -/
abbrev RouteDoc := Std.ExtTreeMap String ViewDoc

structure Documentation where
  byRoute : Std.ExtTreeMap String RouteDoc

namespace Documentation

def empty : Documentation := ⟨∅⟩

instance : Inhabited Documentation := ⟨empty⟩

def routes (d : Documentation) : List String := d.byRoute.keys

def route? (d : Documentation) (route : String) : Option RouteDoc := d.byRoute[route]?

/-- What is known of the view on `route` that has this label. -/
def view? (d : Documentation) (route label : String) : Option ViewDoc :=
  (d.route? route).bind fun views => views[label]?

def size (d : Documentation) : Nat := d.byRoute.size

def isEmpty (d : Documentation) : Bool := d.byRoute.isEmpty

def insert (d : Documentation) (route : String) (views : RouteDoc) : Documentation :=
  ⟨d.byRoute.insert route views⟩

def toJson (d : Documentation) : Text.Json :=
  .object (d.byRoute.toList.map fun (route, views) =>
    (route, .object (views.toList.map fun (label, view) => (label, view.toJson))))

def jsonText (d : Documentation) : String := d.toJson.render

/-- The label of a route: the root is shown as a slash. -/
def routeLabel (route : String) : String := if route.isEmpty then "/" else route

def toOutline (d : Documentation) : Text.Outline :=
  .node "API" (d.byRoute.toList.map fun (route, views) =>
    .node (routeLabel route) (views.toList.map fun (label, view) => .node label view.toOutline))

def outlineText (d : Documentation) : String := d.toOutline.render

end Documentation

end RouteTree

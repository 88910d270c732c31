import RouteTree.Router.Basic

/-!
# A router in memory

A `Registry` lists its routes in the order of their registration, each with its views in the order
of theirs, and keeps the position of every name. Adding a known route changes its pattern only. A
view is refused if its route is unknown or holds a view with the same predicates, and then the
registry stays as it is.
-/

namespace RouteTree

structure ViewEntry where
  view : Handler
  options : ViewOptions

structure RouteEntry where
  name : String
  pattern : String
  views : List ViewEntry

structure Registry where
  routes : List RouteEntry
  /-- The position in `routes` of every name. -/
  positions : Std.ExtTreeMap String Nat

namespace Registry

def empty : Registry := ⟨[], ∅⟩

instance : Inhabited Registry := ⟨empty⟩

def route? (t : Registry) (name : String) : Option RouteEntry :=
  t.positions[name]?.bind fun i => t.routes[i]?

/-- The views of a route; an unknown route has none. -/
def views (t : Registry) (name : String) : List ViewEntry :=
  (t.route? name).elim [] (·.views)

def isEmpty (t : Registry) : Bool := t.routes.isEmpty

def addRoute (t : Registry) (name pattern : String) : Registry :=
  match t.positions[name]? with
  | some i => { t with routes := t.routes.modify i fun r => { r with pattern } }
  | none =>
    { routes := t.routes ++ [⟨name, pattern, []⟩]
      positions := t.positions.insert name t.routes.length }

def addView (t : Registry) (route : String) (view : Handler) (options : ViewOptions) :
    Except Refusal Registry :=
  match t.positions[route]? with
  | none => throw (.unknownRoute route)
  | some i =>
    if (t.views route).any fun v => v.options.collides options then
      throw (.duplicateView route options.conditions)
    else
      let added (r : RouteEntry) := { r with views := r.views ++ [⟨view, options⟩] }
      return { t with routes := t.routes.modify i added }

/-- The registry as a router. -/
def router : Router Registry where
  addRoute name pattern t := .ok () (t.addRoute name pattern)
  addView route view options t :=
    match t.addView route view options with
    | .ok t' => .ok () t'
    | .error e => .error e t

end Registry

end RouteTree

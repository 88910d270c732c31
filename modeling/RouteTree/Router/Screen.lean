import RouteTree.Router.Basic

/-!
# A router behind a screen

A screen names routes and views that must not be registered. It answers for the router behind it on
these, which then is not asked, and lets everything else through.
-/

namespace RouteTree

structure Screen where
  /-- Names of routes that are refused. -/
  routes : List String
  /-- Names of views that are refused on every route. -/
  views : List String
deriving Inhabited, Repr

/-- The router behind the screen. -/
def Screen.router {σ : Type} (s : Screen) (r : Router σ) : Router σ where
  addRoute name pattern :=
    if s.routes.contains name then throw (.rejected ("no route " ++ name))
    else r.addRoute name pattern
  addView route view options :=
    if s.views.contains view.name then throw (.rejected ("no views on " ++ route))
    else r.addView route view options

end RouteTree

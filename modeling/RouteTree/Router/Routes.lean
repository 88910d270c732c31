import RouteTree.Router.Service
import RouteTree.Settings.Basic

/-!
# Registering a tree with a router

One route per distinct path, one view per endpoint. The tree is flattened before the router is
called for the first time, and the first refusal ends the registration.
-/

namespace RouteTree

/-- Registers every route of `m`, each followed by its views. -/
def EndpointMap.register {σ : Type} (m : EndpointMap) (r : Router σ) : EStateM Refusal σ Unit :=
  m.groups.forM fun (route, endpoints) => do
    r.addRoute route route
    endpoints.forM fun e => r.addView route e.view e.options

namespace Settings

/-- Registers the endpoints of a tree below `root`. -/
def registerTree {σ : Type} (s : Settings) (r : Router σ) (t : Tree) (root : String) :
    Service σ Unit := do
  let m ← .ofExcept .tree (s.endpoints t root)
  .ofRouter (m.register r)

end Settings

end RouteTree

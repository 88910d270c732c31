import RouteTree.Documentation.Basic
import RouteTree.Documentation.ValueText

/-!
# Documenting a tree

Every view that is not skipped is documented under its route and the label of its methods; of
several views with one label the last one stays. A route without documented views is left out. The
first value without text ends the work.
-/

namespace RouteTree.Documenter

/-- A field of a view, absent if nothing is declared or what is declared is empty. -/
def field (d : Documenter) : Option DocValue → TextM (Option String)
  | none => return none
  | some v => if v.isEmpty then return none else return some (← ExceptT.mk (d.valueText v))

/-- Supplied names are left out of what a view requires or may be given. -/
def viewDoc (d : Documenter) (view : Handler) : TextM ViewDoc := do
  let required ← d.field (view.io.required.map (·.dropKeys view.suppliedNames))
  let optional ← d.field (view.io.optional.map (·.dropKeys view.suppliedNames))
  let unlimited ← d.field view.io.unlimited
  let returns ← d.field view.io.returns
  return { description := view.description.getD "", required, optional, unlimited, returns }

/-- The methods that an endpoint is documented with: its own, or the standard ones if it has none or
an empty list of them. -/
def documentedMethods (standard : Methods) (e : Endpoint) : Methods :=
  (e.options.methods.filter fun m => !m.isEmpty).getD standard

def routeDoc (d : Documenter) (endpoints : List Endpoint) : TextM RouteDoc :=
  endpoints.foldlM (fun views e =>
    if d.skips e.view then return views
    else
      let label := (documentedMethods d.settings.defaultMethods e).label
      return views.insert label (← d.viewDoc e.view)) ∅

/-- The documentation of endpoints that are grouped already. -/
def ofEndpoints (d : Documenter) (m : EndpointMap) : TextM Documentation :=
  m.groups.foldlM (fun documentation (route, endpoints) => do
    let views ← d.routeDoc endpoints
    return if views.isEmpty then documentation else documentation.insert route views) .empty

/-- The documentation of a tree. -/
def document (d : Documenter) (t : Tree) : ExceptT ServiceError Option Documentation :=
  match d.settings.endpoints t "" with
  | .error e => throw (.tree e)
  | .ok m => (d.ofEndpoints m).adapt .text

end RouteTree.Documenter
